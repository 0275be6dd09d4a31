import Bhf.Lib.Text
import Bhf.Lib.Words
import Bhf.Lib.Yields

/-!
# Reading from a stream of bytes

A reader is a computation whose state is what is left of the stream. `Parses m bytes a` says that
`m` reads `a` off exactly `bytes`: whatever follows them is untouched. Readers that parse in this
sense compose along concatenation (`Parses.bind`, `parses_times`), so the round trip of a record
format is put together from the round trips of its fields.

In the other direction, `Shortens m` says that a reader only ever takes bytes from the front of the
stream.
-/

namespace Bhf

open StateExcept List

/-- A reader of a byte stream; the state is what is left of the stream. -/
abbrev Reader (ε : Type) := StateExcept ε Bytes

namespace Reader

variable {ε α β : Type}

/-- Read exactly `n` bytes. A stream that ends before that is used up, and the error is `e`. -/
def readExact (e : ε) (n : ℕ) : Reader ε Bytes := fun stream ↦
  if n ≤ stream.length then (.ok (stream.take n), stream.drop n) else (.error e, [])

/-- Read into a buffer of one byte: nothing at the end of the stream. -/
def readByte : Reader ε (Option UInt8) := fun stream ↦
  match stream with
  | [] => (.ok none, [])
  | byte :: rest => (.ok (some byte), rest)

def readU32Le (e : ε) : Reader ε UInt32 := do
  return UInt32.ofNat (leValue (← readExact e 4))

def readU64Le (e : ε) : Reader ε UInt64 := do
  return UInt64.ofNat (leValue (← readExact e 8))

/-! ### Reading back what was written -/

/-- The reader reads `a` off exactly these bytes. -/
def Parses (m : Reader ε α) (bytes : Bytes) (a : α) : Prop :=
  ∀ rest, Runs m (bytes ++ rest) a rest

theorem parses_pure (a : α) : Parses (pure a : Reader ε α) [] a :=
  fun rest ↦ Runs.pure a rest

variable {m : Reader ε α} {f : α → Reader ε β} {bytes bytes' : Bytes} {a : α} {b : β}
  {P : α → Prop} {limit : ℕ}

theorem Parses.bind (hm : Parses m bytes a) (hf : Parses (f a) bytes' b) :
    Parses (m >>= f) (bytes ++ bytes') b := by
  intro rest
  rw [append_assoc]
  exact (hm _).bind (hf rest)

/-- A step that reads nothing. -/
theorem Parses.silent (hm : Parses m [] a) (hf : Parses (f a) bytes b) : Parses (m >>= f) bytes b :=
  hm.bind hf

/-- A last step that reads nothing. -/
theorem Parses.finish (hm : Parses m bytes a) (hf : Parses (f a) [] b) :
    Parses (m >>= f) bytes b := by
  have h := hm.bind hf
  rwa [append_nil] at h

theorem Parses.map (hm : Parses m bytes a) (f : α → β) : Parses (do return f (← m)) bytes (f a) :=
  hm.finish (parses_pure (f a))

variable {e : ε} {stream rest line : Bytes} {Q : β → Prop} {text : String}

/-- Everything a successful read of a fixed number of bytes does. -/
theorem runs_readExact_iff {n : ℕ} :
    Runs (readExact e n) stream bytes rest ↔ bytes.length = n ∧ stream = bytes ++ rest := by
  have hexec : exec (readExact e n) stream =
      if n ≤ stream.length then (.ok (stream.take n), stream.drop n) else (.error e, []) := rfl
  rw [Runs, hexec]
  constructor
  · intro h
    split at h
    · next hle =>
      obtain ⟨rfl, rfl⟩ := h
      exact ⟨length_take_of_le hle, (take_append_drop n stream).symm⟩
    · simp at h
  · rintro ⟨rfl, rfl⟩
    rw [if_pos (by simp), take_left, drop_left]

theorem parses_readExact (e : ε) (bytes : Bytes) : Parses (readExact e bytes.length) bytes bytes :=
  fun _ ↦ runs_readExact_iff.2 ⟨rfl, rfl⟩

theorem parses_readU32Le (e : ε) (v : UInt32) : Parses (readU32Le e) (leBytes 4 v.toNat) v := by
  have h := (parses_readExact e (leBytes 4 v.toNat)).map fun bytes ↦ UInt32.ofNat (leValue bytes)
  rwa [length_leBytes, leValue_leBytes v.toNat_lt, UInt32.ofNat_toNat] at h

theorem parses_readU64Le (e : ε) (v : UInt64) : Parses (readU64Le e) (leBytes 8 v.toNat) v := by
  have h := (parses_readExact e (leBytes 8 v.toNat)).map fun bytes ↦ UInt64.ofNat (leValue bytes)
  rwa [length_leBytes, leValue_leBytes v.toNat_lt, UInt64.ofNat_toNat] at h

/-- A counted loop reads back a sequence of encodings. -/
theorem parses_times (encode : β → Bytes) (value : β → α) {bs : List β}
    (h : ∀ b ∈ bs, Parses m (encode b) (value b)) :
    Parses (times m bs.length) (bs.flatMap encode) (bs.map value) := by
  induction bs with
  | nil => exact parses_pure []
  | cons b bs ih =>
    have hrest := ih fun b' hb' ↦ h b' (.tail _ hb')
    exact (h b (.head _)).bind (hrest.map fun values ↦ value b :: values)

/-! ### Bytes that are refused -/

/-- The reader stops with an error on these bytes, whatever follows them. -/
def Refuses (m : Reader ε α) (bytes : Bytes) : Prop :=
  ∀ rest, ∃ e stream, exec m (bytes ++ rest) = (.error e, stream)

theorem refuses_throw (e : ε) (bytes : Bytes) : Refuses (throw e : Reader ε α) bytes :=
  fun rest ↦ ⟨e, bytes ++ rest, rfl⟩

theorem Refuses.bind (hm : Refuses m bytes) (f : α → Reader ε β) (bytes' : Bytes) :
    Refuses (m >>= f) (bytes ++ bytes') := by
  intro rest
  rw [append_assoc]
  obtain ⟨e, stream, herror⟩ := hm _
  exact ⟨e, stream, exec_bind_of_error herror⟩

theorem Parses.refuses (hm : Parses m bytes a) (hf : Refuses (f a) bytes') :
    Refuses (m >>= f) (bytes ++ bytes') := by
  intro rest
  obtain ⟨e, stream, herror⟩ := hf rest
  refine ⟨e, stream, ?_⟩
  rw [append_assoc, exec_bind, hm]
  exact herror

theorem Parses.refuses_finish (hm : Parses m bytes a) (hf : Refuses (f a) []) :
    Refuses (m >>= f) bytes := by
  have h := hm.refuses hf
  rwa [append_nil] at h

/-- The reader takes these bytes exactly if `ok`, and then the value satisfies `P`. -/
structure Decodes (m : Reader ε α) (bytes : Bytes) (ok : Prop) (P : α → Prop) : Prop where
  /-- They are read. -/
  parses : ok → ∃ a, P a ∧ Parses m bytes a
  /-- They are refused. -/
  refuses : ¬ok → Refuses m bytes

theorem Parses.decodes {ok : Prop} (h : Parses m bytes a) (hok : ok) (ha : P a) :
    Decodes m bytes ok P :=
  ⟨fun _ ↦ ⟨a, ha, h⟩, fun hnot ↦ absurd hok hnot⟩

theorem Decodes.bind {ok ok' : Prop} (hm : Decodes m bytes ok P)
    (hf : ∀ a, P a → Decodes (f a) bytes' ok' Q) :
    Decodes (m >>= f) (bytes ++ bytes') (ok ∧ ok') Q := by
  refine ⟨fun ⟨hok, hok'⟩ ↦ ?_, fun hnot ↦ ?_⟩
  · obtain ⟨a, ha, hparse⟩ := hm.parses hok
    obtain ⟨b, hb, hparse'⟩ := (hf a ha).parses hok'
    exact ⟨b, hb, hparse.bind hparse'⟩
  · by_cases hok : ok
    · obtain ⟨a, ha, hparse⟩ := hm.parses hok
      exact hparse.refuses ((hf a ha).refuses fun hok' ↦ hnot ⟨hok, hok'⟩)
    · exact (hm.refuses hok).bind f bytes'

theorem Decodes.of_iff {ok ok' : Prop} (h : ok' ↔ ok) (hm : Decodes m bytes ok P) :
    Decodes m bytes ok' P :=
  ⟨fun hok ↦ hm.parses (h.1 hok), fun hnot ↦ hm.refuses fun hok ↦ hnot (h.2 hok)⟩

/-! ### Values that can be read -/

/-- Every value a counted loop returns was returned by a round, and there are as many as rounds. -/
theorem yields_times (hm : Yields m P) (n : ℕ) :
    Yields (times m n) fun values ↦ values.length = n ∧ ∀ a ∈ values, P a := by
  induction n with
  | zero => exact yields_pure ⟨rfl, by simp⟩
  | succ n ih =>
    refine hm.bind fun a ha ↦ ih.bind fun values hvalues ↦ yields_pure ?_
    exact ⟨congrArg (· + 1) hvalues.1, forall_mem_cons.2 ⟨ha, hvalues.2⟩⟩

theorem yields_readExact (e : ε) (n : ℕ) : Yields (readExact e n) (·.length = n) :=
  fun _ _ _ hrun ↦ (runs_readExact_iff.1 hrun).1

/-! ### What is left -/

/-- The reader leaves an end of the stream. -/
def Shortens (m : Reader ε α) : Prop :=
  ∀ stream a rest, Runs m stream a rest → rest <:+ stream

theorem shortens_pure (a : α) : Shortens (pure a : Reader ε α) := by
  intro stream b rest hrun
  obtain ⟨-, rfl⟩ : a = b ∧ stream = rest := by simpa [Runs] using hrun
  exact suffix_refl stream

theorem shortens_throw (e : ε) : Shortens (throw e : Reader ε α) := by
  intro stream b rest hrun
  simp [Runs] at hrun

theorem Shortens.bind (hm : Shortens m) (hf : ∀ a, Shortens (f a)) : Shortens (m >>= f) := by
  intro stream b rest hrun
  obtain ⟨a, middle, hrunm, hrunf⟩ := runs_bind_iff.1 hrun
  exact (hf a middle b rest hrunf).trans (hm stream a middle hrunm)

theorem shortens_readExact (e : ε) (n : ℕ) : Shortens (readExact e n) :=
  fun _ bytes _ hrun ↦ ⟨bytes, (runs_readExact_iff.1 hrun).2.symm⟩

theorem shortens_readU32Le (e : ε) : Shortens (readU32Le e) :=
  (shortens_readExact e 4).bind fun _ ↦ shortens_pure _

theorem shortens_readU64Le (e : ε) : Shortens (readU64Le e) :=
  (shortens_readExact e 8).bind fun _ ↦ shortens_pure _

/-! ### Lines -/

/-- The bytes of a stream up to its first newline, with it, and at most `limit` of them. -/
def lineOf : ℕ → Bytes → Bytes
  | 0, _ => []
  | _ + 1, [] => []
  | limit + 1, byte :: rest => if byte = 0x0a then [byte] else byte :: lineOf limit rest

/-- Read a line, of which at most `limit` bytes are taken. The bytes are gone also when they are not
UTF-8, and then the error is `e`. -/
def readLine (e : ε) (limit : ℕ) : Reader ε String := fun stream ↦
  match String.fromUTF8? (lineOf limit stream).toByteArray with
  | none => (.error e, stream.drop (lineOf limit stream).length)
  | some text => (.ok text, stream.drop (lineOf limit stream).length)

theorem lineOf_append_newline (hline : (0x0a : UInt8) ∉ line) (hlen : line.length < limit)
    (rest : Bytes) : lineOf limit (line ++ 0x0a :: rest) = line ++ [0x0a] := by
  induction line generalizing limit with
  | nil =>
    obtain ⟨n, rfl⟩ : ∃ n, limit = n + 1 := ⟨limit - 1, by simp at hlen; omega⟩
    rfl
  | cons byte line ih =>
    obtain ⟨n, rfl⟩ : ∃ n, limit = n + 1 := ⟨limit - 1, by simp at hlen; omega⟩
    have hbyte : byte ≠ 0x0a := fun h ↦ hline (h ▸ mem_cons_self)
    rw [cons_append, lineOf, if_neg hbyte,
      ih (fun h ↦ hline (mem_cons_of_mem _ h)) (by simpa using hlen)]
    rfl

theorem parses_readLine (e : ε) (htext : utf8Bytes text = line ++ [0x0a])
    (hline : (0x0a : UInt8) ∉ line) (hlen : line.length < limit) :
    Parses (readLine e limit) (utf8Bytes text) text := by
  intro rest
  have hof : lineOf limit (utf8Bytes text ++ rest) = utf8Bytes text := by
    rw [htext, append_assoc]
    exact lineOf_append_newline hline hlen rest
  show readLine e limit (utf8Bytes text ++ rest) = _
  rw [readLine, hof, fromUTF8?_utf8Bytes, drop_left]

/-- The stream is shorter by the line that was read. -/
theorem length_of_runs_readLine (h : Runs (readLine e limit) stream text rest) :
    rest.length + text.utf8ByteSize = stream.length := by
  have hle : ∀ (limit : ℕ) (stream : Bytes), (lineOf limit stream).length ≤ stream.length := by
    intro limit stream
    induction stream generalizing limit with
    | nil => cases limit <;> simp [lineOf]
    | cons byte stream ih =>
      cases limit with
      | zero => simp [lineOf]
      | succ limit =>
        rw [lineOf]
        split
        · simp
        · simpa using ih limit
  have h : readLine e limit stream = (.ok text, rest) := h
  rw [readLine] at h
  split at h
  · simp at h
  · next text' htext =>
    simp only [Prod.mk.injEq, Except.ok.injEq] at h
    obtain ⟨rfl, rfl⟩ := h
    have hbytes : text'.utf8ByteSize = (lineOf limit stream).length := by
      rw [← utf8Bytes_of_fromUTF8? htext, utf8Bytes, Array.length_toList]
      rfl
    have := hle limit stream
    rw [hbytes, length_drop]
    omega

end Reader

end Bhf
