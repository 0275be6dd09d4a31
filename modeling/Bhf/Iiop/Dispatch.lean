import Bhf.Iiop.Encode
import Bhf.Iiop.IdlArgs

/-!
# Dispatching a frame, and what it may reserve

`handleFrame` parses a frame, decodes the request and its arguments, and invokes the servant. On the
way the decoders meet element counts declared by the frame. The documented intent is that a count is
compared with the bytes that are left before room is reserved for it.

The list readers of the request header do that. `decodeSequence` does not: it compares the count
with the declared bound only. So the reservations of a frame are all within the unread bytes
**exactly when** every sequence count that decoding reaches, and that its bound admits, is
(`SequencesFit`).

The decoders only add to the log of counts and never look at it (`DecodeM.Disciplined`), so the log
of a composite decoder is put together from the logs of its parts.
-/

namespace Bhf.Iiop

open StateExcept List
open DecodeM (read note)

/-! ### The code -/

structure ServantReply where
  result : Option CdrValue

inductive ServantError
  | unknownOperation (operation : String)
  | badArguments (operation detail : String)

structure Invocation where
  interface : String
  operation : String
  repositoryId : Option String
  arguments : List DecodedArgument
  reply : ServantReply

inductive DispatchError
  | giop (error : GiopError)
  | decode (error : IdlArgumentDecodeError)
  | servant (error : ServantError)

/-- A servant with state `σ`. -/
abbrev Servant (σ : Type) := DecodedRequestArguments → StateExcept ServantError σ ServantReply

/-- The servant of a dispatcher, and the counts its decoders met. -/
structure DispatchState (σ : Type) where
  servant : σ
  counts : List DeclaredCount

/-- Decode one request frame. -/
def decodeFrame (catalog : IdlOperationCatalog) (frame : Bytes) :
    StateExcept DispatchError (List DeclaredCount) DecodedRequestArguments :=
  match parseMessage frame with
  | .error error => throw (.giop error)
  | .ok message => do
    let request ← mapError .giop (readRequest12 message)
    mapError .decode (decodeRequestArguments request catalog)

/-- Hand a decoded request to the servant. -/
def serve {σ : Type} (invoke : Servant σ) (decoded : DecodedRequestArguments) :
    StateExcept DispatchError (DispatchState σ) Invocation := do
  let reply ← mapError .servant
    (zoom DispatchState.servant (fun servant s ↦ { s with servant }) (invoke decoded))
  return ⟨decoded.interface, decoded.operation, decoded.repositoryId, decoded.arguments, reply⟩

/-- Decode one request frame and hand it to the servant. -/
def handleFrame {σ : Type} (invoke : Servant σ) (catalog : IdlOperationCatalog)
    (frame : Bytes) : StateExcept DispatchError (DispatchState σ) Invocation := do
  let decoded ← zoom DispatchState.counts (fun counts s ↦ { s with counts })
    (decodeFrame catalog frame)
  serve invoke decoded

/-- **No allocation is larger than the frame**: every reserved count is at most the bytes that were
unread, and a larger count was refused and ended the run with an error. -/
def AllocationBounded {ε α : Type} (result : Except ε α) (counts : List DeclaredCount) : Prop :=
  ∀ count ∈ counts, (count.reserved = true → count.declared ≤ count.unread) ∧
    (count.unread < count.declared → count.reserved = false ∧ ∃ error, result = .error error)

/-! ### Decoders add to the log -/

namespace DecodeM

variable {ε ε' α β : Type}

/-- The counts a decoder meets from a reader on. -/
def log (m : DecodeM ε α) (r : CdrReader) : List DeclaredCount :=
  (exec m ⟨r, []⟩).2.counts

/-- A decoder **adds** to the log without looking at it, and a count it refuses stops it. -/
structure Disciplined (m : DecodeM ε α) : Prop where
  /-- The log grows by what the decoder adds to an empty one. -/
  appends : ∀ r counts, exec m ⟨r, counts⟩ =
    ((exec m ⟨r, []⟩).1, ⟨(exec m ⟨r, []⟩).2.reader, counts ++ m.log r⟩)
  /-- A count that is not reserved is an error. -/
  refuses : ∀ r, ∀ count ∈ m.log r, count.reserved = false → ∃ e, (exec m ⟨r, []⟩).1 = .error e

/-- Every count for which room is reserved is at most the unread bytes. -/
def Reserves (m : DecodeM ε α) (r : CdrReader) : Prop :=
  ∀ count ∈ m.log r, count.reserved = true → count.declared ≤ count.unread

/-- The reader after a successful decoding. -/
def after (m : DecodeM ε α) (r : CdrReader) : Option CdrReader :=
  match exec m ⟨r, []⟩ with
  | (.ok _, d) => some d.reader
  | (.error _, _) => none

variable {m : DecodeM ε α} {f : α → DecodeM ε β} {r : CdrReader}

theorem log_bind_of_error {e : ε} {d : Decoder} (hm : exec m ⟨r, []⟩ = (.error e, d)) :
    (m >>= f).log r = m.log r := by
  rw [log, log, exec_bind_of_error hm, hm]

/-- The log of a sequence is the two logs. -/
theorem log_bind_of_ok {a : α} {d : Decoder} (hf : (f a).Disciplined)
    (hm : exec m ⟨r, []⟩ = (.ok a, d)) : (m >>= f).log r = m.log r ++ (f a).log d.reader := by
  have hlog : m.log r = d.counts := by rw [log, hm]
  rw [log, exec_bind, hm, hlog]
  show (exec (f a) ⟨d.reader, d.counts⟩).2.counts = _
  rw [hf.appends]

/-! #### Closure -/

theorem disciplined_of_log_nil (h : ∀ r counts,
      exec m ⟨r, counts⟩ = ((exec m ⟨r, []⟩).1, ⟨(exec m ⟨r, []⟩).2.reader, counts⟩)) :
    m.Disciplined := by
  have hlog : ∀ r, m.log r = [] := fun r ↦ by rw [log, h]
  refine ⟨fun r counts ↦ ?_, fun r count hcount ↦ ?_⟩
  · rw [hlog, append_nil]
    exact h r counts
  · rw [hlog] at hcount
    simp at hcount

theorem disciplined_pure (a : α) : (pure a : DecodeM ε α).Disciplined :=
  disciplined_of_log_nil fun _ _ ↦ rfl

theorem disciplined_throw (e : ε) : (throw e : DecodeM ε α).Disciplined :=
  disciplined_of_log_nil fun _ _ ↦ rfl

theorem disciplined_read (onError : CdrError → ε) (m : CdrM α) : (read onError m).Disciplined :=
  disciplined_of_log_nil fun _ _ ↦ rfl

/-- Reserving room. -/
theorem disciplined_note_true (count : ℕ) : (note count true : DecodeM ε Unit).Disciplined := by
  refine ⟨fun r counts ↦ rfl, fun r c hc hreserved ↦ ?_⟩
  obtain rfl := mem_singleton.mp hc
  simp at hreserved

/-- Refusing a count. -/
theorem disciplined_refuse (count : ℕ) (e : ε) :
    (do note count false; throw e : DecodeM ε α).Disciplined :=
  ⟨fun _ _ ↦ rfl, fun _ _ _ _ ↦ ⟨e, rfl⟩⟩

theorem Disciplined.bind (hm : m.Disciplined) (hf : ∀ a, (f a).Disciplined) :
    (m >>= f).Disciplined := by
  constructor
  · intro r counts
    rcases hcase : exec m ⟨r, []⟩ with ⟨e | a, d⟩
    · rw [exec_bind_of_error hcase, log_bind_of_error hcase, exec_bind, hm.appends, hcase]
    · have happends := hm.appends r counts
      have hlog : m.log r = d.counts := by rw [log, hcase]
      rw [log_bind_of_ok (hf a) hcase, exec_bind, happends, exec_bind, hcase]
      show exec (f a) ⟨d.reader, counts ++ m.log r⟩ = _
      rw [(hf a).appends, hlog]
      show _ = ((exec (f a) ⟨d.reader, d.counts⟩).1,
        (⟨(exec (f a) ⟨d.reader, d.counts⟩).2.reader, _⟩ : Decoder))
      rw [(hf a).appends d.reader d.counts, append_assoc]
  · intro r count hcount hreserved
    rcases hcase : exec m ⟨r, []⟩ with ⟨e | a, d⟩
    · exact ⟨e, by rw [exec_bind_of_error hcase]⟩
    · rw [log_bind_of_ok (hf a) hcase] at hcount
      rcases mem_append.mp hcount with hcount | hcount
      · obtain ⟨e, he⟩ := hm.refuses r count hcount hreserved
        rw [hcase] at he
        simp at he
      · obtain ⟨e, he⟩ := (hf a).refuses d.reader count hcount hreserved
        refine ⟨e, ?_⟩
        rw [exec_bind, hcase]
        show (exec (f a) ⟨d.reader, d.counts⟩).1 = _
        rw [(hf a).appends]
        exact he

/-- Looking at the reader. -/
theorem disciplined_get_bind {f : Decoder → DecodeM ε β}
    (hf : ∀ r counts, f ⟨r, counts⟩ = f ⟨r, []⟩) (h : ∀ d, (f d).Disciplined) :
    (get >>= f).Disciplined := by
  refine ⟨fun r counts ↦ ?_, fun r ↦ (h ⟨r, []⟩).refuses r⟩
  rw [exec_get_bind, hf, exec_get_bind]
  exact (h ⟨r, []⟩).appends r counts

theorem Disciplined.mapError (hm : m.Disciplined) (f : ε → ε') : Disciplined (mapError f m) := by
  refine ⟨fun r counts ↦ ?_, fun r count hcount hreserved ↦ ?_⟩
  · rw [exec_mapError, hm.appends]
    rfl
  · obtain ⟨e, he⟩ := hm.refuses r count hcount hreserved
    exact ⟨f e, by rw [exec_mapError, he]; rfl⟩

theorem Disciplined.times (hm : m.Disciplined) (n : ℕ) : Disciplined (times m n) := by
  induction n with
  | zero => exact disciplined_pure _
  | succ n ih => exact hm.bind fun _ ↦ ih.bind fun _ ↦ disciplined_pure _

/-! #### What is reserved -/

theorem reserves_pure (a : α) (r : CdrReader) : (pure a : DecodeM ε α).Reserves r := by
  intro count hcount
  simp [log] at hcount

theorem reserves_throw (e : ε) (r : CdrReader) : (throw e : DecodeM ε α).Reserves r := by
  intro count hcount
  simp [log] at hcount

theorem reserves_read (onError : CdrError → ε) (m : CdrM α) (r : CdrReader) :
    (read onError m).Reserves r := by
  intro count hcount
  exact absurd hcount not_mem_nil

theorem reserves_refuse (count : ℕ) (e : ε) (r : CdrReader) :
    (do note count false; throw e : DecodeM ε α).Reserves r := by
  intro c hc hreserved
  obtain rfl := mem_singleton.mp hc
  simp at hreserved

theorem reserves_note_true_iff {count : ℕ} :
    (note count true : DecodeM ε Unit).Reserves r ↔ count ≤ r.remaining := by
  constructor
  · intro h
    exact h ⟨count, r.remaining, true⟩ (mem_singleton_self _) rfl
  · intro h c hc _
    obtain rfl := mem_singleton.mp hc
    exact h

/-- A sequence reserves what its parts reserve. -/
theorem reserves_bind_iff (hf : ∀ a, (f a).Disciplined) :
    (m >>= f).Reserves r ↔ m.Reserves r ∧
      ∀ a d, exec m ⟨r, []⟩ = (.ok a, d) → (f a).Reserves d.reader := by
  rcases hcase : exec m ⟨r, []⟩ with ⟨e | a, d⟩
  · rw [Reserves, log_bind_of_error hcase]
    simp [Reserves]
  · rw [Reserves, log_bind_of_ok (hf a) hcase]
    simp only [mem_append, or_imp, forall_and, Prod.mk.injEq, Except.ok.injEq, and_imp]
    refine and_congr_right fun _ ↦ ⟨?_, fun h ↦ h a d rfl rfl⟩
    rintro h a' d' rfl rfl
    exact h

/-- What is asked after a successful decoding, when it depends on the reader only. -/
theorem forall_after_iff {Q : CdrReader → Prop} :
    (∀ a d, exec m ⟨r, []⟩ = (.ok a, d) → Q d.reader) ↔ ∀ r' ∈ m.after r, Q r' := by
  rw [after]
  rcases exec m ⟨r, []⟩ with ⟨e | a, d⟩ <;> simp

/-- Wrapping the value reserves nothing. -/
theorem reserves_bind_pure_iff {f : α → β} :
    Reserves (m >>= fun a ↦ pure (f a)) r ↔ m.Reserves r := by
  rw [reserves_bind_iff fun _ ↦ disciplined_pure _]
  exact and_iff_left fun _ _ _ ↦ reserves_pure _ _

/-- Along `n` successive steps from `s`, each state before a step satisfies `P`. -/
def AllAlong {σ : Type} (next : σ → Option σ) (P : σ → Prop) : ℕ → σ → Prop
  | 0, _ => True
  | n + 1, s => P s ∧ ∀ s' ∈ next s, AllAlong next P n s'

/-- A loop reserves what its rounds reserve. -/
theorem reserves_times_iff (hm : m.Disciplined) {n : ℕ} :
    Reserves (times m n) r ↔ AllAlong m.after m.Reserves n r := by
  induction n generalizing r with
  | zero => exact ⟨fun _ ↦ trivial, fun _ ↦ reserves_pure _ _⟩
  | succ n ih =>
    rw [StateExcept.times, reserves_bind_iff fun _ ↦ (hm.times n).bind fun _ ↦ disciplined_pure _,
      AllAlong]
    simp only [reserves_bind_pure_iff, ih, forall_after_iff]

end DecodeM

open DecodeM

/-! ### The request header -/

/-- A decoder that never reserves more than is left. -/
structure Guarded {ε α : Type} (m : DecodeM ε α) : Prop where
  /-- The log is only added to. -/
  disciplined : Disciplined m
  /-- Each count fits what is left. -/
  reserves : ∀ r, Reserves m r

namespace Guarded

variable {ε ε' α β : Type}

theorem pure (a : α) : Guarded (Pure.pure a : DecodeM ε α) :=
  ⟨disciplined_pure a, reserves_pure a⟩

theorem throw (e : ε) : Guarded (MonadExcept.throw e : DecodeM ε α) :=
  ⟨disciplined_throw e, reserves_throw e⟩

theorem read (onError : CdrError → ε) (m : CdrM α) : Guarded (DecodeM.read onError m) :=
  ⟨disciplined_read onError m, reserves_read onError m⟩

variable {m : DecodeM ε α}

theorem bind {f : α → DecodeM ε β} (hm : Guarded m) (hf : ∀ a, Guarded (f a)) :
    Guarded (m >>= f) := by
  refine ⟨hm.disciplined.bind fun a ↦ (hf a).disciplined, fun r ↦ ?_⟩
  rw [reserves_bind_iff fun a ↦ (hf a).disciplined]
  exact ⟨hm.reserves r, fun a d _ ↦ (hf a).reserves d.reader⟩

theorem get_bind {f : Decoder → DecodeM ε β} (hf : ∀ r counts, f ⟨r, counts⟩ = f ⟨r, []⟩)
    (h : ∀ d, Guarded (f d)) : Guarded (get >>= f) :=
  ⟨disciplined_get_bind hf fun d ↦ (h d).disciplined, fun r ↦ (h ⟨r, []⟩).reserves r⟩

theorem mapError (hm : Guarded m) (f : ε → ε') : Guarded (mapError f m) :=
  ⟨hm.disciplined.mapError f, hm.reserves⟩

theorem times (hm : Guarded m) (n : ℕ) : Guarded (times m n) := by
  induction n with
  | zero => exact pure _
  | succ n ih => exact hm.bind fun _ ↦ ih.bind fun _ ↦ pure _

end Guarded

/-- **The guard of the list readers**: a count that is accepted is at most the unread bytes, since
it is at most their number divided by the element size. -/
theorem guarded_readElements {α : Type} (elementMinLen : ℕ) (element : CdrM α)
    (countOffset count : ℕ) : Guarded (readElements elementMinLen element countOffset count) := by
  have hloop : Guarded (times (read id element) count) := (Guarded.read id element).times count
  constructor
  · refine disciplined_get_bind (fun _ _ ↦ rfl) fun d ↦ ?_
    show Disciplined (if count > d.reader.remaining / elementMinLen then _ else _)
    split
    · exact disciplined_refuse _ _
    · exact (disciplined_note_true count).bind fun _ ↦ hloop.disciplined
  · intro r
    show Reserves (if count > r.remaining / elementMinLen then _ else _) r
    split
    · exact reserves_refuse _ _ r
    · rename_i hguard
      rw [reserves_bind_iff fun _ ↦ hloop.disciplined, reserves_note_true_iff]
      have := Nat.div_le_self r.remaining elementMinLen
      exact ⟨by omega, fun _ _ _ ↦ hloop.reserves _⟩

theorem guarded_readCountedList {α : Type} (elementMinLen : ℕ) (element : CdrM α) :
    Guarded (readCountedList elementMinLen element) := by
  refine Guarded.get_bind (fun _ _ ↦ rfl) fun d ↦ ?_
  exact (Guarded.read id CdrReader.readU32).bind fun _ ↦ guarded_readElements _ _ _ _

theorem guarded_readTargetAddress : Guarded readTargetAddress := by
  have hior : Guarded readIor :=
    (Guarded.read _ _).bind fun _ ↦ (guarded_readCountedList _ _).bind fun _ ↦ Guarded.pure _
  refine (Guarded.read _ _).bind fun disposition ↦ ?_
  split
  iterate 2 · exact (Guarded.read _ _).bind fun _ ↦ Guarded.pure _
  · exact (Guarded.read _ _).bind fun _ ↦ (hior.mapError _).bind fun _ ↦ Guarded.pure _
  · exact Guarded.throw _

theorem guarded_readRequest12Body (frame : ParsedMessage) : Guarded (readRequest12Body frame) := by
  have halign : Guarded alignArguments := by
    refine Guarded.get_bind (fun _ _ ↦ rfl) fun d ↦ ?_
    split
    · exact Guarded.read _ _
    · exact Guarded.pure _
  refine (Guarded.read _ _).bind fun _ ↦ (Guarded.read _ _).bind fun _ ↦ ?_
  refine Guarded.get_bind (fun _ _ ↦ rfl) fun d ↦ ?_
  refine (Guarded.read _ _).bind fun _ ↦ (Guarded.read _ _).bind fun _ ↦
    (Guarded.read _ _).bind fun _ ↦ ?_
  split
  · exact Guarded.throw _
  · refine guarded_readTargetAddress.bind fun _ ↦ (Guarded.read _ _).bind fun _ ↦ ?_
    refine ((guarded_readCountedList _ _).mapError _).bind fun _ ↦ halign.bind fun _ ↦ ?_
    exact Guarded.get_bind (fun _ _ ↦ rfl) fun _ ↦ Guarded.pure _

/-! ### The arguments -/

section Arguments

variable (catalog : IdlOperationCatalog) (operation : IdlOperationMetadata)
  (rawArguments : Bytes)

/-- In the bytes from `r` on, every sequence count that decoding a value of the type reaches, and
that its declared bound admits, is at most the number of bytes that follow it. -/
def SequencesFit (param : IdlParamMetadata) : TypeRef → CdrReader → Prop
  | .sequence element bound, r => ∀ count r', Runs CdrReader.readU32 r count r' →
      exceededBound bound count.toNat = none → count.toNat ≤ r'.remaining ∧
        AllAlong (after (decodeValue catalog operation param rawArguments element))
          (SequencesFit param element) count.toNat r'
  | _, _ => True

/-- The same for the parameters of an operation, one after the other. -/
def ParamSequencesFit : List IdlParamMetadata → CdrReader → Prop
  | [], _ => True
  | param :: rest, r => SequencesFit catalog operation rawArguments param param.ty r ∧
      ∀ r' ∈ after (decodeValue catalog operation param rawArguments param.ty) r,
        ParamSequencesFit rest r'

variable (param : IdlParamMetadata)

theorem guarded_readObjectReference : Guarded (readObjectReference operation param rawArguments) :=
  (Guarded.read _ _).bind fun _ ↦ (Guarded.read _ _).bind fun profileCount ↦
    ((Guarded.read _ _).times profileCount.toNat).bind fun _ ↦ Guarded.pure _

theorem guarded_decodePrimitive (primitive : PrimitiveType) :
    Guarded (decodePrimitive operation param rawArguments primitive) := by
  cases primitive with
  | object => exact guarded_readObjectReference operation rawArguments param
  | wChar | longDouble | any => exact Guarded.throw _
  | boolean | char | octet | short | uShort | long | uLong | longLong | uLongLong | float
  | double => exact (Guarded.read _ _).bind fun _ ↦ Guarded.pure _

theorem guarded_decodeString (bound : Option UInt64) :
    Guarded (decodeString operation param rawArguments bound) := by
  refine (Guarded.read _ _).bind fun value ↦ ?_
  split
  · exact Guarded.throw _
  · exact Guarded.pure _

section Sequence

variable {element : ArgumentM DecodedArgumentValue} (helement : Disciplined element)
  (bound : Option UInt64)

include helement

theorem disciplined_decodeElements (count : ℕ) :
    Disciplined (decodeElements operation param rawArguments element bound count) := by
  rw [decodeElements]
  split
  · exact disciplined_refuse _ _
  · exact (disciplined_note_true _).bind fun _ ↦ (helement.times _).bind fun _ ↦ disciplined_pure _

/-- An admitted count is reserved, whatever is left. -/
theorem reserves_decodeElements_iff {count : ℕ} {r : CdrReader} :
    Reserves (decodeElements operation param rawArguments element bound count) r ↔
      (exceededBound bound count = none →
        count ≤ r.remaining ∧ AllAlong (after element) (Reserves element) count r) := by
  rw [decodeElements]
  split
  · rename_i hexceeded
    exact ⟨fun _ h ↦ absurd (hexceeded.symm.trans h) (by simp), fun _ ↦ reserves_refuse _ _ r⟩
  · rename_i hadmitted
    rw [reserves_bind_iff fun _ ↦ (helement.times _).bind fun _ ↦ disciplined_pure _,
      reserves_note_true_iff]
    simp only [hadmitted, true_imp_iff, reserves_bind_pure_iff, reserves_times_iff helement]
    refine and_congr_right fun _ ↦ ⟨fun h ↦ h () _ rfl, ?_⟩
    rintro h _ d hd
    obtain rfl := (Prod.mk.inj hd).2
    exact h

/-- A sequence reserves the count it reads, if the bound admits it. -/
theorem reserves_decodeSequence_iff {r : CdrReader} :
    Reserves (decodeSequence operation param rawArguments element bound) r ↔
      ∀ count r', Runs CdrReader.readU32 r count r' → exceededBound bound count.toNat = none →
        count.toNat ≤ r'.remaining ∧
          AllAlong (after element) (Reserves element) count.toNat r' := by
  rw [decodeSequence, reserves_bind_iff fun _ ↦ disciplined_decodeElements _ _ _ helement _ _]
  simp only [reserves_decodeElements_iff _ _ _ helement]
  refine ⟨fun h count r' hrun ↦ ?_, fun h ↦ ⟨reserves_read _ _ r, fun count d hd ↦ ?_⟩⟩
  · exact h.2 count ⟨r', []⟩ (hrun.zoom.mapError _)
  · have hread : exec CdrReader.readU32 r = (.ok count, d.reader) := by
      rw [readArgument, DecodeM.read, exec_mapError, exec_zoom] at hd
      rcases hcase : exec CdrReader.readU32 r with ⟨e | v, r'⟩
      · simp [hcase, Except.mapError] at hd
      · simp only [hcase, Except.mapError, Prod.mk.injEq, Except.ok.injEq] at hd
        rw [hd.1, ← hd.2]
    exact h count d.reader hread

end Sequence

/-- Only sequences reserve without looking at what is left. -/
theorem guarded_decodeValue {ty : TypeRef} (h : ∀ element bound, ty ≠ .sequence element bound) :
    Guarded (decodeValue catalog operation param rawArguments ty) := by
  cases ty with
  | primitive primitive => exact guarded_decodePrimitive operation rawArguments param primitive
  | sequence element bound => exact absurd rfl (h element bound)
  | named name =>
    rw [decodeValue]
    split
    · exact guarded_readObjectReference operation rawArguments param
    · exact Guarded.throw _
  | string wide bound =>
    cases wide with
    | false => exact guarded_decodeString operation rawArguments param bound
    | true => exact Guarded.throw _
  | void | map | array | fixed => exact Guarded.throw _

theorem disciplined_decodeValue (ty : TypeRef) :
    Disciplined (decodeValue catalog operation param rawArguments ty) := by
  induction ty with
  | sequence element bound ih =>
    exact (disciplined_read _ _).bind fun _ ↦ disciplined_decodeElements _ _ _ ih _ _
  | _ => exact (guarded_decodeValue _ _ _ _ (by simp)).disciplined

variable {r : CdrReader}

/-- **A value reserves within the unread bytes exactly when its sequences fit.** -/
theorem reserves_decodeValue_iff (ty : TypeRef) :
    Reserves (decodeValue catalog operation param rawArguments ty) r ↔
      SequencesFit catalog operation rawArguments param ty r := by
  induction ty generalizing r with
  | sequence element bound ih =>
    have hext : Reserves (decodeValue catalog operation param rawArguments element) =
        SequencesFit catalog operation rawArguments param element :=
      funext fun r ↦ propext ih
    rw [SequencesFit, ← hext]
    exact reserves_decodeSequence_iff _ _ _ (disciplined_decodeValue _ _ _ _ element) bound
  | _ => exact iff_of_true ((guarded_decodeValue _ _ _ _ (by simp)).reserves r) trivial

theorem disciplined_decodeParams (params : List IdlParamMetadata) :
    Disciplined (decodeParams catalog operation rawArguments params) := by
  induction params with
  | nil => exact disciplined_pure _
  | cons param params ih =>
    refine disciplined_get_bind (fun _ _ ↦ rfl) fun d ↦ ?_
    refine (disciplined_decodeValue _ _ _ _ _).bind fun value ↦ ?_
    refine disciplined_get_bind (fun _ _ ↦ rfl) fun d' ↦ ?_
    exact ih.bind fun _ ↦ disciplined_pure _

theorem reserves_decodeParams_iff (params : List IdlParamMetadata) :
    Reserves (decodeParams catalog operation rawArguments params) r ↔
      ParamSequencesFit catalog operation rawArguments params r := by
  induction params generalizing r with
  | nil => exact iff_of_true (reserves_pure _ r) trivial
  | cons param params ih =>
    have htail : ∀ (value : DecodedArgumentValue) (spanStart : ℕ), Disciplined
        (get >>= fun d : Decoder ↦ decodeParams catalog operation rawArguments params >>=
          fun arguments ↦ pure (⟨param.name, param.direction, param.ty, spanStart,
            d.reader.position, value⟩ :: arguments) : ArgumentM (List DecodedArgument)) := by
      intro value spanStart
      refine disciplined_get_bind (fun _ _ ↦ rfl) fun d ↦ ?_
      exact (disciplined_decodeParams _ _ _ params).bind fun _ ↦ disciplined_pure _
    show Reserves
      (decodeValue catalog operation param rawArguments param.ty >>= fun value ↦ _) r ↔ _
    rw [reserves_bind_iff fun value ↦ htail value r.position, reserves_decodeValue_iff,
      ParamSequencesFit, ← forall_after_iff]
    refine and_congr_right fun _ ↦ forall_congr' fun value ↦ forall_congr' fun d ↦ ?_
    refine imp_congr_right fun _ ↦ ?_
    rw [← ih]
    exact reserves_bind_pure_iff

theorem guarded_finishArguments (request : ParsedRequest12) (arguments : List DecodedArgument) :
    Guarded (finishArguments request operation arguments) := by
  refine Guarded.get_bind (fun _ _ ↦ rfl) fun d ↦ ?_
  show Guarded (if d.reader.remaining ≠ 0 then _ else _)
  split
  · exact Guarded.throw _
  · exact Guarded.pure _

end Arguments

/-! ### The whole frame -/

/-- The outcome and the log of a decoder with a reader of its own. -/
theorem exec_fromReader {ε α : Type} {m : DecodeM ε α} (hm : Disciplined m) (r : CdrReader)
    (counts : List DeclaredCount) :
    exec (fromReader r m) counts = ((exec m ⟨r, []⟩).1, counts ++ log m r) := by
  rw [fromReader, exec_zoom, hm.appends]

/-- The request decoder, with its checks of the header. -/
theorem guarded_readRequest12 (message : ParsedMessage) :
    ∃ m : DecodeM GiopError ParsedRequest12, Guarded m ∧
      readRequest12 message = fromReader message.bodyReader m := by
  refine ⟨_, ?_, rfl⟩
  split
  · exact Guarded.throw _
  · split
    · exact Guarded.throw _
    · exact guarded_readRequest12Body message

/-- The argument decoder, with its lookup of the operation. -/
theorem disciplined_decodeRequestArguments (request : ParsedRequest12)
    (catalog : IdlOperationCatalog) :
    ∃ m : ArgumentM DecodedRequestArguments, Disciplined m ∧
      decodeRequestArguments request catalog = fromReader request.argumentsReader m ∧
      ∀ r, Reserves m r ↔ ∀ operation, catalog.lookupOperation request.operation = .ok operation →
        ParamSequencesFit catalog operation request.arguments operation.inParams r := by
  cases hlookup : catalog.lookupOperation request.operation with
  | error e =>
    refine ⟨throw (e.withRawArguments request.arguments), disciplined_throw _, ?_, fun r ↦ ?_⟩
    · rw [decodeRequestArguments, hlookup]
    · exact iff_of_true (reserves_throw _ r) (fun _ h ↦ absurd h (by simp))
  | ok operation =>
    refine ⟨decodeOperation request catalog operation, (disciplined_decodeParams _ _ _ _).bind
      fun arguments ↦ (guarded_finishArguments operation request arguments).disciplined, ?_,
      fun r ↦ ?_⟩
    · rw [decodeRequestArguments, hlookup]
    · have hfinish := guarded_finishArguments operation request
      rw [decodeOperation, reserves_bind_iff fun arguments ↦ (hfinish arguments).disciplined,
        reserves_decodeParams_iff, and_iff_left fun arguments d _ ↦ (hfinish arguments).reserves _]
      simp

/-- In the arguments of a request frame, every sequence count that decoding reaches, and that its
declared bound admits, is at most the number of argument bytes that follow it. -/
def FrameSequencesFit (catalog : IdlOperationCatalog) (frame : Bytes) : Prop :=
  ∀ message request counts operation, parseMessage frame = .ok message →
    exec (readRequest12 message) [] = (.ok request, counts) →
    catalog.lookupOperation request.operation = .ok operation →
      ParamSequencesFit catalog operation request.arguments operation.inParams
        request.argumentsReader

/-- What decoding a frame logs: refused counts end it, and room is reserved within the unread bytes
exactly when the sequences fit. -/
theorem decodeFrame_log (catalog : IdlOperationCatalog) (frame : Bytes) :
    (∀ count ∈ (exec (decodeFrame catalog frame) []).2, count.reserved = false →
      ∃ e, (exec (decodeFrame catalog frame) []).1 = .error e) ∧
    ((∀ count ∈ (exec (decodeFrame catalog frame) []).2, count.reserved →
      count.declared ≤ count.unread) ↔ FrameSequencesFit catalog frame) := by
  unfold decodeFrame FrameSequencesFit
  cases hparse : parseMessage frame with
  | error e => simp
  | ok message =>
    obtain ⟨m, hm, hrequest⟩ := guarded_readRequest12 message
    have hread := exec_fromReader hm.disciplined message.bodyReader []
    rw [← hrequest, nil_append] at hread
    cases hresult : (exec m ⟨message.bodyReader, []⟩).1 with
    | error e =>
      rw [hresult] at hread
      rw [exec_bind_of_error (by rw [exec_mapError, hread]; rfl)]
      refine ⟨fun _ _ _ ↦ ⟨_, rfl⟩, iff_of_true (hm.reserves _) ?_⟩
      rintro _ request counts operation ⟨⟩ hrequest'
      simp [hread] at hrequest'
    | ok request =>
      -- the header's counts come first in the log, then those of the arguments
      rw [hresult] at hread
      obtain ⟨n, hn, harguments, hreserves⟩ := disciplined_decodeRequestArguments request catalog
      simp only [exec_bind, exec_mapError, hread, Except.mapError, harguments, exec_fromReader hn]
      constructor
      · intro count hcount hreserved
        rcases mem_append.mp hcount with hcount | hcount
        · obtain ⟨e, he⟩ := hm.disciplined.refuses _ count hcount hreserved
          exact absurd (hresult.symm.trans he) (by simp)
        · obtain ⟨e, he⟩ := hn.refuses _ count hcount hreserved
          exact ⟨.decode e, by rw [he]⟩
      · simp only [mem_append, or_imp, forall_and]
        refine (and_iff_right (hm.reserves _)).trans ((hreserves _).trans ?_)
        refine ⟨?_, fun h operation ↦ h message request _ operation rfl hread⟩
        rintro h _ request' counts operation ⟨⟩ hrequest'
        obtain rfl := Except.ok.inj (Prod.mk.inj (hread.symm.trans hrequest')).1
        exact h operation

/-- **A frame cannot reserve more than itself exactly when its sequences fit.** For every frame,
catalog and servant: every element count for which `handleFrame` reserves room is at most the unread
bytes, and a larger one is refused with an error, if and only if every sequence count that decoding
the arguments reaches and the declared bound admits is at most the bytes that follow it. -/
theorem handleFrame_allocationBounded_iff {σ : Type} (invoke : Servant σ)
    (catalog : IdlOperationCatalog) (frame : Bytes) (servant : σ) :
    AllocationBounded (exec (handleFrame invoke catalog frame) ⟨servant, []⟩).1
        (exec (handleFrame invoke catalog frame) ⟨servant, []⟩).2.counts ↔
      FrameSequencesFit catalog frame := by
  obtain ⟨hrefuses, hreserves⟩ := decodeFrame_log catalog frame
  -- the servant changes neither the log nor an earlier error
  have hcounts : (exec (handleFrame invoke catalog frame) ⟨servant, []⟩).2.counts =
      (exec (decodeFrame catalog frame) []).2 := by
    rw [handleFrame, exec_bind, exec_zoom]
    rcases exec (decodeFrame catalog frame) [] with ⟨e | decoded, counts⟩
    · rfl
    · show (exec (serve invoke decoded) ⟨servant, counts⟩).2.counts = counts
      rw [serve, exec_bind, exec_mapError, exec_zoom]
      rcases exec (invoke decoded) servant with ⟨e | reply, servant'⟩ <;> rfl
  have herror : ∀ e, (exec (decodeFrame catalog frame) []).1 = .error e →
      (exec (handleFrame invoke catalog frame) ⟨servant, []⟩).1 = .error e := by
    intro e he
    rw [handleFrame, exec_bind, exec_zoom]
    rcases hcase : exec (decodeFrame catalog frame) [] with ⟨e' | decoded, counts⟩ <;>
      rw [hcase] at he
    · exact congrArg Except.error (Except.error.inj he)
    · simp at he
  rw [← hreserves, hcounts]
  constructor
  · intro h count hcount hreserved
    exact (h count hcount).1 hreserved
  · intro h count hcount
    refine ⟨h count hcount, fun hlarge ↦ ?_⟩
    have hrefused : count.reserved = false := by
      by_contra hreserved
      have := h count hcount (by simpa using hreserved)
      omega
    obtain ⟨e, he⟩ := hrefuses count hcount hrefused
    exact ⟨hrefused, e, herror e he⟩

/-- `send(in sequence<octet> data)`. -/
def sendCatalog : IdlOperationCatalog :=
  ⟨[⟨none, "Sink", ["Sink"], "send", [⟨"data", .in_, .sequence (.primitive .octet) none⟩]⟩],
    [["Sink"]]⟩

/-- A request to `send` whose only argument bytes are the count `0xffffffff`. -/
def oversizedFrame : Bytes :=
  giopFrame12 .little false 0
    [1, 0, 0, 0, 3, 0, 0, 0, 0, 0, 0, 0, 0, 0, 0, 0, 5, 0, 0, 0, 115, 101, 110, 100, 0, 0, 0, 0,
      0, 0, 0, 0, 0, 0, 0, 0, 255, 255, 255, 255]

/-- Room for `0xffffffff` values is reserved with no byte left. -/
theorem handleFrame_not_allocationBounded :
    ¬ ∀ (invoke : Servant Unit) (catalog : IdlOperationCatalog) (frame : Bytes),
      AllocationBounded (exec (handleFrame invoke catalog frame) ⟨(), []⟩).1
        (exec (handleFrame invoke catalog frame) ⟨(), []⟩).2.counts := by
  intro h
  have hbounded := h (fun _ ↦ pure ⟨none⟩) sendCatalog oversizedFrame
  have hreserved : (⟨0xffffffff, 0, true⟩ : DeclaredCount) ∈
      (exec (handleFrame (fun _ ↦ pure ⟨none⟩) sendCatalog oversizedFrame) ⟨(), []⟩).2.counts := by
    decide +kernel
  exact absurd ((hbounded _ hreserved).1 rfl) (by decide)

end Bhf.Iiop
