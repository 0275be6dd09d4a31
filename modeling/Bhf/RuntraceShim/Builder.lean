import Bhf.Lib.Json

/-!
# Event lines in a buffer of fixed size

The runtrace shim formats an event as one line of JSON in a buffer of 4096 bytes, byte by byte, and
hands the buffer to the log. **A byte that finds the buffer full is dropped**, and so is every byte
after it; nothing reads the flag that is set then.

A function on builders `Writes` a text if the buffer after it is the buffer before it and the text,
cut off at the size of the buffer. The texts of functions in a row are appended (`Writes.comp`), so
that the buffer of an event is its rendering, cut off (`buf_build`).
-/

namespace Bhf.RuntraceShim

open List

def eventBufferSize : ℕ :=
  4096

/-- The bytes of an ASCII literal. -/
def ascii (text : String) : Bytes :=
  text.toList.map Char.toUInt8

/-! ### The builder -/

/-- The buffer up to `len`, and whether a byte was dropped. -/
structure Builder where
  buf : Bytes
  truncated : Bool
  fits : buf.length ≤ eventBufferSize

/-- Bytes that may stand in a key: a key is written without escapes. -/
def isPlain (byte : UInt8) : Bool :=
  0x20 ≤ byte && byte ≤ 0x7e && byte != '"'.toUInt8 && byte != '\\'.toUInt8

/-- The keys of the shim are literals of letters. -/
abbrev Key :=
  { bytes : Bytes // bytes.all isPlain = true }

inductive FieldValue where
  | str (value : Bytes)
  | i64 (value : Int64)
  | null

structure Event where
  name : Bytes
  fields : List (Key × FieldValue)

def hexDigit (n : UInt8) : UInt8 :=
  if n < 10 then '0'.toUInt8 + n else 'a'.toUInt8 + n - 10

/-- What a byte of a string is written as. -/
def escapeByte (byte : UInt8) : Bytes :=
  if byte = '"'.toUInt8 then ascii "\\\""
  else if byte = '\\'.toUInt8 then ascii "\\\\"
  else if byte = '\n'.toUInt8 then ascii "\\n"
  else if byte = '\r'.toUInt8 then ascii "\\r"
  else if byte = '\t'.toUInt8 then ascii "\\t"
  else if 0x20 ≤ byte ∧ byte ≤ 0x7e then [byte]
  else ascii "\\u00" ++ [hexDigit ((byte >>> 4) &&& 0xf), hexDigit (byte &&& 0xf)]

/-- The digits of a number, from the last on, in the `idx` places left before those written; `none`
if there are too few. -/
def digitLoop : ℕ → UInt64 → Bytes → Option Bytes
  | 0, u, tmp => if u = 0 then some tmp else none
  | idx + 1, u, tmp =>
    if u = 0 then some tmp else digitLoop idx (u / 10) (('0'.toUInt8 + (u % 10).toUInt8) :: tmp)

namespace Builder

def empty : Builder :=
  ⟨[], false, Nat.zero_le _⟩

def writeByte (b : Builder) (byte : UInt8) : Builder :=
  if h : eventBufferSize ≤ b.buf.length then { b with truncated := true }
  else ⟨b.buf ++ [byte], b.truncated, by
    rw [List.length_append]
    exact Nat.lt_of_not_le h⟩

def writeBytes (b : Builder) (bytes : Bytes) : Builder :=
  bytes.foldl writeByte b

def writeKvOpen (b : Builder) (key : Bytes) : Builder :=
  ((b.writeByte '"'.toUInt8).writeBytes key).writeBytes (ascii "\":")

def writeStrQuoted (b : Builder) (value : Bytes) : Builder :=
  (value.foldl (fun b byte ↦ b.writeBytes (escapeByte byte)) (b.writeByte '"'.toUInt8)).writeByte
    '"'.toUInt8

/-- `-n` wraps around at the least number, whose bits are then its absolute value. -/
def writeI64 (b : Builder) (value : Int64) : Option Builder :=
  if value = 0 then some (b.writeByte '0'.toUInt8)
  else
    (digitLoop 20 (if value < 0 then -value else value).toUInt64 []).map fun digits ↦
      (if value < 0 then b.writeByte '-'.toUInt8 else b).writeBytes digits

/-- The start of an event. -/
def new (eventName : Bytes) : Builder :=
  ((empty.writeByte '{'.toUInt8).writeKvOpen (ascii "e")).writeStrQuoted eventName

def fieldStr (b : Builder) (key value : Bytes) : Builder :=
  ((b.writeByte ','.toUInt8).writeKvOpen key).writeStrQuoted value

def fieldI64 (b : Builder) (key : Bytes) (value : Int64) : Option Builder :=
  ((b.writeByte ','.toUInt8).writeKvOpen key).writeI64 value

def fieldNull (b : Builder) (key : Bytes) : Builder :=
  ((b.writeByte ','.toUInt8).writeKvOpen key).writeBytes (ascii "null")

def field (b : Builder) (keyed : Key × FieldValue) : Option Builder :=
  match keyed.2 with
  | .str value => some (b.fieldStr keyed.1.1 value)
  | .i64 value => b.fieldI64 keyed.1.1 value
  | .null => some (b.fieldNull keyed.1.1)

/-- The calls that build an event, and the two bytes that `emit` adds. -/
def build (event : Event) : Option Builder := do
  let b ← event.fields.foldlM field (new event.name)
  pure ((b.writeByte '}'.toUInt8).writeByte '\n'.toUInt8)

end Builder

/-! ### The rendering of an event -/

def quoted (value : Bytes) : Bytes :=
  '"'.toUInt8 :: (value.flatMap escapeByte ++ ['"'.toUInt8])

/-- The decimal digits of an integer, after its sign. -/
def i64Bytes (value : Int64) : Bytes :=
  (integerText value.toInt).map Char.toUInt8

def FieldValue.bytes : FieldValue → Bytes
  | .str value => quoted value
  | .i64 value => i64Bytes value
  | .null => ascii "null"

def memberBytes (key : Bytes) (value : FieldValue) : Bytes :=
  '"'.toUInt8 :: (key ++ ascii "\":") ++ value.bytes

/-- The line of an event without its end. -/
def Event.body (event : Event) : Bytes :=
  '{'.toUInt8 :: (memberBytes (ascii "e") (.str event.name) ++
    event.fields.flatMap fun keyed ↦ ','.toUInt8 :: memberBytes keyed.1.1 keyed.2) ++ ['}'.toUInt8]

/-- The whole line of an event, if the buffer has room for it. -/
def Event.rendering (event : Event) : Bytes :=
  event.body ++ ['\n'.toUInt8]

/-! ### What the functions write -/

/-- The function appends the text, as far as there is room. -/
def Appends (f : Builder → Builder) (text : Bytes) : Prop :=
  ∀ b, (f b).buf = (b.buf ++ text).take eventBufferSize

/-- The function returns, and appends the text, as far as there is room. -/
def Writes (f : Builder → Option Builder) (text : Bytes) : Prop :=
  ∀ b, ∃ b', f b = some b' ∧ b'.buf = (b.buf ++ text).take eventBufferSize

section Writes

variable {f g : Builder → Builder} {text text' : Bytes}

/-- What is cut off stays cut off. -/
theorem take_take_append {α : Type} (n : ℕ) (l l' : List α) :
    (l.take n ++ l').take n = (l ++ l').take n := by
  rw [take_append, take_append, take_take, Nat.min_self, length_take]
  congr 2
  omega

theorem Appends.comp (hf : Appends f text) (hg : Appends g text') :
    Appends (fun b ↦ g (f b)) (text ++ text') := by
  intro b
  rw [hg, hf, take_take_append, append_assoc]

theorem Appends.writes (hf : Appends f text) : Writes (fun b ↦ some (f b)) text :=
  fun b ↦ ⟨f b, rfl, hf b⟩

theorem Writes.bind {f g : Builder → Option Builder} (hf : Writes f text) (hg : Writes g text') :
    Writes (fun b ↦ (f b).bind g) (text ++ text') := by
  intro b
  obtain ⟨b₁, h₁, hbuf₁⟩ := hf b
  obtain ⟨b₂, h₂, hbuf₂⟩ := hg b₁
  refine ⟨b₂, by simp [h₁, h₂], ?_⟩
  rw [hbuf₂, hbuf₁, take_take_append, append_assoc]

theorem appends_id : Appends id [] := by
  intro b
  rw [append_nil, take_of_length_le b.fits]
  rfl

theorem appends_foldl {α : Type} {step : Builder → α → Builder} {bytes : α → Bytes}
    (h : ∀ a, Appends (step · a) (bytes a)) (l : List α) :
    Appends (fun b ↦ l.foldl step b) (l.flatMap bytes) := by
  induction l with
  | nil => exact appends_id
  | cons a l ih => exact (h a).comp ih

theorem writes_foldlM {α : Type} {step : Builder → α → Option Builder} {bytes : α → Bytes}
    (h : ∀ a, Writes (step · a) (bytes a)) (l : List α) :
    Writes (fun b ↦ l.foldlM step b) (l.flatMap bytes) := by
  induction l with
  | nil => exact appends_id.writes
  | cons a l ih => exact (h a).bind ih

end Writes

namespace Builder

theorem appends_writeByte (byte : UInt8) : Appends (writeByte · byte) [byte] := by
  intro b
  show (b.writeByte byte).buf = _
  rw [writeByte]
  split
  · next hfull =>
    rw [take_append_of_le_length hfull, take_of_length_le b.fits]
  · next hroom =>
    rw [take_of_length_le]
    rw [length_append]
    exact Nat.lt_of_not_le hroom

theorem appends_writeBytes (bytes : Bytes) : Appends (writeBytes · bytes) bytes := by
  have h := appends_foldl appends_writeByte bytes
  rwa [flatMap_singleton'] at h

theorem appends_writeKvOpen (key : Bytes) :
    Appends (writeKvOpen · key) ('"'.toUInt8 :: (key ++ ascii "\":")) :=
  ((appends_writeByte _).comp (appends_writeBytes key)).comp (appends_writeBytes _)

theorem appends_writeStrQuoted (value : Bytes) : Appends (writeStrQuoted · value) (quoted value) :=
  ((appends_writeByte _).comp (appends_foldl (fun byte ↦ appends_writeBytes (escapeByte byte))
    value)).comp (appends_writeByte _)

/-! ### Integers -/

theorem digitByte_eq : ∀ d < 10, '0'.toUInt8 + UInt8.ofNat d = (Nat.digitChar d).toUInt8 := by
  decide

/-- The places are enough for a number with at most as many digits. -/
theorem digitLoop_eq_some {idx : ℕ} {u : UInt64} (hu : u.toNat < 10 ^ idx) (tmp : Bytes) :
    digitLoop idx u tmp =
      some (((Nat.digits 10 u.toNat).reverse.map Nat.digitChar).map Char.toUInt8 ++ tmp) := by
  induction idx generalizing u tmp with
  | zero =>
    obtain rfl : u = 0 := UInt64.toNat_inj.mp (Nat.lt_one_iff.mp hu)
    rfl
  | succ idx ih =>
    rw [digitLoop]
    split
    · next hzero =>
      subst hzero
      rfl
    · next hne =>
      have hpos : 0 < u.toNat := pos_of_ne_zero fun h ↦ hne (UInt64.toNat_inj.mp h)
      have hdiv : (u / 10).toNat = u.toNat / 10 := UInt64.toNat_div u 10
      have hmod : (u % 10).toUInt8 = UInt8.ofNat (u.toNat % 10) := by
        rfl
      have hlt : (u / 10).toNat < 10 ^ idx := by
        omega
      rw [ih hlt, hdiv, hmod, digitByte_eq _ (Nat.mod_lt _ (by decide)),
        Nat.digits_def' (by decide) hpos, reverse_cons, map_append, map_append, append_assoc]
      rfl

/-- The bits of the absolute value, also for the least number. -/
theorem toNat_toUInt64_abs (value : Int64) :
    (if value < 0 then -value else value).toUInt64.toNat = value.toInt.natAbs := by
  have hint : value.toInt = value.toBitVec.toInt := rfl
  have hlt : value < 0 ↔ value.toInt < 0 := Int64.lt_iff_toInt_lt
  rw [BitVec.toInt_eq_toNat_cond] at hint
  split
  · next hneg =>
    have hnat : (-value).toUInt64.toNat = (2 ^ 64 - value.toBitVec.toNat) % 2 ^ 64 := by
      show (-value).toBitVec.toNat = _
      rw [Int64.toBitVec_neg, BitVec.toNat_neg]
    rw [hlt] at hneg
    split at hint <;> omega
  · next hneg =>
    show value.toBitVec.toNat = _
    rw [hlt] at hneg
    split at hint <;> omega

theorem digitLoop_abs {value : Int64} (hne : value ≠ 0) :
    digitLoop 20 (if value < 0 then -value else value).toUInt64 [] =
      some ((paddedDecimal 1 value.toInt.natAbs).map Char.toUInt8) := by
  have hpos : 0 < value.toInt.natAbs :=
    Int.natAbs_pos.mpr fun h ↦ hne (Int64.toInt_inj.mp h)
  have hlt := UInt64.toNat_lt (if value < 0 then -value else value).toUInt64
  rw [digitLoop_eq_some (by omega), toNat_toUInt64_abs, Json.paddedDecimal_one_of_pos hpos,
    append_nil]

theorem writes_writeI64 (value : Int64) : Writes (writeI64 · value) (i64Bytes value) := by
  by_cases hzero : value = 0
  · subst hzero
    exact (appends_writeByte _).writes
  have hlt : value < 0 ↔ value.toInt < 0 := Int64.lt_iff_toInt_lt
  by_cases hneg : value < 0
  · have hbytes : i64Bytes value =
        ['-'.toUInt8] ++ (paddedDecimal 1 value.toInt.natAbs).map Char.toUInt8 := by
      rw [i64Bytes, integerText, if_pos (hlt.mp hneg)]
      rfl
    rw [hbytes]
    intro b
    refine ⟨_, ?_, ((appends_writeByte '-'.toUInt8).comp (appends_writeBytes _)) b⟩
    show b.writeI64 value = _
    rw [writeI64, if_neg hzero, digitLoop_abs hzero, if_pos hneg]
    rfl
  · have hbytes : i64Bytes value = (paddedDecimal 1 value.toInt.natAbs).map Char.toUInt8 := by
      rw [i64Bytes, integerText, if_neg fun h ↦ hneg (hlt.mpr h)]
    rw [hbytes]
    intro b
    refine ⟨_, ?_, appends_writeBytes _ b⟩
    show b.writeI64 value = _
    rw [writeI64, if_neg hzero, digitLoop_abs hzero, if_neg hneg]
    rfl

/-! ### Events -/

theorem writes_field (keyed : Key × FieldValue) :
    Writes (field · keyed) (','.toUInt8 :: memberBytes keyed.1.1 keyed.2) := by
  obtain ⟨key, value⟩ := keyed
  have hopen := (appends_writeByte ','.toUInt8).comp (appends_writeKvOpen key.1)
  cases value with
  | str value => exact (hopen.comp (appends_writeStrQuoted value)).writes
  | i64 value => exact hopen.writes.bind (writes_writeI64 value)
  | null => exact (hopen.comp (appends_writeBytes _)).writes

theorem buf_new (eventName : Bytes) :
    (new eventName).buf =
      ('{'.toUInt8 :: memberBytes (ascii "e") (.str eventName)).take eventBufferSize :=
  (((appends_writeByte '{'.toUInt8).comp (appends_writeKvOpen _)).comp
    (appends_writeStrQuoted eventName)) empty

/-- **The buffer of an event** is its rendering, cut off at the size of the buffer; building it
never fails. -/
theorem buf_build (event : Event) :
    ∃ b, build event = some b ∧ b.buf = event.rendering.take eventBufferSize := by
  obtain ⟨b, hb, hbuf⟩ := writes_foldlM writes_field event.fields _
  refine ⟨(b.writeByte '}'.toUInt8).writeByte '\n'.toUInt8, ?_, ?_⟩
  · show (event.fields.foldlM field (new event.name)).bind _ = _
    exact congrArg (Option.bind · _) hb
  · rw [((appends_writeByte '}'.toUInt8).comp (appends_writeByte '\n'.toUInt8)) b, hbuf,
      take_take_append, buf_new, append_assoc, take_take_append]
    simp only [Event.rendering, Event.body, cons_append, append_assoc]

end Builder

end Bhf.RuntraceShim
