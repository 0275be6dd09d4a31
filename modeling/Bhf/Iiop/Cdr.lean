import Bhf.Lib.Align
import Bhf.Lib.StateExcept
import Bhf.Lib.Text
import Bhf.Lib.Words

/-!
# The CDR reader and the CDR writer

`CdrReader` consumes a byte string and `CdrWriter` produces one. Both place a primitive at the next
multiple of its size, counted from an absolute position `alignment_base` before the first byte, and
both compute that position through `alignOffset`: the reader skips to it, the writer pads to it with
zeros (`alignPadding`).

A reader operation is a `StateExcept`, so the offset it reached survives an error. Byte strings are
lists; offsets are natural numbers and the places where the code guards against `usize` overflow
keep their guards. Floating-point values are carried as their bit patterns, which is all that
`to_bits` and `from_bits` look at.

`alignOffset_eq` is the one fact about alignment that later modules use: at a power of two the
result is the rounded-up absolute position when that does not overflow, and nothing when it does.
-/

namespace Bhf.Iiop

/-- The byte order of a CDR stream. -/
abbrev Endianness := ByteOrder

/-- Why a read was refused. -/
inductive CdrError
  | unexpectedEof (offset needed remaining : ℕ)
  | invalidBoolean (offset : ℕ) (value : UInt8)
  | invalidStringTerminator (offset : ℕ)
  | invalidUtf8 (offset : ℕ)
  | sequenceLengthExceedsRemaining (offset : ℕ) (declared : UInt32) (remaining elementMinSize : ℕ)

/-- An IEEE single, as its bits. -/
structure F32 where
  bits : UInt32

/-- An IEEE double, as its bits. -/
structure F64 where
  bits : UInt64

/-! ### Alignment -/

/-- The first position at or after `offset` whose absolute position is a multiple of `alignment`,
or nothing if an intermediate sum overflows. -/
def alignOffset (offset alignment alignmentBase : ℕ) : Option ℕ := do
  let absolute ← checkedAdd alignmentBase offset
  let mask := alignment - 1
  let padded ← checkedAdd absolute mask
  let alignedAbsolute := padded &&& usizeNot mask
  checkedSub alignedAbsolute alignmentBase

/-- The pad bytes a writer inserts before an item of the given alignment; none if the aligned
position overflows. -/
def alignPadding (offset alignment alignmentBase : ℕ) : ℕ :=
  match alignOffset offset alignment alignmentBase with
  | some aligned => aligned - offset
  | none => 0

/-- Alignment at a power of two, in closed form. -/
theorem alignOffset_eq {offset a base : ℕ} (ha : UsizePowTwo a) :
    alignOffset offset a base =
      if base + offset + (a - 1) < usizeSize then
        some (roundUp a (base + offset) - base)
      else none := by
  by_cases hfit : base + offset + (a - 1) < usizeSize
  · have hbase : base ≤ roundUp a (base + offset) :=
      le_trans (Nat.le_add_right base offset) (le_roundUp ha.pos _)
    rw [if_pos hfit, alignOffset, checkedAdd_of_lt (by omega)]
    show (checkedAdd (base + offset) (a - 1)).bind _ = _
    rw [checkedAdd_of_lt hfit]
    show checkedSub (_ &&& _) base = _
    rw [land_usizeNot_eq hfit ha]
    exact checkedSub_of_le hbase
  · rw [if_neg hfit, alignOffset]
    by_cases habs : base + offset < usizeSize
    · rw [checkedAdd_of_lt habs]
      show (checkedAdd (base + offset) (a - 1)).bind _ = _
      rw [checkedAdd_of_not_lt hfit]
      rfl
    · rw [checkedAdd_of_not_lt habs]
      rfl

/-! ### The reader -/

/-- A CDR input stream. `alignmentBase` is the absolute position of its first byte. -/
structure CdrReader where
  input : Bytes
  offset : ℕ
  alignmentBase : ℕ
  endian : Endianness

/-- A read: it moves the reader and may be refused. -/
abbrev CdrM := StateExcept CdrError CdrReader

namespace CdrReader

def new (input : Bytes) (endian : Endianness) : CdrReader :=
  ⟨input, 0, 0, endian⟩

def withAlignmentBase (input : Bytes) (endian : Endianness) (alignmentBase : ℕ) : CdrReader :=
  ⟨input, 0, alignmentBase, endian⟩

def position (r : CdrReader) : ℕ :=
  r.offset

/-- The unread bytes. -/
def remaining (r : CdrReader) : ℕ :=
  r.input.length - r.offset

/-- Skip to the next aligned position. -/
def alignTo (alignment : ℕ) : CdrM Unit := do
  let r ← get
  match alignOffset r.offset alignment r.alignmentBase with
  | none => throw (.unexpectedEof r.offset alignment r.remaining)
  | some aligned =>
    if aligned > r.input.length then
      throw (.unexpectedEof r.offset (aligned - r.offset) r.remaining)
    else
      set { r with offset := aligned }

/-- Take `len` bytes at the next aligned position. -/
def takeAligned (alignment len : ℕ) : CdrM Bytes := do
  let r ← get
  match (alignOffset r.offset alignment r.alignmentBase).bind fun aligned ↦
      (checkedAdd aligned len).map fun stop ↦ (aligned, stop) with
  | none => throw (.unexpectedEof r.offset len r.remaining)
  | some (aligned, stop) =>
    if stop > r.input.length then
      throw (.unexpectedEof r.offset len r.remaining)
    else do
      set { r with offset := aligned + len }
      return r.input.extract aligned (aligned + len)

/-- Take `len` bytes where the reader stands. -/
def takeUnaligned (len : ℕ) : CdrM Bytes := do
  let r ← get
  match checkedAdd r.offset len with
  | none => throw (.unexpectedEof r.offset len r.remaining)
  | some stop =>
    if stop > r.input.length then
      throw (.unexpectedEof r.offset len r.remaining)
    else do
      set { r with offset := stop }
      return r.input.extract r.offset stop

/-- An aligned read inside the input. -/
theorem exec_takeAligned {r : CdrReader} {alignment len aligned : ℕ}
    (halign : alignOffset r.offset alignment r.alignmentBase = some aligned)
    (hlt : aligned + len < usizeSize) (hle : aligned + len ≤ r.input.length) :
    StateExcept.exec (takeAligned alignment len) r =
      (.ok (r.input.extract aligned (aligned + len)), { r with offset := aligned + len }) := by
  rw [takeAligned, StateExcept.exec_get_bind]
  simp only [halign, Option.bind_some, checkedAdd_of_lt hlt, Option.map_some]
  rw [if_neg (not_lt.mpr hle), StateExcept.exec_set_bind, StateExcept.exec_pure]

def readOctet : CdrM UInt8 := do
  let bytes ← takeAligned 1 1
  return bytes.headD 0

def readBool : CdrM Bool := do
  let offset := (← get).offset
  match ← readOctet with
  | 0 => return false
  | 1 => return true
  | value => throw (.invalidBoolean offset value)

def readU16 : CdrM UInt16 := do
  let endian := (← get).endian
  let bytes ← takeAligned 2 2
  return UInt16.ofNat (endian.value bytes)

def readI16 : CdrM Int16 := do
  return (← readU16).toInt16

def readU32 : CdrM UInt32 := do
  let endian := (← get).endian
  let bytes ← takeAligned 4 4
  return UInt32.ofNat (endian.value bytes)

def readI32 : CdrM Int32 := do
  return (← readU32).toInt32

def readU64 : CdrM UInt64 := do
  let endian := (← get).endian
  let bytes ← takeAligned 8 8
  return UInt64.ofNat (endian.value bytes)

def readI64 : CdrM Int64 := do
  return (← readU64).toInt64

def readF32 : CdrM F32 := do
  return ⟨← readU32⟩

def readF64 : CdrM F64 := do
  return ⟨← readU64⟩

/-- A length that counts the terminator, the bytes, and a NUL. -/
def readString : CdrM String := do
  let start := (← get).offset
  let len := (← readU32).toNat
  if len = 0 then
    throw (.invalidStringTerminator (start + 4))
  else do
    let bytes ← takeUnaligned len
    let terminatorOffset := (← get).offset - 1
    if bytes.getD (len - 1) 0 ≠ 0 then
      throw (.invalidStringTerminator terminatorOffset)
    else
      match String.fromUTF8? (bytes.take (len - 1)).toByteArray with
      | some value => return value
      | none => throw (.invalidUtf8 (start + 4))

def readOctetSequence : CdrM Bytes := do
  let len := (← readU32).toNat
  takeUnaligned len

end CdrReader

/-! ### The writer -/

/-- Why an encoding was refused: the size that did not fit its field. -/
inductive EncodeError
  | stringTooLong (len : ℕ)
  | sequenceTooLong (len : ℕ)
  | tooManyServiceContexts (count : ℕ)
  | bodyTooLarge (len : ℕ)
  deriving DecidableEq

/-- A CDR output stream. -/
structure CdrWriter where
  out : Bytes
  alignmentBase : ℕ
  endian : Endianness
  deriving DecidableEq

namespace CdrWriter

def withAlignmentBase (endian : Endianness) (alignmentBase : ℕ) : CdrWriter :=
  ⟨[], alignmentBase, endian⟩

def new (endian : Endianness) : CdrWriter :=
  withAlignmentBase endian 0

variable (w : CdrWriter)

def position : ℕ :=
  w.out.length

/-- Append raw bytes. -/
def extend (bytes : Bytes) : CdrWriter :=
  { w with out := w.out ++ bytes }

/-- Pad with zeros to the next aligned position. -/
def alignTo (alignment : ℕ) : CdrWriter :=
  w.extend (List.replicate (alignPadding w.out.length alignment w.alignmentBase) 0)

def writeOctet (value : UInt8) : CdrWriter :=
  w.extend [value]

def writeBool (value : Bool) : CdrWriter :=
  w.extend [if value then 1 else 0]

def writeU16 (value : UInt16) : CdrWriter :=
  (w.alignTo 2).extend (w.endian.bytes 2 value.toNat)

def writeI16 (value : Int16) : CdrWriter :=
  w.writeU16 value.toUInt16

def writeU32 (value : UInt32) : CdrWriter :=
  (w.alignTo 4).extend (w.endian.bytes 4 value.toNat)

def writeI32 (value : Int32) : CdrWriter :=
  w.writeU32 value.toUInt32

def writeU64 (value : UInt64) : CdrWriter :=
  (w.alignTo 8).extend (w.endian.bytes 8 value.toNat)

def writeI64 (value : Int64) : CdrWriter :=
  w.writeU64 value.toUInt64

def writeF32 (value : F32) : CdrWriter :=
  w.writeU32 value.bits

def writeF64 (value : F64) : CdrWriter :=
  w.writeU64 value.bits

def writeString (value : String) : Except EncodeError CdrWriter :=
  match u32TryFrom ((utf8Bytes value).length + 1) with
  | some len => .ok (((w.writeU32 len).extend (utf8Bytes value)).extend [0])
  | none => .error (.stringTooLong (utf8Bytes value).length)

def writeOctetSequence (bytes : Bytes) : Except EncodeError CdrWriter :=
  match u32TryFrom bytes.length with
  | some len => .ok ((w.writeU32 len).extend bytes)
  | none => .error (.sequenceTooLong bytes.length)

end CdrWriter

end Bhf.Iiop
