import Bhf.Lib.Words
import Bhf.Lib.StateExcept
import Bhf.Lib.Spans
import Mathlib.Data.UInt

/-!
# Binary frames with computed fields

The framing module `binframe.rs` of the built-in fuzz engine. A `Message` is an ordered list of
typed fields; `Message.encode` lays them out, remembers the byte range of each one, turns the
references of derived fields into byte ranges and then runs the **fix-up pass** that the engine also
runs after a mutation. `EncodedMessage.verify` is the integrity gate of the target.

The span map of the source is only ever asked for a name, so a list of pairs stands for it. Values
of derived fields are `u64` as in the source; a total length is summed in `u64`. Taking the
derivations out of the message while they are applied, and putting them back afterwards whatever
the outcome, has no effect of its own and is not modelled.
-/

namespace Bhf.FuzzEngine.BinFrame

/-- Byte order for a multi-byte computed field. -/
abbrev Endian := ByteOrder

/-- Width of an integer-valued computed field. -/
inductive IntWidth
  | u8
  | u16
  | u32
  deriving DecidableEq

def IntWidth.size : IntWidth → ℕ
  | .u8 => 1
  | .u16 => 2
  | .u32 => 4

/-- The inclusive maximum value this width can hold. -/
def IntWidth.maxValue : IntWidth → UInt64
  | .u8 => 255
  | .u16 => 65535
  | .u32 => 4294967295

/-! ### Checksums -/

/-- One bit of the reflected CRC-32. -/
def crc32Bit (crc : UInt32) : UInt32 :=
  let mask := -(crc &&& 1)
  (crc >>> 1) ^^^ (0xEDB88320 &&& mask)

/-- CRC-32/ISO-HDLC: reflected, polynomial `0xEDB88320`, initial value and final xor all ones. -/
def crc32 (bytes : Bytes) : UInt32 :=
  ~~~bytes.foldl (fun crc byte ↦ Nat.repeat crc32Bit 8 (crc ^^^ byte.toUInt32)) 0xFFFFFFFF

/-- One bit of the unreflected CRC-16. -/
def crc16CcittBit (crc : UInt16) : UInt16 :=
  if crc &&& 0x8000 ≠ 0 then (crc <<< 1) ^^^ 0x1021 else crc <<< 1

/-- CRC-16/CCITT-FALSE: polynomial `0x1021`, initial value all ones, no final xor. -/
def crc16Ccitt (bytes : Bytes) : UInt16 :=
  bytes.foldl
    (fun crc byte ↦ Nat.repeat crc16CcittBit 8 (crc ^^^ (byte.toUInt16 <<< (8 : UInt16)))) 0xFFFF

/-- A checksum algorithm over a covered byte range. -/
inductive ChecksumKind
  | crc32
  | crc16Ccitt
  | sum8
  | xor8
  deriving DecidableEq

/-- Layout width of the checksum output field. -/
def ChecksumKind.outputWidth : ChecksumKind → IntWidth
  | .crc32 => .u32
  | .crc16Ccitt => .u16
  | .sum8 | .xor8 => .u8

def ChecksumKind.compute (kind : ChecksumKind) (bytes : Bytes) : UInt64 :=
  match kind with
  | .crc32 => (BinFrame.crc32 bytes).toUInt64
  | .crc16Ccitt => (BinFrame.crc16Ccitt bytes).toUInt64
  | .sum8 => (bytes.foldl (fun acc b ↦ acc + b) 0).toUInt64
  | .xor8 => (bytes.foldl (fun acc b ↦ acc ^^^ b) 0).toUInt64

-- The check values of the two catalogued algorithms, over the digits 1 to 9.
example : crc32 [49, 50, 51, 52, 53, 54, 55, 56, 57] = 0xCBF43926 := by decide +kernel

example : crc16Ccitt [49, 50, 51, 52, 53, 54, 55, 56, 57] = 0x29B1 := by decide +kernel

/-! ### Descriptors -/

/-- One field of a message. `bytes` and `tlv` carry data; the others are computed. -/
inductive Field
  | bytes (name : String) (value : Bytes)
  | tlv (name : String) (tag : UInt32) (tagWidth lenWidth : IntWidth) (endian : Endian)
      (value : Bytes)
  | length (name : String) (width : IntWidth) (endian : Endian) (covers : List String)
  | checksum (name : String) (kind : ChecksumKind) (endian : Endian) (covers : List String)
  | offset (name : String) (width : IntWidth) (endian : Endian) (target : String)
  deriving DecidableEq

def Field.name : Field → String
  | .bytes name _ | .tlv name _ _ _ _ _ | .length name _ _ _ | .checksum name _ _ _
  | .offset name _ _ _ => name

/-- A typed binary message descriptor. -/
structure Message where
  fields : List Field
  maxLen : ℕ := 64 * 1024

inductive BinFrameError
  | emptyMessage
  | duplicateField (name : String)
  | unknownField (name : String)
  | emptyCoverage (field : String)
  | unknownReference (field referenced : String)
  | valueTooWide (field : String) (value : UInt64) (width : IntWidth)
  | fieldWidthMismatch (field : String) (expected actual : ℕ)
  | messageTooLong (len maxLen : ℕ)

/-! ### Integers in the buffer -/

def encodeUint (width : IntWidth) (endian : Endian) (value : UInt64) : Bytes :=
  endian.bytes width.size value.toNat

def writeUint (range : Span) (width : IntWidth) (endian : Endian) (value : UInt64) :
    StateExcept BinFrameError Bytes Unit := do
  if value > width.maxValue then
    throw (.valueTooWide ("<offset " ++ toString range.start ++ ">") value width)
  else
    modify fun buf ↦ range.overwrite buf (encodeUint width endian value)

def writeUintVec (buf : Bytes) (width : IntWidth) (endian : Endian) (value : UInt64) :
    Except Unit Bytes :=
  if value > width.maxValue then .error () else .ok (buf ++ encodeUint width endian value)

def readUint (buf : Bytes) (range : Span) (width : IntWidth) (endian : Endian) : Option UInt64 :=
  if range.FitsIn buf.length then
    if (range.slice buf).length ≠ width.size then none
    else some (UInt64.ofNat (endian.value (range.slice buf)))
  else none

/-! ### Derivations -/

/-- A derivation resolved to concrete byte ranges. -/
inductive PendingDerivation
  | length (out : Span) (width : IntWidth) (endian : Endian) (covers : List Span)
  | checksum (out : Span) (kind : ChecksumKind) (endian : Endian) (covers : List Span)
  | offset (out : Span) (width : IntWidth) (endian : Endian) (targetStart : ℕ)
  | tlvLength (out : Span) (width : IntWidth) (endian : Endian) (value : Span)

namespace PendingDerivation

/-- The output range, width, byte order and computed value. -/
def evaluate (d : PendingDerivation) (bytes : Bytes) : Span × IntWidth × Endian × UInt64 :=
  match d with
  | .length out width endian covers =>
    (out, width, endian, (covers.map fun range ↦ UInt64.ofNat range.len).sum)
  | .checksum out kind endian covers =>
    (out, kind.outputWidth, endian, kind.compute (covers.flatMap fun range ↦ range.slice bytes))
  | .offset out width endian targetStart => (out, width, endian, UInt64.ofNat targetStart)
  | .tlvLength out width endian value => (out, width, endian, UInt64.ofNat value.len)

def endian : PendingDerivation → Endian
  | .length _ _ endian _ | .checksum _ _ endian _ | .offset _ _ endian _
  | .tlvLength _ _ endian _ => endian

def isChecksum : PendingDerivation → Bool
  | .checksum .. => true
  | _ => false

end PendingDerivation

/-! ### Encoded messages -/

/-- A laid-out message plus the recipe to recompute its derived fields. -/
structure EncodedMessage where
  bytes : Bytes
  spans : List (String × Span)
  derivations : List PendingDerivation

/-- Evaluate one derivation on the current bytes and write the value. -/
def applyDerivation (d : PendingDerivation) : StateExcept BinFrameError Bytes Unit := do
  let bytes ← get
  let (out, width, endian, value) := d.evaluate bytes
  writeUint out width endian value

/-- Two passes: everything except checksums, then the checksums. -/
def applyDerivations (derivations : List PendingDerivation) :
    StateExcept BinFrameError Bytes Unit := do
  (derivations.filter fun d ↦ !d.isChecksum).forM applyDerivation
  (derivations.filter fun d ↦ d.isChecksum).forM applyDerivation

namespace EncodedMessage

/-- The byte range a named field occupies in the current layout. -/
def span (e : EncodedMessage) (name : String) : Option Span :=
  e.spans.lookup name

/-- Overwrite the bytes of a named field; the replacement has exactly the field's width. -/
def setFieldBytes (name : String) (value : Bytes) :
    StateExcept BinFrameError EncodedMessage Unit := do
  let e ← get
  match e.span name with
  | none => throw (.unknownField name)
  | some span =>
    if value.length ≠ span.len then
      throw (.fieldWidthMismatch name span.len value.length)
    else
      set { e with bytes := span.overwrite e.bytes value }

/-- Recompute every derived field on the current bytes. -/
def fixupInPlace : StateExcept BinFrameError EncodedMessage Unit := do
  let e ← get
  (applyDerivations e.derivations).zoom EncodedMessage.bytes fun bytes e ↦ { e with bytes := bytes }

/-- Every derived field in the current bytes already holds its computed value. -/
def verify (e : EncodedMessage) : Bool :=
  e.derivations.all fun d ↦
    let (out, width, _, value) := d.evaluate e.bytes
    match readUint e.bytes out width d.endian with
    | some actual => actual == value
    | none => false

/-- Check a foreign buffer against this message's layout. -/
def verifyBytes (e : EncodedMessage) (buf : Bytes) : Bool :=
  if buf.length ≠ e.bytes.length then false
  else
    e.derivations.all fun d ↦
      let (out, width, endian, value) := d.evaluate buf
      match readUint buf out width endian with
      | some actual => actual == value
      | none => false

end EncodedMessage

/-! ### Encoding -/

/-- The growing result of the layout loop. -/
structure Layout where
  bytes : Bytes
  spans : List (String × Span)
  pending : List PendingDerivation

/-- Append the bytes of one field, with zeros where a value is still to be computed. -/
def Layout.write (l : Layout) : Field → Except BinFrameError (Bytes × List PendingDerivation)
  | .bytes _ value => pure (l.bytes ++ value, l.pending)
  | .tlv name tag tagWidth lenWidth endian value => do
    let bytes ← (writeUintVec l.bytes tagWidth endian tag.toUInt64).mapError fun _ ↦
      .valueTooWide (name ++ ".tag") tag.toUInt64 tagWidth
    let lenStart := bytes.length
    let bytes := bytes ++ List.replicate lenWidth.size 0
    let lenOut : Span := ⟨lenStart, bytes.length⟩
    let valueStart := bytes.length
    let bytes := bytes ++ value
    let valueRange : Span := ⟨valueStart, bytes.length⟩
    pure (bytes, l.pending ++ [.tlvLength lenOut lenWidth endian valueRange])
  | .length _ width _ _ => pure (l.bytes ++ List.replicate width.size 0, l.pending)
  | .checksum _ kind _ _ => pure (l.bytes ++ List.replicate kind.outputWidth.size 0, l.pending)
  | .offset _ width _ _ => pure (l.bytes ++ List.replicate width.size 0, l.pending)

/-- One round of the layout loop: write the field and record its span. -/
def Layout.place (l : Layout) (field : Field) : Except BinFrameError Layout :=
  if (l.spans.lookup field.name).isSome then .error (.duplicateField field.name)
  else do
    let (bytes, pending) ← l.write field
    pure ⟨bytes, l.spans ++ [(field.name, ⟨l.bytes.length, bytes.length⟩)], pending⟩

def resolveCovers (field : String) (covers : List String) (spans : List (String × Span)) :
    Except BinFrameError (List Span) :=
  if covers.isEmpty then .error (.emptyCoverage field)
  else covers.mapM fun name ↦
    match spans.lookup name with
    | some range => .ok range
    | none => .error (.unknownReference field name)

/-- `spans[name]`: the layout loop has recorded every field by the time this is asked. -/
def spanOf (spans : List (String × Span)) (name : String) : Span :=
  (spans.lookup name).getD ⟨0, 0⟩

/-- Turn the references of one derived field into byte ranges. -/
def Field.resolve (spans : List (String × Span)) :
    Field → Except BinFrameError (Option PendingDerivation)
  | .length name width endian covers => do
    let covered ← resolveCovers name covers spans
    pure (some (.length (spanOf spans name) width endian covered))
  | .checksum name kind endian covers => do
    let covered ← resolveCovers name covers spans
    pure (some (.checksum (spanOf spans name) kind endian covered))
  | .offset name width endian target =>
    match spans.lookup target with
    | some span => .ok (some (.offset (spanOf spans name) width endian span.start))
    | none => .error (.unknownReference name target)
  | .bytes .. | .tlv .. => .ok none

/-- The derivations that the second loop of `encode` pushes, in declaration order. -/
def resolveFields (spans : List (String × Span)) :
    List Field → Except BinFrameError (List PendingDerivation)
  | [] => .ok []
  | field :: fields => do
    let d ← field.resolve spans
    let ds ← resolveFields spans fields
    pure (d.toList ++ ds)

/-- Lay the message out, resolve the references and compute the derived fields once. -/
def Message.encode (m : Message) : Except BinFrameError EncodedMessage :=
  if m.fields.isEmpty then .error .emptyMessage
  else do
    let layout ← m.fields.foldlM Layout.place ⟨[], [], []⟩
    if layout.bytes.length > m.maxLen then
      .error (.messageTooLong layout.bytes.length m.maxLen)
    else do
      let resolved ← resolveFields layout.spans m.fields
      let (result, encoded) := EncodedMessage.fixupInPlace.exec
        ⟨layout.bytes, layout.spans, layout.pending ++ resolved⟩
      result
      pure encoded

/-- Encode a set of descriptors into seed frames. -/
def frameSeedCorpus (messages : List Message) : Except BinFrameError (List Bytes) :=
  messages.mapM fun m ↦ do
    let e ← m.encode
    pure e.bytes

end Bhf.FuzzEngine.BinFrame
