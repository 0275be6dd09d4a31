import Bhf.Iiop.Cdr

/-!
# GIOP frames and requests

A GIOP message is a twelve-byte header and a body of the declared length. `parseMessage` splits one
off the front of a byte string; `readRequest12` decodes the body of a 1.2 `Request` up to its
arguments, which are handed on undecoded together with their byte order and alignment base.

A request carries lists with declared element counts, and the code reserves room for a whole list
before it reads the first element. The decoder state therefore carries, besides the reader, **a log
of the element counts it met**: what was declared, how many bytes were unread at that moment, and
whether room was reserved or the count refused. The log is an observation; nothing reads it.

The list readers of the code are the same function at different element readers; here they are
`readCountedList` at each of them.
-/

namespace Bhf.Iiop

open StateExcept List

/-! ### Headers and frames -/

def headerLen : ℕ := 12

structure Version where
  major : UInt8
  minor : UInt8
  deriving DecidableEq

def version12 : Version := ⟨1, 2⟩

inductive MessageType
  | request
  | reply
  | cancelRequest
  | locateRequest
  | locateReply
  | closeConnection
  | messageError
  | fragment
  | unknown (value : UInt8)
  deriving DecidableEq

def MessageType.ofByte (value : UInt8) : MessageType :=
  match value with
  | 0 => .request
  | 1 => .reply
  | 2 => .cancelRequest
  | 3 => .locateRequest
  | 4 => .locateReply
  | 5 => .closeConnection
  | 6 => .messageError
  | 7 => .fragment
  | other => .unknown other

structure MessageHeader where
  version : Version
  endian : Endianness
  fragmented : Bool
  messageType : MessageType
  bodyLen : UInt32

structure ParsedMessage where
  header : MessageHeader
  body : Bytes
  remaining : Bytes

/-- A reader over the body; the header counts for alignment. -/
def ParsedMessage.bodyReader (message : ParsedMessage) : CdrReader :=
  CdrReader.withAlignmentBase message.body message.header.endian headerLen

/-- Why a frame or a request was refused. -/
inductive GiopError
  | truncatedHeader (len : ℕ)
  | truncatedBody (declared : UInt32) (available : ℕ)
  | unsupportedVersion (version : Version)
  | invalidFlags (version : Version) (flags : UInt8)
  | unexpectedMessageType (expected actual : MessageType)
  | unsupportedMessageType (actual : MessageType)
  | invalidRequestReserved (offset : ℕ) (reserved : Bytes)
  | unsupportedTargetAddress (disposition : Int16)
  | badMagic (magic : Bytes)
  | cdr (error : CdrError)

def giopMagic : Bytes := [0x47, 0x49, 0x4f, 0x50]

/-- The byte order and the fragment bit of a flags octet, under a version. -/
def parseFlags (version : Version) (flags : UInt8) : Except GiopError (Endianness × Bool) :=
  if version = ⟨1, 0⟩ then
    match flags with
    | 0 => .ok (.big, false)
    | 1 => .ok (.little, false)
    | _ => .error (.invalidFlags version flags)
  else if version = ⟨1, 1⟩ ∨ version = ⟨1, 2⟩ then
    if flags &&& ~~~0x03 ≠ 0 then .error (.invalidFlags version flags)
    else .ok (if flags &&& 0x01 = 0 then .big else .little, flags &&& 0x02 ≠ 0)
  else .error (.unsupportedVersion version)

def parseHeader (input : Bytes) : Except GiopError MessageHeader :=
  match input with
  | m₀ :: m₁ :: m₂ :: m₃ :: major :: minor :: flags :: type :: l₀ :: l₁ :: l₂ :: l₃ :: _ =>
    if [m₀, m₁, m₂, m₃] ≠ giopMagic then .error (.badMagic [m₀, m₁, m₂, m₃])
    else
      match parseFlags ⟨major, minor⟩ flags with
      | .error error => .error error
      | .ok (endian, fragmented) =>
        .ok ⟨⟨major, minor⟩, endian, fragmented, MessageType.ofByte type,
          UInt32.ofNat (endian.value [l₀, l₁, l₂, l₃])⟩
  | short => .error (.truncatedHeader short.length)

def parseMessage (input : Bytes) : Except GiopError ParsedMessage :=
  match parseHeader input with
  | .error error => .error error
  | .ok header =>
    let available := input.length - headerLen
    if available < header.bodyLen.toNat then
      .error (.truncatedBody header.bodyLen available)
    else
      let bodyEnd := headerLen + header.bodyLen.toNat
      .ok ⟨header, input.extract headerLen bodyEnd, input.drop bodyEnd⟩

/-- A parsed message is the header, the body and the remaining bytes. -/
theorem length_of_parseMessage {input : Bytes} {message : ParsedMessage}
    (h : parseMessage input = .ok message) :
    input.length = headerLen + message.body.length + message.remaining.length := by
  have hheader : ∀ {header}, parseHeader input = .ok header → headerLen ≤ input.length := by
    intro header hheader
    unfold parseHeader at hheader
    split at hheader
    · simp [headerLen]
    · simp at hheader
  rw [parseMessage] at h
  split at h
  · simp at h
  rename_i header hparse
  have hle := hheader hparse
  dsimp only at h
  split at h
  · simp at h
  · obtain ⟨⟩ := h
    simp only [extract_eq_take_drop, length_take, length_drop]
    omega

/-! ### Frames that parse -/

/-- The flags octet of a 1.2 header. -/
def giopFlags12 (endian : Endianness) (fragmented : Bool) : UInt8 :=
  match endian, fragmented with
  | .big, false => 0x00
  | .little, false => 0x01
  | .big, true => 0x02
  | .little, true => 0x03

variable (endian : Endianness) (fragmented : Bool) (type : UInt8)

/-- The header of a 1.2 frame whose body has the given length. -/
def giopHeader12 (bodyLen : ℕ) : Bytes :=
  giopMagic ++ [1, 2, giopFlags12 endian fragmented, type] ++ endian.bytes 4 bodyLen

/-- A 1.2 frame. -/
def giopFrame12 (body : Bytes) : Bytes :=
  giopHeader12 endian fragmented type body.length ++ body

@[simp]
theorem length_giopHeader12
    (bodyLen : ℕ) : (giopHeader12 endian fragmented type bodyLen).length = headerLen := by
  simp [giopHeader12, giopMagic, headerLen]

@[simp]
theorem length_giopFrame12 (body : Bytes) :
    (giopFrame12 endian fragmented type body).length = headerLen + body.length := by
  simp [giopFrame12]

/-- A header parses, whatever follows it. -/
theorem parseHeader_giopHeader12 (bodyLen : ℕ) (rest : Bytes) :
    parseHeader (giopHeader12 endian fragmented type bodyLen ++ rest) =
      .ok ⟨version12, endian, fragmented, MessageType.ofByte type,
        UInt32.ofNat (endian.value (endian.bytes 4 bodyLen))⟩ := by
  obtain ⟨l₀, l₁, l₂, l₃, hlen⟩ : ∃ l₀ l₁ l₂ l₃, endian.bytes 4 bodyLen = [l₀, l₁, l₂, l₃] := by
    match endian.bytes 4 bodyLen, ByteOrder.length_bytes endian 4 bodyLen with
    | [l₀, l₁, l₂, l₃], _ => exact ⟨l₀, l₁, l₂, l₃, rfl⟩
  cases endian <;> cases fragmented <;> rfl

/-- A frame in front of other bytes is split off again. -/
theorem parseMessage_giopFrame12 (body rest : Bytes) (hbody : body.length < 2 ^ 32) :
    parseMessage (giopFrame12 endian fragmented type body ++ rest) =
      .ok ⟨⟨version12, endian, fragmented, MessageType.ofByte type, UInt32.ofNat body.length⟩,
        body, rest⟩ := by
  have hlen : (UInt32.ofNat body.length).toNat = body.length := UInt32.toNat_ofNat_of_lt' hbody
  have hframe := length_giopFrame12 endian fragmented type body
  have hhead := length_giopHeader12 endian fragmented type body.length
  have hextract : (giopFrame12 endian fragmented type body ++ rest).extract headerLen
      (headerLen + body.length) = body := by
    rw [extract_eq_take_drop, giopFrame12, append_assoc, drop_left' hhead,
      Nat.add_sub_cancel_left, take_left]
  rw [parseMessage, giopFrame12, append_assoc, parseHeader_giopHeader12, ← append_assoc,
    ← giopFrame12, ByteOrder.value_bytes _ (by omega)]
  simp only [hlen, hextract, length_append, hframe, drop_left' hframe]
  rw [if_neg (by omega)]

/-! ### The decoder state -/

/-- An element count as a list reader met it: the declared count, the bytes unread at that moment,
and whether room for that many elements was reserved. -/
structure DeclaredCount where
  declared : ℕ
  unread : ℕ
  reserved : Bool
  deriving DecidableEq

/-- A reader and the counts met so far. -/
structure Decoder where
  reader : CdrReader
  counts : List DeclaredCount

abbrev DecodeM (ε : Type) := StateExcept ε Decoder

namespace DecodeM

variable {ε α : Type}

/-- A read, with its error renamed. -/
def read (onError : CdrError → ε) (m : CdrM α) : DecodeM ε α :=
  mapError onError (zoom Decoder.reader (fun r d ↦ { d with reader := r }) m)

/-- Room for `count` elements is reserved (`Vec::with_capacity`), or the count is refused. -/
def note (count : ℕ) (reserved : Bool) : DecodeM ε Unit :=
  modify fun d ↦ { d with counts := d.counts ++ [⟨count, d.reader.remaining, reserved⟩] }

/-- Decode from a reader of its own, keeping the log. -/
def fromReader (r : CdrReader) (m : DecodeM ε α) : StateExcept ε (List DeclaredCount) α :=
  zoom (fun counts ↦ ⟨r, counts⟩) (fun d _ ↦ d.counts) m

theorem runs_fromReader {r : CdrReader} {m : DecodeM ε α} {counts : List DeclaredCount} {a : α}
    {d : Decoder} (h : Runs m ⟨r, counts⟩ a d) : Runs (fromReader r m) counts a d.counts := by
  rw [Runs, fromReader, exec_zoom, h]

end DecodeM

open DecodeM (read note)

/-! ### Lists with a declared count -/

/-- The elements of a list, if the unread bytes leave room for that many of at least
`elementMinLen` bytes. -/
def readElements {α : Type} (elementMinLen : ℕ) (element : CdrM α) (countOffset count : ℕ) :
    DecodeM CdrError (List α) := do
  let remaining := (← get).reader.remaining
  if count > remaining / elementMinLen then do
    note count false
    throw (.sequenceLengthExceedsRemaining countOffset (UInt32.ofNat count) remaining elementMinLen)
  else do
    note count true
    times (read id element) count

/-- A count and that many elements. -/
def readCountedList {α : Type} (elementMinLen : ℕ) (element : CdrM α) :
    DecodeM CdrError (List α) := do
  let countOffset := (← get).reader.position
  let count := (← read id CdrReader.readU32).toNat
  readElements elementMinLen element countOffset count

structure ServiceContext where
  contextId : UInt32
  data : Bytes

def readServiceContext : CdrM ServiceContext := do
  let contextId ← CdrReader.readU32
  let data ← CdrReader.readOctetSequence
  return ⟨contextId, data⟩

def readServiceContextList : DecodeM CdrError (List ServiceContext) :=
  readCountedList 8 readServiceContext

structure TaggedProfile where
  tag : UInt32
  profileData : Bytes

def readTaggedProfile : CdrM TaggedProfile := do
  let tag ← CdrReader.readU32
  let profileData ← CdrReader.readOctetSequence
  return ⟨tag, profileData⟩

def readTaggedProfileList : DecodeM CdrError (List TaggedProfile) :=
  readCountedList 8 readTaggedProfile

structure Ior where
  typeId : String
  profiles : List TaggedProfile

def readIor : DecodeM CdrError Ior := do
  let typeId ← read id CdrReader.readString
  let profiles ← readTaggedProfileList
  return ⟨typeId, profiles⟩

/-! ### Requests -/

inductive TargetAddress
  | keyAddr (objectKey : Bytes)
  | profileAddr (profile : TaggedProfile)
  | referenceAddr (selectedProfileIndex : UInt32) (ior : Ior)

def readTargetAddress : DecodeM GiopError TargetAddress := do
  match ← read .cdr CdrReader.readI16 with
  | 0 => return .keyAddr (← read .cdr CdrReader.readOctetSequence)
  | 1 => return .profileAddr (← read .cdr readTaggedProfile)
  | 2 => do
    let selectedProfileIndex ← read .cdr CdrReader.readU32
    let ior ← mapError .cdr readIor
    return .referenceAddr selectedProfileIndex ior
  | disposition => throw (.unsupportedTargetAddress disposition)

structure ParsedRequest12 where
  serviceContexts : List ServiceContext
  requestId : UInt32
  responseFlags : UInt8
  target : TargetAddress
  operation : String
  arguments : Bytes
  argumentsAlignmentBase : ℕ
  endian : Endianness

def ParsedRequest12.argumentsReader (request : ParsedRequest12) : CdrReader :=
  CdrReader.withAlignmentBase request.arguments request.endian request.argumentsAlignmentBase

/-- The arguments start at an eight-byte boundary if there are any bytes left. -/
def alignArguments : DecodeM GiopError Unit := do
  if (← get).reader.remaining > 0 then
    read .cdr (CdrReader.alignTo 8)
  else
    pure ()

/-- The request header up to the arguments. -/
def readRequest12Body (frame : ParsedMessage) : DecodeM GiopError ParsedRequest12 := do
  let requestId ← read .cdr CdrReader.readU32
  let responseFlags ← read .cdr CdrReader.readOctet
  let reservedOffset := (← get).reader.position
  let r₀ ← read .cdr CdrReader.readOctet
  let r₁ ← read .cdr CdrReader.readOctet
  let r₂ ← read .cdr CdrReader.readOctet
  if [r₀, r₁, r₂] ≠ [0, 0, 0] then
    throw (.invalidRequestReserved reservedOffset [r₀, r₁, r₂])
  else do
    let target ← readTargetAddress
    let operation ← read .cdr CdrReader.readString
    let serviceContexts ← mapError .cdr readServiceContextList
    alignArguments
    let argumentsOffset := (← get).reader.position
    return ⟨serviceContexts, requestId, responseFlags, target, operation,
      frame.body.drop argumentsOffset, headerLen + argumentsOffset, frame.header.endian⟩

/-- The header is checked before anything is read. -/
def readRequest12 (frame : ParsedMessage) :
    StateExcept GiopError (List DeclaredCount) ParsedRequest12 :=
  DecodeM.fromReader frame.bodyReader <|
    if frame.header.messageType ≠ .request then
      throw (.unexpectedMessageType .request frame.header.messageType)
    else if frame.header.version ≠ version12 then
      throw (.unsupportedVersion frame.header.version)
    else
      readRequest12Body frame

end Bhf.Iiop
