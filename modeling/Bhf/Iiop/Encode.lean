import Bhf.Iiop.Giop

/-!
# Encoding a GIOP 1.2 request

`encodeRequest12` lays out the request header, the service contexts and the arguments with one
`CdrWriter` whose alignment base is the header length, and puts the twelve header bytes in front.
Every failure is a size that does not fit its `u32` field.
-/

namespace Bhf.Iiop

/-- A CDR value to encode as a request argument. -/
inductive CdrValue
  | boolean (value : Bool)
  | char (value : UInt8)
  | octet (value : UInt8)
  | short (value : Int16)
  | uShort (value : UInt16)
  | long (value : Int32)
  | uLong (value : UInt32)
  | longLong (value : Int64)
  | uLongLong (value : UInt64)
  | float (value : F32)
  | double (value : F64)
  | string (value : String)
  /-- A homogeneous sequence: a count, then each element. -/
  | sequence (elements : List CdrValue)

mutual

def CdrValue.write : CdrValue → CdrWriter → Except EncodeError CdrWriter
  | .boolean value, w => .ok (w.writeBool value)
  | .char value, w => .ok (w.writeOctet value)
  | .octet value, w => .ok (w.writeOctet value)
  | .short value, w => .ok (w.writeI16 value)
  | .uShort value, w => .ok (w.writeU16 value)
  | .long value, w => .ok (w.writeI32 value)
  | .uLong value, w => .ok (w.writeU32 value)
  | .longLong value, w => .ok (w.writeI64 value)
  | .uLongLong value, w => .ok (w.writeU64 value)
  | .float value, w => .ok (w.writeF32 value)
  | .double value, w => .ok (w.writeF64 value)
  | .string value, w => w.writeString value
  | .sequence elements, w =>
    match u32TryFrom elements.length with
    | none => .error (.sequenceTooLong elements.length)
    | some count => CdrValue.writeAll elements (w.writeU32 count)

/-- The values one after the other. -/
def CdrValue.writeAll : List CdrValue → CdrWriter → Except EncodeError CdrWriter
  | [], w => .ok w
  | value :: rest, w =>
    match value.write w with
    | .error error => .error error
    | .ok w' => CdrValue.writeAll rest w'

end

/-- A service context to place in a request. -/
structure ServiceContextSpec where
  contextId : UInt32
  data : Bytes

/-- What a request frame is built from; the target is an object key. -/
structure Request12 where
  endian : Endianness
  requestId : UInt32
  responseFlags : UInt8
  objectKey : Bytes
  operation : String
  serviceContexts : List ServiceContextSpec
  arguments : List CdrValue

def CdrWriter.writeServiceContexts :
    List ServiceContextSpec → CdrWriter → Except EncodeError CdrWriter
  | [], w => .ok w
  | context :: rest, w =>
    match (w.writeU32 context.contextId).writeOctetSequence context.data with
    | .error error => .error error
    | .ok w' => writeServiceContexts rest w'

/-- The count and the contexts. -/
def CdrWriter.writeServiceContextList (contexts : List ServiceContextSpec) (w : CdrWriter) :
    Except EncodeError CdrWriter :=
  match u32TryFrom contexts.length with
  | none => .error (.tooManyServiceContexts contexts.length)
  | some contextCount => writeServiceContexts contexts (w.writeU32 contextCount)

def giop12Flags (endian : Endianness) : UInt8 :=
  match endian with
  | .big => 0x00
  | .little => 0x01

/-- The request header up to the operation name. -/
def encodeRequest12Header (request : Request12) : Except EncodeError CdrWriter := do
  let body := CdrWriter.withAlignmentBase request.endian headerLen
  let body := body.writeU32 request.requestId
  let body := body.writeOctet request.responseFlags
  let body := ((body.writeOctet 0).writeOctet 0).writeOctet 0
  -- the key addressing disposition, then the key
  let body ← (body.writeI16 0).writeOctetSequence request.objectKey
  body.writeString request.operation

/-- The request body: the header, the service contexts, and the arguments from an eight-byte
boundary if there are any. -/
def encodeRequest12Body (request : Request12) : Except EncodeError CdrWriter := do
  let body ← encodeRequest12Header request
  let body ← CdrWriter.writeServiceContextList request.serviceContexts body
  let body := if request.arguments.isEmpty then body else body.alignTo 8
  CdrValue.writeAll request.arguments body

def encodeRequest12 (request : Request12) : Except EncodeError Bytes := do
  let body := (← encodeRequest12Body request).out
  match u32TryFrom body.length with
  | none => .error (.bodyTooLarge body.length)
  | some bodyLen =>
    .ok (giopMagic ++ [1, 2, giop12Flags request.endian, 0] ++
      request.endian.bytes 4 bodyLen.toNat ++ body)

end Bhf.Iiop
