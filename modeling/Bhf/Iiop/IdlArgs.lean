import Bhf.Iiop.Giop

/-!
# Decoding request arguments against an IDL catalog

The arguments of a request are decoded by the declared types of the operation's parameters: the
operation is looked up by name, every parameter that is not `out` is decoded in order, and no byte
may be left. A failure names the operation and the parameter and carries the raw argument bytes.

`decodeValue` recurses on the declared type; a sequence reads its count, checks it against the
declared bound, **reserves room for that many values and only then** reads the elements.
-/

namespace Bhf.Iiop

open StateExcept
open DecodeM (read note)

/-! ### The catalog -/

inductive ParamDirection
  | in_
  | out
  | inOut
  deriving DecidableEq

inductive PrimitiveType
  | boolean
  | char
  | wChar
  | octet
  | short
  | uShort
  | long
  | uLong
  | longLong
  | uLongLong
  | float
  | double
  | longDouble
  | any
  | object

structure ScopedName where
  absolute : Bool
  parts : List String

inductive TypeRef
  | void
  | primitive (type : PrimitiveType)
  | named (name : ScopedName)
  | sequence (element : TypeRef) (bound : Option UInt64)
  | map (key value : TypeRef) (bound : Option UInt64)
  | array (element : TypeRef) (dimensions : List UInt64)
  | string (wide : Bool) (bound : Option UInt64)
  | fixed (digits : UInt16) (scale : Int16)

structure IdlParamMetadata where
  name : String
  direction : ParamDirection
  ty : TypeRef

structure IdlOperationMetadata where
  repositoryId : Option String
  interface : String
  scopedInterface : List String
  operation : String
  params : List IdlParamMetadata

/-- The parameters a request carries. -/
def IdlOperationMetadata.inParams (operation : IdlOperationMetadata) : List IdlParamMetadata :=
  operation.params.filter fun param ↦ param.direction ≠ .out

structure IdlOperationCatalog where
  operations : List IdlOperationMetadata
  interfaceScopes : List (List String)

/-- Why arguments were refused. -/
inductive IdlArgumentDecodeError
  | unknownOperation (operation : String) (rawArguments : Bytes)
  | ambiguousOperation (operation : String) (rawArguments : Bytes)
  | unsupportedType (operation parameter : String) (ty : TypeRef) (rawArguments : Bytes)
  | sequenceBoundExceeded (operation parameter : String) (bound : UInt64) (actual : UInt32)
      (rawArguments : Bytes)
  | cdr (operation parameter : String) (source : CdrError) (rawArguments : Bytes)
  | trailingBytes (operation : String) (offset remaining : ℕ) (rawArguments : Bytes)

def IdlArgumentDecodeError.withRawArguments (error : IdlArgumentDecodeError)
    (rawArguments : Bytes) : IdlArgumentDecodeError :=
  match error with
  | .unknownOperation operation _ => .unknownOperation operation rawArguments
  | .ambiguousOperation operation _ => .ambiguousOperation operation rawArguments
  | other => other

def scopedNameKey (scope : List String) (name : ScopedName) : List String :=
  if name.absolute then name.parts else scope ++ name.parts

namespace IdlOperationCatalog

/-- The operation of that name, if there is exactly one. -/
def lookupOperation (catalog : IdlOperationCatalog) (operation : String) :
    Except IdlArgumentDecodeError IdlOperationMetadata :=
  match catalog.operations.filter fun candidate ↦ candidate.operation = operation with
  | [] => .error (.unknownOperation operation [])
  | [first] => .ok first
  | _ :: _ :: _ => .error (.ambiguousOperation operation [])

/-- Whether a name is an interface of the catalog, seen from an operation's interface. -/
def typeIsInterface (catalog : IdlOperationCatalog) (name : ScopedName)
    (operationScope : List String) : Bool :=
  -- an operation's scope ends in its interface, so it is never empty
  let resolved := scopedNameKey operationScope.dropLast name
  catalog.interfaceScopes.any fun scope ↦
    scope = resolved ∨ scope.getLast? = name.parts.getLast?

end IdlOperationCatalog

/-! ### Decoded values -/

inductive DecodedArgumentValue
  | boolean (value : Bool)
  | char (value : UInt8)
  | octet (value : UInt8)
  | short (value : Int16)
  | uShort (value : UInt16)
  | long (value : Int32)
  | uLong (value : UInt32)
  | longLong (value : Int64)
  | uLongLong (value : UInt64)
  | float (value : F32)
  | double (value : F64)
  | string (value : String)
  | sequence (values : List DecodedArgumentValue)
  | objectReference (typeId : String) (profileCount : UInt32)

structure DecodedArgument where
  name : String
  direction : ParamDirection
  ty : TypeRef
  spanStart : ℕ
  spanEnd : ℕ
  value : DecodedArgumentValue

structure DecodedRequestArguments where
  repositoryId : Option String
  interface : String
  operation : String
  rawArguments : Bytes
  arguments : List DecodedArgument

/-! ### Decoding -/

/-- The declared bound, if a size is over it. -/
def exceededBound (bound : Option UInt64) (size : ℕ) : Option UInt64 :=
  bound.filter fun bound ↦ bound.toNat < size

abbrev ArgumentM := DecodeM IdlArgumentDecodeError

section Decode

variable (catalog : IdlOperationCatalog) (operation : IdlOperationMetadata)
  (param : IdlParamMetadata) (rawArguments : Bytes)

def cdrError (source : CdrError) : IdlArgumentDecodeError :=
  .cdr operation.operation param.name source rawArguments

/-- A read on behalf of the parameter. -/
def readArgument {α : Type} (m : CdrM α) : ArgumentM α :=
  read (cdrError operation param rawArguments) m

def unsupportedType {α : Type} (ty : TypeRef) : ArgumentM α :=
  throw (.unsupportedType operation.operation param.name ty rawArguments)

def boundExceeded {α : Type} (bound : UInt64) (actual : ℕ) : ArgumentM α :=
  throw (.sequenceBoundExceeded operation.operation param.name bound (UInt32.ofNat actual)
    rawArguments)

def readObjectReference : ArgumentM DecodedArgumentValue := do
  let typeId ← readArgument operation param rawArguments CdrReader.readString
  let profileCount ← readArgument operation param rawArguments CdrReader.readU32
  let _ ← times (readArgument operation param rawArguments do
    let _ ← CdrReader.readU32
    CdrReader.readOctetSequence) profileCount.toNat
  return .objectReference typeId profileCount

def decodePrimitive (primitive : PrimitiveType) : ArgumentM DecodedArgumentValue :=
  let readAs {α : Type} (wrap : α → DecodedArgumentValue) (m : CdrM α) :
      ArgumentM DecodedArgumentValue := do
    return wrap (← readArgument operation param rawArguments m)
  match primitive with
  | .boolean => readAs .boolean CdrReader.readBool
  | .char => readAs .char CdrReader.readOctet
  | .octet => readAs .octet CdrReader.readOctet
  | .short => readAs .short CdrReader.readI16
  | .uShort => readAs .uShort CdrReader.readU16
  | .long => readAs .long CdrReader.readI32
  | .uLong => readAs .uLong CdrReader.readU32
  | .longLong => readAs .longLong CdrReader.readI64
  | .uLongLong => readAs .uLongLong CdrReader.readU64
  | .float => readAs .float CdrReader.readF32
  | .double => readAs .double CdrReader.readF64
  | .object => readObjectReference operation param rawArguments
  | .wChar | .longDouble | .any =>
    unsupportedType operation param rawArguments (.primitive primitive)

/-- A bounded string. -/
def decodeString (bound : Option UInt64) : ArgumentM DecodedArgumentValue := do
  let value ← readArgument operation param rawArguments CdrReader.readString
  match exceededBound bound (utf8Bytes value).length with
  | some bound => boundExceeded operation param rawArguments bound (utf8Bytes value).length
  | none => return .string value

/-- The elements of a sequence, if the declared bound admits their count. Nothing relates the count
to the bytes that are left. -/
def decodeElements (element : ArgumentM DecodedArgumentValue) (bound : Option UInt64)
    (count : ℕ) : ArgumentM DecodedArgumentValue :=
  match exceededBound bound count with
  | some bound => do
    note count false
    boundExceeded operation param rawArguments bound count
  | none => do
    note count true
    return .sequence (← times element count)

/-- A count and that many elements. -/
def decodeSequence (element : ArgumentM DecodedArgumentValue) (bound : Option UInt64) :
    ArgumentM DecodedArgumentValue := do
  let count ← readArgument operation param rawArguments CdrReader.readU32
  decodeElements operation param rawArguments element bound count.toNat

def decodeValue : TypeRef → ArgumentM DecodedArgumentValue
  | .primitive primitive => decodePrimitive operation param rawArguments primitive
  | .string false bound => decodeString operation param rawArguments bound
  | .sequence element bound =>
    decodeSequence operation param rawArguments (decodeValue element) bound
  | .named name =>
    if catalog.typeIsInterface name operation.scopedInterface then
      readObjectReference operation param rawArguments
    else
      unsupportedType operation param rawArguments (.named name)
  | ty => unsupportedType operation param rawArguments ty

end Decode

/-- The parameters in order, each with the span it took. -/
def decodeParams (catalog : IdlOperationCatalog) (operation : IdlOperationMetadata)
    (rawArguments : Bytes) : List IdlParamMetadata → ArgumentM (List DecodedArgument)
  | [] => pure []
  | param :: rest => do
    let spanStart := (← get).reader.position
    let value ← decodeValue catalog operation param rawArguments param.ty
    let spanEnd := (← get).reader.position
    let arguments ← decodeParams catalog operation rawArguments rest
    return ⟨param.name, param.direction, param.ty, spanStart, spanEnd, value⟩ :: arguments

/-- No byte may be left after the last argument. -/
def finishArguments (request : ParsedRequest12) (operation : IdlOperationMetadata)
    (arguments : List DecodedArgument) : ArgumentM DecodedRequestArguments := do
  let reader := (← get).reader
  if reader.remaining ≠ 0 then
    throw (.trailingBytes request.operation reader.position reader.remaining request.arguments)
  else
    return ⟨operation.repositoryId, operation.interface, operation.operation, request.arguments,
      arguments⟩

/-- The arguments of an operation that was found. -/
def decodeOperation (request : ParsedRequest12) (catalog : IdlOperationCatalog)
    (operation : IdlOperationMetadata) : ArgumentM DecodedRequestArguments := do
  let arguments ← decodeParams catalog operation request.arguments operation.inParams
  finishArguments request operation arguments

def decodeRequestArguments (request : ParsedRequest12) (catalog : IdlOperationCatalog) :
    StateExcept IdlArgumentDecodeError (List DeclaredCount) DecodedRequestArguments :=
  DecodeM.fromReader request.argumentsReader <|
    match catalog.lookupOperation request.operation with
    | .error error => throw (error.withRawArguments request.arguments)
    | .ok operation => decodeOperation request catalog operation

end Bhf.Iiop
