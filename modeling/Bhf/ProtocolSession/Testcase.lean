import Bhf.ProtocolSession.Model

/-!
# Session testcases and their frames

A testcase is a sequence of message instances, each with the values of its data fields. Encoding one
lays out its frame and writes the bound value into every reference; the only way to get
`unresolved` out of it is a reference without an integer bound to its source
(`settles_buildFrame`).

A sequence is **drivable** when its messages are a walk through the state graph, there are not too
many of them, and the producer of every reference is sent before it. A walk lists every state it
visits, so an invariant of the steps holds of the whole list (`Walk.forall_mem`).
-/

namespace Bhf

variable {σ α : Type} {next : σ → α → Option σ}

/-- Following the labels from a state visits the states of the path. -/
inductive Walk (next : σ → α → Option σ) : σ → List α → List σ → Prop
  | nil (s : σ) : Walk next s [] [s]
  | cons {s t : σ} {a : α} {labels : List α} {path : List σ} (hstep : next s a = some t)
      (hrest : Walk next t labels path) : Walk next s (a :: labels) (s :: path)

namespace Walk

theorem start_mem {s : σ} {labels : List α} {path : List σ} (h : Walk next s labels path) :
    s ∈ path := by
  cases h with
  | nil => exact List.mem_singleton_self s
  | cons => exact List.mem_cons_self

/-- What holds at the start and after every step holds at every state visited. -/
theorem forall_mem {I : σ → Prop} {s : σ} {labels : List α} {path : List σ}
    (h : Walk next s labels path) (hs : I s) (hstep : ∀ s a t, next s a = some t → I t) :
    ∀ t ∈ path, I t := by
  induction h with
  | nil s => exact fun t ht ↦ List.mem_singleton.mp ht ▸ hs
  | @cons s t a labels path hst _ ih =>
    intro u hu
    rcases List.mem_cons.mp hu with rfl | hu
    · exact hs
    · exact ih (hstep s a t hst) u hu

end Walk

end Bhf

namespace Bhf.ProtocolSession

open AdaStateMachine FuzzEngine.BinFrame StateExcept

/-! ### Bindings -/

/-- A value captured from a response. -/
inductive BoundValue where
  | int (value : UInt64)
  | enum (symbol : String) (code : UInt64)
  | bytes (value : Bytes)

/-- The integer view of a value, where one exists. -/
def BoundValue.asU64 : BoundValue → Option UInt64
  | .int value => some value
  | .enum _ code => some code
  | .bytes _ => none

/-- The values captured so far, under keys `MSG.response.FIELD`. -/
abbrev Bindings := AList fun _ : String ↦ BoundValue

/-! ### Instances -/

/-- Values of data fields by name. -/
abbrev FieldValues := AList fun _ : String ↦ FieldValue

structure FieldAssignment where
  name : String
  value : FieldValue

structure MessageInstance where
  message : String
  fields : List FieldAssignment

/-- The value of a data field that is given none; an enumeration takes its least code. -/
def defaultValue : DataSpec → FieldValue
  | .bytes _ => .bytes []
  | .int _ _ => .int 0
  | .enum _ _ variants =>
    .enum (((variants.entries.argmin fun entry ↦ entry.2.toNat).map Prod.fst).getD "")
  | .tlv .. => .tlv []

/-- The value of a field in an initial instance; an optional field without a seed is absent. -/
def CompiledField.seedValue (field : CompiledField) : Option FieldValue :=
  match field.role, field.seed, field.optional with
  | .data _, some seed, _ => some seed
  | .data spec, none, false => some (defaultValue spec)
  | _, _, _ => none

def CompiledMessage.seedValues (m : CompiledMessage) : FieldValues :=
  m.fields.foldl
    (fun values field ↦ (field.seedValue.map (values.insert field.name)).getD values) ∅

namespace MessageInstance

/-- An instance with the seed values, in the order of the fields. -/
def fromSeed (m : CompiledMessage) : MessageInstance where
  message := m.name
  fields := m.fields.filterMap fun field ↦
    (m.seedValues.lookup field.name).map (FieldAssignment.mk field.name)

def values (self : MessageInstance) : FieldValues :=
  self.fields.foldl (fun values a ↦ values.insert a.name a.value) ∅

end MessageInstance

structure SessionTestcase where
  profileSha256 : String
  messages : List MessageInstance
  statePath : List String
  capturedResponses : List Bytes
  bindings : Bindings

namespace SessionTestcase

/-- A structure-only testcase: the messages, without evidence of a run. -/
def fromMessages (profileSha256 : String) (messages : List MessageInstance) : SessionTestcase where
  profileSha256 := profileSha256
  messages := messages
  statePath := []
  capturedResponses := []
  bindings := ∅

def messageNames (testcase : SessionTestcase) : List String :=
  testcase.messages.map MessageInstance.message

end SessionTestcase

/-! ### Frames -/

def specKind : DataSpec → String
  | .bytes _ => "bytes"
  | .int .. => "int"
  | .enum .. => "enum"
  | .tlv .. => "tlv"

def valueKind : FieldValue → String
  | .bytes _ => "bytes"
  | .int _ => "int"
  | .enum _ => "enum"
  | .tlv _ => "tlv"

def lowerDataField (name : String) (spec : DataSpec) (value : FieldValue) :
    Except EncodeError Field :=
  match spec, value with
  | .bytes max, .bytes value =>
    match max.filter (· < value.length) with
    | some max => .error (.boundExceeded name value.length max)
    | none => .ok (.bytes name value)
  | .int width endian, .int value =>
    if value > widthMax width then .error (.valueTooWide name value)
    else .ok (.bytes name (encodeUint width endian value))
  | .enum width endian variants, .enum symbol =>
    match variants.get symbol with
    | none => .error (.unknownSymbol name symbol)
    | some code =>
      if code > widthMax width then .error (.valueTooWide name code)
      else .ok (.bytes name (encodeUint width endian code))
  | .tlv tag tagWidth lenWidth endian, .tlv value =>
    if tag.toNat < 2 ^ 32 then .ok (.tlv name tag.toUInt32 tagWidth lenWidth endian value)
    else .error (.valueTooWide name tag)
  | spec, value => .error (.typeMismatch name (specKind spec) (valueKind value))

def lowerComputedField (name : String) : ComputedSpec → Field
  | .length width endian covers => .length name width endian covers
  | .checksum kind endian covers => .checksum name kind endian covers
  | .offset width endian target => .offset name width endian target

/-- The part of the frame a field stands for; an absent optional field has none, and a reference is
laid out as zeros. -/
def lowerField (values : FieldValues) (field : CompiledField) : Except EncodeError (Option Field) :=
  match field.role with
  | .data spec =>
    match values.lookup field.name with
    | some value => (lowerDataField field.name spec value).map some
    | none => if field.optional then .ok none else .error (.missingValue field.name)
  | .computed spec => .ok (some (lowerComputedField field.name spec))
  | .ref _ width _ => .ok (some (.bytes field.name (List.replicate width.size 0)))

/-- A reference that is still to be written into the frame. -/
structure PendingRef where
  field : String
  source : String
  width : IntWidth
  endian : Endian

def CompiledField.pendingRef (field : CompiledField) : Option PendingRef :=
  match field.role with
  | .ref source width endian => some ⟨field.name, source, width, endian⟩
  | _ => none

/-- Write the bound value of one reference. -/
def resolveRef (bindings : Bindings) (ref : PendingRef) :
    StateExcept EncodeError EncodedMessage Unit :=
  match (bindings.lookup ref.source).bind BoundValue.asU64 with
  | none => throw (.unresolved ref.field ref.source)
  | some bound =>
    if bound > widthMax ref.width then throw (.valueTooWide ref.field bound)
    else (EncodedMessage.setFieldBytes ref.field (encodeUint ref.width ref.endian bound)).mapError
      .frame

/-- Resolve every reference, then recompute the fields that cover one. -/
def resolveRefs (bindings : Bindings) (refs : List PendingRef) :
    StateExcept EncodeError EncodedMessage Unit := do
  refs.forM (resolveRef bindings)
  EncodedMessage.fixupInPlace.mapError .frame

def CompiledMessage.buildFrame (m : CompiledMessage) (values : FieldValues) (bindings : Bindings) :
    Except EncodeError EncodedMessage := do
  let fields ← m.fields.mapM (lowerField values)
  let encoded ← (Message.encode ⟨fields.reduceOption, m.maxLen⟩).mapError EncodeError.frame
  let (result, encoded) := (resolveRefs bindings (m.fields.filterMap (·.pendingRef))).exec encoded
  result
  pure encoded

def encodeMessage (model : ProtocolModel) (self : MessageInstance) (bindings : Bindings) :
    Except EncodeError EncodedMessage :=
  match model.message self.message with
  | none => .error (.unknownMessage self.message)
  | some compiled => compiled.buildFrame self.values bindings

/-! ### References that stay open -/

/-- What an error of encoding can be: the message exists, and a reference that is reported as
unresolved is one of its fields and has no integer bound to it. -/
def LeftOpen (m : CompiledMessage) (bindings : Bindings) : EncodeError → Prop
  | .unknownMessage _ => False
  | .unresolved name source =>
    ∃ field ∈ m.fields, field.name = name ∧
      (∃ width endian, field.role = .ref source width endian) ∧
      (bindings.lookup source).bind BoundValue.asU64 = none
  | _ => True

theorem settles_lowerField (m : CompiledMessage) (bindings : Bindings) (values : FieldValues)
    (field : CompiledField) :
    Settles (lowerField values field) (fun _ ↦ True) (LeftOpen m bindings) := by
  rw [lowerField]
  split
  · split
    · next spec _ _ value _ =>
      have hdata : Settles (lowerDataField field.name spec value) (fun _ ↦ True)
          (LeftOpen m bindings) := by
        fun_cases lowerDataField field.name spec value <;> trivial
      exact hdata.map fun _ _ ↦ trivial
    · split <;> trivial
  · trivial
  · trivial

theorem ends_resolveRef {m : CompiledMessage} (bindings : Bindings) {ref : PendingRef}
    (href : ref ∈ m.fields.filterMap (·.pendingRef)) :
    Ends (resolveRef bindings ref) (fun _ ↦ True) (LeftOpen m bindings) := by
  obtain ⟨field, hfield, hpending⟩ := List.mem_filterMap.mp href
  rw [resolveRef]
  split
  · next hnone =>
    rw [CompiledField.pendingRef] at hpending
    split at hpending
    · next source width endian hrole =>
      obtain ⟨⟩ := hpending
      exact ends_throw ⟨field, hfield, rfl, ⟨width, endian, hrole⟩, hnone⟩
    · contradiction
  · split
    · exact ends_throw trivial
    · exact (ends_true _).mapError fun _ _ ↦ trivial

theorem settles_buildFrame (m : CompiledMessage) (values : FieldValues) (bindings : Bindings) :
    Settles (m.buildFrame values bindings) (fun _ ↦ True) (LeftOpen m bindings) := by
  have hlower : Settles (m.fields.mapM (lowerField values)) _ (LeftOpen m bindings) :=
    settles_mapM m.fields fun field _ ↦ settles_lowerField m bindings values field
  refine hlower.bind fun fields _ ↦ ?_
  have hencode : Settles (Message.encode ⟨fields.reduceOption, m.maxLen⟩) (fun _ ↦ True)
      fun _ ↦ True := settles_of_ok fun _ _ ↦ trivial
  refine (hencode.mapError fun _ _ ↦ trivial).bind fun encoded _ ↦ ?_
  have hrefs : Ends (resolveRefs bindings (m.fields.filterMap (·.pendingRef))) (fun _ ↦ True)
      (LeftOpen m bindings) :=
    (ends_forM _ fun _ href ↦ ends_resolveRef bindings href).bind fun _ _ ↦
      (ends_true _).mapError fun _ _ ↦ trivial
  exact Settles.bind (hrefs encoded) fun _ _ ↦ trivial

/-! ### Drivable sequences -/

/-- The message a source names. -/
def producerOf (source : String) : String :=
  ((splitChar '.' source).head?).getD ""

/-- Every reference of a message is to a message that is sent before it. -/
def Produced (model : ProtocolModel) (messages : List MessageInstance) : Prop :=
  ∀ before self after, messages = before ++ self :: after →
    ∀ compiled, model.message self.message = some compiled →
      ∀ field ∈ compiled.fields, ∀ source width endian, field.role = .ref source width endian →
        ∃ earlier ∈ before, earlier.message = producerOf source

/-- The messages are a legal path from the initial state, not too long, and no reference comes
before its producer. -/
structure Drivable (model : ProtocolModel) (maxMessages : ℕ) (messages : List MessageInstance) :
    Prop where
  legal : ∃ path, Walk model.graph.nextState model.graph.initial
    (messages.map MessageInstance.message) path
  short : messages.length ≤ maxMessages
  produced : Produced model messages

/-- A testcase carries the names of the states that its messages walk through. -/
def Records (model : ProtocolModel) (testcase : SessionTestcase) : Prop :=
  ∃ path, Walk model.graph.nextState model.graph.initial testcase.messageNames path ∧
    path.map model.graph.stateName = testcase.statePath.map some

end Bhf.ProtocolSession
