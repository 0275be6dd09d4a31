import Bhf.Lib.Ends
import Bhf.Lib.Text
import Bhf.Lib.Words

/-!
# Protocol profiles

A profile declares the messages of a protocol, the captures a reply exposes, the references of later
requests to captured values and the legal order of messages. `Profile.fromToml` rejects a profile
with two messages of one name, with a reference to a capture that does not exist or with a
transition that sends an unknown message.

**A reference is checked by name only** (`validateReference`): the producer exists and has a capture
of that name, whatever the type of that capture is.

Reading TOML into a `RawProfile` and hashing are parameters. The fields of a profile that no
modelled function reads (its transport and the hooks of its session) are left out.
-/

namespace Bhf.ProtocolSession

def schemaV1 : String :=
  "bhf.protocol.v1"

/-- Default cap on messages per session. -/
def defaultMaxMessages : ℕ :=
  64

inductive FieldType where
  | bytes
  | u8
  | u16
  | u32
  | enum
  | tlv

/-- A value of a TOML document, as far as seeds look at it. -/
inductive TomlValue where
  | string (s : String)
  | integer (n : Int64)
  | array (items : List TomlValue)
  | other

/-- Symbols with their integer codes, in the order of the symbols. -/
structure Variants where
  entries : List (String × UInt64)
  sorted : entries.Pairwise fun a b ↦ a.1 < b.1

def Variants.get (variants : Variants) (symbol : String) : Option UInt64 :=
  variants.entries.lookup symbol

structure FieldDef where
  name : String
  ty : FieldType
  endian : Option ByteOrder := none
  max : Option ℕ := none
  optional : Bool := false
  computed : Option String := none
  reference : Option String := none
  variants : Option Variants := none
  width : Option FieldType := none
  tag : Option UInt64 := none
  value : Option TomlValue := none

structure CaptureDef where
  name : String
  ty : FieldType
  pos : ℕ
  endian : Option ByteOrder := none
  len : Option ℕ := none
  variants : Option Variants := none
  width : Option FieldType := none

structure ResponseDef where
  captures : List CaptureDef

structure MessageDef where
  name : String
  maxLen : Option ℕ := none
  fields : List FieldDef
  response : Option ResponseDef := none

/-- Sending `send` in the state `source` moves to the state `target`. -/
structure TransitionDef where
  source : String
  send : String
  target : String

structure OracleDef where
  name : String
  ruleId : Option String := none
  message : Option String := none
  responseField : Option String := none
  equals : Option UInt64 := none
  violationState : Option String := none

structure RawProfile where
  schema : String
  maxMessages : Option ℕ
  start : Option String
  message : List MessageDef
  transition : List TransitionDef
  oracle : List OracleDef

structure Profile where
  schema : String
  maxMessages : ℕ
  startState : String
  messages : List MessageDef
  transitions : List TransitionDef
  oracles : List OracleDef
  sourceSha256 : String

inductive ProfileError where
  | malformed (message : String)
  | unknownSchema (found : String)
  | duplicateMessage (name : String)
  | badReference (field reference : String)

/-- The capture is one of the response of this message. -/
def MessageDef.hasCapture (m : MessageDef) (capture : String) : Bool :=
  m.response.any fun r ↦ r.captures.any fun c ↦ c.name == capture

/-- The message of a name. -/
def findMessage (messages : List MessageDef) (name : String) : Option MessageDef :=
  messages.find? fun m ↦ m.name == name

/-- A reference reads `MSG.response.FIELD`. -/
def validateReference (messages : List MessageDef) (message field reference : String) :
    Except ProfileError Unit :=
  match splitChar '.' reference with
  | [srcMessage, middle, capture] =>
    if middle = "response" ∧ (findMessage messages srcMessage).any (·.hasCapture capture) then
      .ok ()
    else
      .error (.badReference (message ++ "." ++ field) reference)
  | _ => .error (.badReference (message ++ "." ++ field) reference)

/-- Stop at the first name that was seen before. -/
def checkDuplicates : List String → List MessageDef → Except ProfileError Unit
  | _, [] => .ok ()
  | seen, m :: messages =>
    if m.name ∈ seen then .error (.duplicateMessage m.name)
    else checkDuplicates (m.name :: seen) messages

def validateField (messages : List MessageDef) (message : String) (field : FieldDef) :
    Except ProfileError Unit :=
  match field.reference with
  | some reference => validateReference messages message field.name reference
  | none => .ok ()

def validateTransition (messages : List MessageDef) (t : TransitionDef) :
    Except ProfileError Unit :=
  if t.send ∈ messages.map MessageDef.name then .ok ()
  else .error (.badReference ("transition " ++ t.source ++ "->" ++ t.target) t.send)

/-- The explicit start, else where the first transition leaves from, else a synthetic one. -/
def RawProfile.startState (raw : RawProfile) : String :=
  (raw.start.or (raw.transition.head?.map TransitionDef.source)).getD "start"

section

variable (parseToml : String → Except String RawProfile) (hexSha256 : Bytes → String)

def Profile.fromToml (source : String) : Except ProfileError Profile := do
  let raw ← (parseToml source).mapError .malformed
  if raw.schema ≠ schemaV1 then
    .error (.unknownSchema raw.schema)
  else do
    checkDuplicates [] raw.message
    raw.message.forM fun m ↦ m.fields.forM (validateField raw.message m.name)
    raw.transition.forM (validateTransition raw.message)
    return {
      schema := raw.schema
      maxMessages := raw.maxMessages.getD defaultMaxMessages
      startState := raw.startState
      messages := raw.message
      transitions := raw.transition
      oracles := raw.oracle
      sourceSha256 := hexSha256 (utf8Bytes source) }

end

/-! ### Accepted profiles -/

/-- What the checks on a profile establish. -/
structure Accepted (profile : Profile) : Prop where
  /-- Transitions send messages that exist. -/
  sends : ∀ t ∈ profile.transitions, t.send ∈ profile.messages.map MessageDef.name
  /-- References name captures that exist. -/
  refers : ∀ m ∈ profile.messages, ∀ field ∈ m.fields, ∀ reference,
    field.reference = some reference →
      ∃ name capture producer, splitChar '.' reference = [name, "response", capture] ∧
        findMessage profile.messages name = some producer ∧ producer.hasCapture capture

theorem accepted_of_fromToml {parseToml : String → Except String RawProfile}
    {hexSha256 : Bytes → String} {source : String} {profile : Profile}
    (h : Profile.fromToml parseToml hexSha256 source = .ok profile) : Accepted profile := by
  obtain ⟨raw, -, h⟩ := ok_of_bind h
  split at h
  · contradiction
  obtain ⟨⟨⟩, -, h⟩ := ok_of_bind h
  obtain ⟨⟨⟩, hfields, h⟩ := ok_of_bind h
  obtain ⟨⟨⟩, htransitions, h⟩ := ok_of_bind h
  obtain ⟨⟩ := h
  refine ⟨fun t ht ↦ ?_, fun m hm field hfield reference href ↦ ?_⟩
  · have hsend := of_forM_eq_ok htransitions t ht
    rw [validateTransition] at hsend
    split at hsend
    · assumption
    · contradiction
  · have hvalid := of_forM_eq_ok (of_forM_eq_ok hfields m hm) field hfield
    rw [validateField, href] at hvalid
    dsimp only at hvalid
    rw [validateReference] at hvalid
    split at hvalid
    · next srcMessage middle capture hsplit =>
      split at hvalid
      · next hfound =>
        obtain ⟨rfl, hany⟩ := hfound
        obtain ⟨producer, hproducer, hcapture⟩ := (Option.any_eq_true _ _).mp hany
        exact ⟨srcMessage, capture, producer, hsplit, hproducer, hcapture⟩
      · contradiction
    · contradiction

end Bhf.ProtocolSession
