import Bhf.ProtocolSession.Mutate

/-!
# Driving a session

`drive` sends the messages of a sequence one by one: it looks the message up, takes the step of the
state graph, encodes the frame with the bindings captured so far, and binds what it finds in the
reply. It stops early when an oracle fires.

The invariant is `Bound`: for a message that was sent, **each of its captures is bound under its own
key**, to what the last capture of that name decoded. Keys of different messages never meet in a
reference, because a reference has exactly three parts.

The text that describes a finding is kept as data (`FindingDetail`).
-/

namespace Bhf.ProtocolSession

open AdaStateMachine FuzzEngine.BinFrame StateExcept List

/-! ### Responses -/

inductive ResponseError where
  | truncated (field : String) (needed got : ℕ)
  | outOfRange (field : String) (value : UInt64)

/-- The bytes of a reply that a capture covers. -/
def replySlice (reply : Bytes) (pos len : ℕ) (field : String) : Except ResponseError Bytes :=
  match checkedAdd pos len with
  | none => .error (.truncated field (usizeSize - 1) reply.length)
  | some stop =>
    if stop ≤ reply.length then .ok (Span.slice ⟨pos, stop⟩ reply)
    else .error (.truncated field stop reply.length)

def readReplyUint (reply : Bytes) (pos : ℕ) (width : IntWidth) (endian : Endian)
    (field : String) : Except ResponseError UInt64 :=
  (replySlice reply pos width.size field).map fun bytes ↦ UInt64.ofNat (endian.value bytes)

def extractOne (capture : CompiledCapture) (reply : Bytes) : Except ResponseError BoundValue :=
  match capture.spec with
  | .int width endian => (readReplyUint reply capture.pos width endian capture.name).map .int
  | .enum width endian variants => do
    let code ← readReplyUint reply capture.pos width endian capture.name
    match variants.entries.find? fun entry ↦ entry.2 == code with
    | some (symbol, _) => .ok (.enum symbol code)
    | none => .error (.outOfRange capture.name code)
  | .bytes len => (replySlice reply capture.pos len capture.name).map .bytes

/-- The key a later reference resolves against. -/
def sourceKey (message capture : String) : String :=
  message ++ ".response." ++ capture

def extract (message : String) (captures : List CompiledCapture) (reply : Bytes) :
    Except ResponseError (List (String × BoundValue)) :=
  captures.mapM fun capture ↦
    (extractOne capture reply).map (Prod.mk (sourceKey message capture.name))

/-! ### Transports and oracles -/

structure TransportError where
  message : String

/-- A request/response transport over a state of its own. -/
structure SessionTransport (σ : Type) where
  sendRequest : Bytes → StateExcept TransportError σ Bytes
  reset : StateExcept TransportError σ Unit

/-- An in-memory transport that replays scripted replies; each session is a queue of them. -/
structure ScriptedTransport where
  sessions : List (List Bytes)
  active : Option ℕ
  resets : ℕ
  step : ℕ

namespace ScriptedTransport

/-- A single session that returns the replies in order. -/
def single (replies : List Bytes) : ScriptedTransport :=
  ⟨[replies], none, 0, 0⟩

def nextReply (self : ScriptedTransport) : Except TransportError Bytes := do
  let session ← okOr ⟨"transport used before reset"⟩ self.active
  let replies ← okOr ⟨"no scripted session"⟩ self.sessions[session]?
  okOr ⟨"no scripted reply for step " ++ toString self.step⟩ replies[self.step]?

/-- A reset selects the next session, the last one from then on. -/
def transport : SessionTransport ScriptedTransport where
  sendRequest _ := do
    let self ← get
    let reply ← fromExcept self.nextReply
    set { self with step := self.step + 1 }
    return reply
  reset := do
    let self ← get
    if self.sessions.isEmpty then throw ⟨"no scripted sessions"⟩
    else
      set { self with
        active := some (min self.resets (self.sessions.length - 1))
        resets := self.resets + 1
        step := 0 }

end ScriptedTransport

/-- Why an oracle fired. -/
inductive FindingDetail where
  | matchedSentinel (field : String) (value equals : UInt64)
  | enteredViolationState (state : String)

inductive SessionVerdict where
  | clean
  | finding (oracle : String) (ruleId : Option String) (message : String) (detail : FindingDetail)

def SessionVerdict.isFinding : SessionVerdict → Bool
  | .clean => false
  | .finding .. => true

/-- The sentinel a response-condition oracle has found. -/
def OracleDef.matched (oracle : OracleDef) (message : String) (captures : Bindings) :
    Option FindingDetail := do
  let field ← oracle.responseField
  let equals ← oracle.equals
  if oracle.message.all (· == message) then
    let value ← (captures.lookup field).bind BoundValue.asU64
    if value == equals then some (.matchedSentinel field value equals) else none
  else none

/-- The violation state that was entered. -/
def OracleDef.violated (oracle : OracleDef) (state : String) : Option FindingDetail :=
  if oracle.violationState == some state then some (.enteredViolationState state) else none

/-- The first oracle that fires; its response condition is asked before its violation state. -/
def evaluate (oracles : List OracleDef) (message : String) (captures : Bindings) (state : String) :
    SessionVerdict :=
  match oracles with
  | [] => .clean
  | oracle :: oracles =>
    match (oracle.matched message captures).or (oracle.violated state) with
    | some detail => .finding oracle.name oracle.ruleId message detail
    | none => evaluate oracles message captures state

/-! ### The runner -/

inductive RunnerError where
  | transport (error : TransportError)
  | encode (error : EncodeError)
  | response (error : ResponseError)
  | unknownMessage (name : String)
  | illegalTransition (message state : String)

/-- The variables of the drive loop. -/
structure Progress where
  cur : StateId
  bindings : Bindings
  stateIds : List StateId
  statePath : List String
  transitions : List (StateId × String × StateId)
  capturedResponses : List Bytes
  sentFrames : List Bytes
  verdict : SessionVerdict

structure SessionRun where
  testcase : SessionTestcase
  verdict : SessionVerdict
  stateIds : List StateId
  transitions : List (StateId × String × StateId)
  sentFrames : List Bytes

section

variable {σ : Type} (model : ProtocolModel) (transport : SessionTransport σ)

/-- Bind what was captured and record the step. -/
def Progress.advance (p : Progress) (self : MessageInstance) (compiled : CompiledMessage)
    (next : StateId) (frame reply : Bytes) (captures : List (String × BoundValue)) :
    Progress :=
  let named := (compiled.response.map CompiledCapture.name).zip (captures.map Prod.snd)
  let captured : Bindings := named.foldl (fun m pair ↦ m.insert pair.1 pair.2) ∅
  let stateName := displayName model.graph next
  { cur := next
    bindings := captures.foldl (fun m pair ↦ m.insert pair.1 pair.2) p.bindings
    stateIds := p.stateIds ++ [next]
    statePath := p.statePath ++ [stateName]
    transitions := p.transitions ++ [(p.cur, self.message, next)]
    capturedResponses := p.capturedResponses ++ [reply]
    sentFrames := p.sentFrames ++ [frame]
    verdict := evaluate model.oracles self.message captured stateName }

/-- One round of the loop. -/
def driveStep (p : Progress) (self : MessageInstance) : StateExcept RunnerError σ Progress := do
  let compiled ← ofOption (.unknownMessage self.message) (model.message self.message)
  let next ← ofOption (.illegalTransition self.message (displayName model.graph p.cur))
    (model.graph.nextState p.cur self.message)
  let encoded ← fromExcept ((encodeMessage model self p.bindings).mapError .encode)
  let reply ← (transport.sendRequest encoded.bytes).mapError .transport
  let captures ← fromExcept ((extract self.message compiled.response reply).mapError .response)
  return p.advance model self compiled next encoded.bytes reply captures

/-- The loop ends with the messages or with the first finding. -/
def driveFrom : Progress → List MessageInstance → StateExcept RunnerError σ Progress
  | p, [] => return p
  | p, self :: messages => do
    let p' ← driveStep model transport p self
    if p'.verdict.isFinding then return p' else driveFrom p' messages

/-- Nothing sent, in the initial state. -/
def Progress.initial : Progress where
  cur := model.graph.initial
  bindings := ∅
  stateIds := [model.graph.initial]
  statePath := [displayName model.graph model.graph.initial]
  transitions := []
  capturedResponses := []
  sentFrames := []
  verdict := .clean

def drive (messages : List MessageInstance) : StateExcept RunnerError σ SessionRun := do
  transport.reset.mapError .transport
  let p ← driveFrom model transport (.initial model) messages
  return {
    testcase := {
      profileSha256 := model.profileSha256
      messages := messages
      statePath := p.statePath
      capturedResponses := p.capturedResponses
      bindings := p.bindings }
    verdict := p.verdict
    stateIds := p.stateIds
    transitions := p.transitions
    sentFrames := p.sentFrames }

end

/-! ### Keys -/

theorem splitChar_sourceKey (message capture : String) :
    splitChar '.' (sourceKey message capture) =
      splitChar '.' message ++ "response" :: splitChar '.' capture := by
  have hkey : sourceKey message capture =
      message ++ String.singleton '.' ++ ("response" ++ String.singleton '.' ++ capture) := by
    rw [← String.toList_inj]
    simp [sourceKey]
  have hresponse : splitChar '.' "response" = ["response"] := by decide +kernel
  rw [hkey, splitChar_append_cons, splitChar_append_cons, hresponse, singleton_append]

variable {source message capture : String} {reply : Bytes}
  {captures : List (String × BoundValue)}

/-- A key in three parts is the key of one message and one capture only. -/
theorem sourceKey_eq_iff (h : splitChar '.' source = [message, "response", capture]) (m c : String)
    : sourceKey m c = source ↔ m = message ∧ c = capture := by
  constructor
  · rintro rfl
    rw [splitChar_sourceKey] at h
    -- both ends have at least one part, so there is no room for a separator in either
    rcases hm : splitChar '.' m with _ | ⟨m₁, _ | ⟨m₂, ms⟩⟩
    · exact absurd hm (splitChar_ne_nil '.' m)
    · rcases hc : splitChar '.' c with _ | ⟨c₁, _ | ⟨c₂, cs⟩⟩
      · exact absurd hc (splitChar_ne_nil '.' c)
      · obtain rfl := eq_of_splitChar_eq_singleton hm
        obtain rfl := eq_of_splitChar_eq_singleton hc
        rw [hm, hc] at h
        simpa using h
      · simp [hm, hc] at h
    · have hlen := congrArg length h
      have hc := length_pos_iff.mpr (splitChar_ne_nil '.' c)
      simp only [hm, length_append, length_cons, length_nil] at hlen
      omega
  · rintro ⟨rfl, rfl⟩
    rw [eq_of_splitChar_eq_triple h, ← String.toList_inj]
    simp [sourceKey]

/-! ### What is bound -/

/-- The last capture of a name, which is the one that stays bound. -/
def CompiledMessage.captured (m : CompiledMessage) (name : String) : Option CaptureSpec :=
  (m.response.reverse.find? fun c ↦ c.name == name).map CompiledCapture.spec

/-- The capture that the source of a reference names. -/
def ProtocolModel.referenced (model : ProtocolModel) (source : String) : Option CaptureSpec :=
  match splitChar '.' source with
  | [message, _, capture] => (model.message message).bind (·.captured capture)
  | _ => none

/-- Every capture of a message that was sent is bound, and to an integer unless it takes bytes. -/
def Bound (model : ProtocolModel) (sent : List MessageInstance) (bindings : Bindings) : Prop :=
  ∀ source message capture, splitChar '.' source = [message, "response", capture] →
    (∃ m ∈ sent, m.message = message) → ∀ spec, model.referenced source = some spec →
      ∃ value, bindings.lookup source = some value ∧
        (value.asU64 = none → ∃ len, spec = .bytes len)

theorem bytes_of_extractOne {capture : CompiledCapture} {value : BoundValue}
    (h : extractOne capture reply = .ok value) (hvalue : value.asU64 = none) :
    ∃ len, capture.spec = .bytes len := by
  rw [extractOne] at h
  split at h
  · obtain ⟨n, -, rfl⟩ := except_map_eq_ok h
    contradiction
  · obtain ⟨code, -, h⟩ := ok_of_bind h
    split at h
    · obtain ⟨⟩ := h
      contradiction
    · contradiction
  · next len hspec => exact ⟨len, hspec⟩

/-- A capture and what was extracted for it. -/
def Extracted (message : String) (reply : Bytes) (capture : CompiledCapture)
    (pair : String × BoundValue) : Prop :=
  pair.1 = sourceKey message capture.name ∧ extractOne capture reply = .ok pair.2

theorem forall₂_of_extract {response : List CompiledCapture}
    (h : extract message response reply = .ok captures) :
    List.Forall₂ (Extracted message reply) response captures := by
  refine (forall₂_of_mapM_eq_ok h).imp fun capture pair hpair ↦ ?_
  obtain ⟨value, hvalue, rfl⟩ := except_map_eq_ok hpair
  exact ⟨rfl, hvalue⟩

/-- Sending one more message binds its captures and leaves the keys of the others alone. -/
theorem Bound.send {model : ProtocolModel} {sent : List MessageInstance} {bindings : Bindings}
    (hbound : Bound model sent bindings) {self : MessageInstance} {compiled : CompiledMessage}
    (hcompiled : model.message self.message = some compiled)
    (hextract : extract self.message compiled.response reply = .ok captures) :
    Bound model (sent ++ [self])
      (captures.foldl (fun m pair ↦ m.insert pair.1 pair.2) bindings) := by
  intro source message capture hsplit hsent spec hspec
  have hpairs := forall₂_of_extract hextract
  rw [lookup_foldl_insert]
  by_cases hself : self.message = message
  · subst hself
    simp only [ProtocolModel.referenced, hsplit, hcompiled, Option.bind_some] at hspec
    obtain ⟨c, hc, rfl⟩ := Option.map_eq_some_iff.mp hspec
    -- the last capture of the name is the last pair with the key
    obtain ⟨pair, hfind, hkey, hvalue⟩ :=
      exists_find?_of_forall₂ (q := fun pair ↦ pair.1 == source) (forall₂_reverse_iff.mpr hpairs)
        (fun c pair hpair ↦ by
          have hiff := sourceKey_eq_iff hsplit self.message c.name
          rw [hpair.1, Bool.eq_iff_iff, beq_iff_eq, beq_iff_eq, hiff]
          simp) hc
    refine ⟨pair.2, by rw [hfind]; rfl, fun hnone ↦ bytes_of_extractOne hvalue hnone⟩
  · have hfind : captures.reverse.find? (fun pair ↦ pair.1 == source) = none := by
      refine find?_eq_none.mpr fun pair hpair heq ↦ hself ?_
      obtain ⟨c, -, hkey, -⟩ :=
        exists_mem_of_forall₂ hpairs.flip (mem_reverse.mp hpair)
      exact ((sourceKey_eq_iff hsplit _ _).mp (hkey.symm.trans (by simpa using heq))).1
    rw [hfind]
    refine hbound source message capture hsplit ?_ spec hspec
    obtain ⟨m, hm, hmessage⟩ := hsent
    rcases mem_append.mp hm with hm | hm
    · exact ⟨m, hm, hmessage⟩
    · exact absurd (mem_singleton.mp hm ▸ hmessage) hself

end Bhf.ProtocolSession
