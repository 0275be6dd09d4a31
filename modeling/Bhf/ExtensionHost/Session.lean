import Bhf.ExtensionHost.Client

/-!
# The session driver

A multi-message session sets the extension up, resets it for the case, and then pulls one message
after another: each is mutated and repaired where the extension offers it, sent to the target, and
the target's response is fed back. When the messages are done the oracle judges the case, and the
session is torn down. **Every fault of the extension or the target is recorded on the outcome, the
first one only, and ends the stage it happened in.**

`Target` gives the target's answer at each step, and `Values` the readings of the JSON values the
extension returns.
-/

namespace Bhf.ExtensionHost

variable {J : Type}

/-! ### Typed answers -/

/-- A `scenario.next` value as it is deserialised. -/
structure NextValue where
  done : Bool := false
  messageB64 : Option String := none
  label : Option String := none
  deriving DecidableEq

/-- How returned JSON values are read; the errors are the texts of the readers. -/
structure Values (J : Type) where
  nextValue : J → Except String NextValue
  outputB64 : J → Except String String
  decode : String → Except String Bytes

inductive AckOutcome where
  | ok
  | unsupported (detail : Option String)
  | infrastructure (failure : InfraFailure)

inductive EvaluateOutcome where
  | ok
  | reject (detail : Option String)
  | finding (finding : FindingResult)
  | unsupported (detail : Option String)
  | infrastructure (failure : InfraFailure)

/-- What came of asking for bytes: a mutation or a repair. -/
inductive BytesOutcome where
  | bytes (bytes : Bytes)
  | reject (detail : Option String)
  | unsupported (detail : Option String)
  | infrastructure (failure : InfraFailure)

structure ScenarioMessage where
  bytes : Bytes
  label : Option String

inductive ScenarioStep where
  | message (message : ScenarioMessage)
  | done
  | reject (detail : Option String)
  | unsupported (detail : Option String)
  | infrastructure (failure : InfraFailure)

/-- The display form of a protocol error. -/
def protocolError (message : String) : String :=
  "extension protocol error: " ++ message

/-- An answer of the wrong kind. -/
def returnedFinding (capability : Capability) : InfraFailure :=
  .protocol (capability.name ++ " returned a finding")

def ackFrom (capability : Capability) : CallOutcome J → AckOutcome
  | .ok _ => .ok
  | .reject detail => .unsupported detail
  | .unsupported detail => .unsupported detail
  | .infrastructure failure => .infrastructure failure
  | .finding _ => .infrastructure (returnedFinding capability)

def evaluateOutcomeFrom : CallOutcome J → EvaluateOutcome
  | .ok _ => .ok
  | .reject detail => .reject detail
  | .finding finding => .finding finding
  | .unsupported detail => .unsupported detail
  | .infrastructure failure => .infrastructure failure

/-- An `ok` response has to carry a value. -/
def requireValue (value : Option J) (capability : Capability) : Except String J :=
  match value with
  | some value => .ok value
  | none => .error (protocolError (capability.name ++ " ok response carried no value payload"))

def outputBytesFromValue (values : Values J) (value : J) : Except String Bytes :=
  match values.outputB64 value with
  | .error e => .error (protocolError ("response value was not \x7boutput_b64\x7d: " ++ e))
  | .ok encoded =>
    match values.decode encoded with
    | .error e => .error (protocolError ("output_b64 was not valid base64: " ++ e))
    | .ok bytes => .ok bytes

/-- The bytes an answer carries, or what it is instead. -/
def bytesOutcomeFrom (values : Values J) (capability : Capability) : CallOutcome J → BytesOutcome
  | .ok value =>
    match requireValue value capability >>= outputBytesFromValue values with
    | .ok bytes => .bytes bytes
    | .error err => .infrastructure (.protocol err)
  | .reject detail => .reject detail
  | .unsupported detail => .unsupported detail
  | .infrastructure failure => .infrastructure failure
  | .finding _ => .infrastructure (returnedFinding capability)

def parseNextValue (values : Values J) (value : J) : Except String ScenarioStep :=
  match values.nextValue value with
  | .error e => .error (protocolError ("scenario.next value was not a NextValue: " ++ e))
  | .ok next =>
    if next.done then
      .ok .done
    else
      match next.messageB64 with
      | none => .error (protocolError "scenario.next was not done but carried no message_b64")
      | some encoded =>
        match values.decode encoded with
        | .error e =>
          .error (protocolError ("scenario.next message_b64 was not valid base64: " ++ e))
        | .ok bytes => .ok (.message ⟨bytes, next.label⟩)

def scenarioStepFrom (values : Values J) : CallOutcome J → ScenarioStep
  | .ok value =>
    match requireValue value .scenarioNext >>= parseNextValue values with
    | .ok step => step
    | .error err => .infrastructure (.protocol err)
  | .reject detail => .reject detail
  | .unsupported detail => .unsupported detail
  | .infrastructure failure => .infrastructure failure
  | .finding _ => .infrastructure (returnedFinding .scenarioNext)

/-! ### Outcomes of a session -/

structure SessionOptions where
  mutateSeed : Option UInt64 := none
  repair : Bool := false
  maxSteps : ℕ := 64

structure SessionStepRecord where
  step : ℕ
  label : Option String
  sent : Bytes
  mutated : Bool
  repaired : Bool
  response : Bytes
  deriving DecidableEq

structure SessionOutcome where
  steps : List SessionStepRecord := []
  finding : Option FindingResult := none
  infrastructure : Option InfraFailure := none
  oracleRan : Bool := false
  deriving DecidableEq

/-- Record a fault unless one is on record (`get_or_insert`). -/
def SessionOutcome.fault (outcome : SessionOutcome) (failure : InfraFailure) : SessionOutcome :=
  { outcome with infrastructure := outcome.infrastructure.or (some failure) }

/-- Record a fault if there is one. -/
def SessionOutcome.faults (outcome : SessionOutcome) : Option InfraFailure → SessionOutcome
  | none => outcome
  | some failure => outcome.fault failure

/-- The fault of a lifecycle acknowledgement that has to succeed. -/
def AckOutcome.refusal : AckOutcome → Option InfraFailure
  | .ok => none
  | .unsupported detail => some (.extensionReported detail)
  | .infrastructure failure => some failure

/-- The fault of an acknowledgement the session can do without. -/
def AckOutcome.failure : AckOutcome → Option InfraFailure
  | .infrastructure failure => some failure
  | _ => none

/-! ### The driver -/

/-- The target's answers: what exchanging a message at a step gives, or the text of its error. -/
abbrev Target : Type :=
  ℕ → Option String → Bytes → Except String Bytes

/-- What a session runs on. -/
structure Setting (J : Type) where
  peer : Peer J
  values : Values J
  target : Target
  options : SessionOptions
  case : CaseId
  root : String
  testcase : Bytes

section Driver

variable (setting : Setting J)

/-- Put a request to the extension. -/
def request (payload : Payload) : Host J (CallOutcome J) :=
  call setting.peer setting.case payload

/-- Put a request to the extension if it offers the capability. -/
def requestIfSupported (payload : Payload) : Host J (Option (CallOutcome J)) := do
  if ← supports payload.capability then
    return some (← request setting payload)
  else
    return none

/-- Have the extension rewrite a message, if it can: the bytes to send and whether they were
rewritten, or the fault that ends the scenario. -/
def rewriteMessage (payload : Payload) (bytes : Bytes) :
    Host J (Except InfraFailure (Bytes × Bool)) := do
  match ← requestIfSupported setting payload with
  | none => return .ok (bytes, false)
  | some answer =>
    match bytesOutcomeFrom setting.values payload.capability answer with
    | .bytes rewritten => return .ok (rewritten, true)
    | .reject _ => return .ok (bytes, false)
    | .unsupported _ => return .ok (bytes, false)
    | .infrastructure failure => return .error failure

/-- Mutate a message, if the options ask for it and the extension can. -/
def mutateMessage (bytes : Bytes) : Host J (Except InfraFailure (Bytes × Bool)) :=
  match setting.options.mutateSeed with
  | none => return .ok (bytes, false)
  | some seed => rewriteMessage setting (.mutate bytes seed) bytes

/-- Repair a message, if the options ask for it and the extension can. -/
def repairMessage (bytes : Bytes) : Host J (Except InfraFailure (Bytes × Bool)) :=
  match setting.options.repair with
  | false => return .ok (bytes, false)
  | true => rewriteMessage setting (.repair bytes) bytes

/-- Send a message to the target. -/
def exchange (step : ℕ) (label : Option String) (message : Bytes) :
    Host J (Except String Bytes) := do
  logEntry (.exchange step label message (setting.target step label message))
  return setting.target step label message

/-- Feed the response back, if the extension takes it. -/
def observeResponse (step : ℕ) (response : Bytes) : Host J (Option InfraFailure) := do
  match ← requestIfSupported setting (.observeResponse step response) with
  | none => return none
  | some answer => return (ackFrom .scenarioObserveResponse answer).failure

/-- The fault of an exchange that failed. -/
def targetFailure (err : String) : InfraFailure :=
  .protocol ("session target transport error: " ++ err)

/-- Send a message and feed the response back; says whether the scenario goes on. -/
def sendMessage (step : ℕ) (label : Option String) (sent : Bytes) (mutated repaired : Bool)
    (outcome : SessionOutcome) : Host J (SessionOutcome × Bool) := do
  match ← exchange setting step label sent with
  | .error err => return (outcome.fault (targetFailure err), false)
  | .ok response =>
    let outcome := { outcome with
      steps := outcome.steps ++ [⟨step, label, sent, mutated, repaired, response⟩] }
    match ← observeResponse setting step response with
    | some failure => return (outcome.fault failure, false)
    | none => return (outcome, true)

/-- Send a message, mutated and repaired. -/
def relayMessage (step : ℕ) (message : ScenarioMessage) (outcome : SessionOutcome) :
    Host J (SessionOutcome × Bool) := do
  match ← mutateMessage setting message.bytes with
  | .error failure => return (outcome.fault failure, false)
  | .ok (bytes, mutated) =>
    match ← repairMessage setting bytes with
    | .error failure => return (outcome.fault failure, false)
    | .ok (sent, repaired) =>
      sendMessage setting step message.label sent mutated repaired outcome

/-- The first step carries the test case, which seeds the session. -/
def nextPayload (step : ℕ) : Payload :=
  .next step (if step = 0 then some setting.testcase else none)

/-- One round of the scenario; says whether there is another. -/
def driveStep (step : ℕ) (outcome : SessionOutcome) : Host J (SessionOutcome × Bool) := do
  match scenarioStepFrom setting.values (← request setting (nextPayload setting step)) with
  | .message message => relayMessage setting step message outcome
  | .done => return (outcome, false)
  | .reject _ => return (outcome, false)
  | .unsupported detail => return (outcome.fault (.extensionReported detail), false)
  | .infrastructure failure => return (outcome.fault failure, false)

/-- The rounds from `step` on, of which at most `left` are left. -/
def driveScenario : ℕ → ℕ → SessionOutcome → Host J SessionOutcome
  | 0, _, outcome => return outcome
  | left + 1, step, outcome => do
    match ← driveStep setting step outcome with
    | (outcome, true) => driveScenario left (step + 1) outcome
    | (outcome, false) => return outcome

/-- A lifecycle request that has to be acknowledged, if the extension offers it: its refusal. -/
def acknowledged (payload : Payload) : Host J (Option InfraFailure) := do
  match ← requestIfSupported setting payload with
  | none => return none
  | some answer => return (ackFrom payload.capability answer).refusal

/-- The messages of the session, if the extension has any. -/
def scenario (outcome : SessionOutcome) : Host J SessionOutcome := do
  if ← supports .scenarioNext then
    driveScenario setting setting.options.maxSteps 0 outcome
  else
    return outcome

/-- Let the oracle judge the case, unless something faulted. -/
def judge (outcome : SessionOutcome) : Host J SessionOutcome := do
  if outcome.infrastructure = none then
    match ← requestIfSupported setting (.evaluate setting.testcase) with
    | none => return outcome
    | some answer =>
      let outcome := { outcome with oracleRan := true }
      match evaluateOutcomeFrom answer with
      | .finding finding => return { outcome with finding := some finding }
      | .infrastructure failure => return outcome.fault failure
      | .ok => return outcome
      | .reject _ => return outcome
      | .unsupported _ => return outcome
  else
    return outcome

/-- Release everything, if the extension offers it. -/
def tearDown (outcome : SessionOutcome) : Host J SessionOutcome := do
  match ← requestIfSupported setting .teardown with
  | none => return outcome
  | some answer => return outcome.faults (ackFrom .lifecycleTeardown answer).failure

/-- Drive one session. -/
def run : Host J SessionOutcome := do
  match ← acknowledged setting (.setup (some setting.root)) with
  | some failure => return ({} : SessionOutcome).fault failure
  | none =>
    match ← acknowledged setting (.reset setting.root) with
    | some failure => return ({} : SessionOutcome).fault failure
    | none =>
      let outcome ← scenario setting {}
      let outcome ← judge setting outcome
      tearDown setting outcome

end Driver

end Bhf.ExtensionHost
