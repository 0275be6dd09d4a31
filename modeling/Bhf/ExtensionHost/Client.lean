import Bhf.Lib.Spans
import Bhf.Lib.StateExcept

/-!
# The extension client

One request to an extension is answered by a child process that may time out, crash, or send a
frame that is no answer at all. Such a **transport fault** costs the child: it is killed, and while
the restart budget lasts the same request is put to a fresh one (`callAlive`). What comes back is
always a `CallOutcome`; only the cap on outstanding requests is an error of the client itself.

What the child processes do is not decided here. `Peer` gives, for the `n`-th frame the host waits
for, what it receives, and for the `n`-th restart, whether the fresh child shakes hands: every
behaviour of the children, however it depends on what they were sent, is one such peer. Receiving
has a deadline. Writing to a child has none, and neither has waiting for the end of a child that was
not killed, so a peer may also leave the host **blocked** there.

Besides the client's own fields the state carries a **log** of the calls made, each with the faults
it met and the number of the child that answered it.
-/

namespace Bhf.ExtensionHost

/-! ### Envelopes -/

/-- The names a capability is negotiated and requested under. -/
inductive Capability where
  | oracleEvaluate
  | codecRepair
  | mutatorMutate
  | scenarioNext
  | scenarioObserveResponse
  | lifecycleSetup
  | lifecycleReset
  | lifecycleTeardown
  deriving DecidableEq

/-- The capability as it stands on the wire and in messages. -/
def Capability.name : Capability → String
  | .oracleEvaluate => "oracle.evaluate"
  | .codecRepair => "codec.repair"
  | .mutatorMutate => "mutator.mutate"
  | .scenarioNext => "scenario.next"
  | .scenarioObserveResponse => "scenario.observe-response"
  | .lifecycleSetup => "lifecycle.setup"
  | .lifecycleReset => "lifecycle.reset"
  | .lifecycleTeardown => "lifecycle.teardown"

structure CaseId where
  campaign : String
  worker : String
  testcase : String
  deriving DecidableEq

structure Evidence where
  key : String
  value : String
  deriving DecidableEq

structure FindingResult where
  rule : String
  classification : String
  signatureInputs : List String
  evidence : List Evidence
  minPredicate : Option String
  deriving DecidableEq

/-- What is asked of the extension: each capability with the payload it takes. -/
inductive Payload where
  | evaluate (input : Bytes)
  | repair (raw : Bytes)
  | mutate (raw : Bytes) (seed : UInt64)
  | next (step : ℕ) (seed : Option Bytes)
  | observeResponse (step : ℕ) (response : Bytes)
  | setup (root : Option String)
  | reset (root : String)
  | teardown
  deriving DecidableEq

def Payload.capability : Payload → Capability
  | .evaluate _ => .oracleEvaluate
  | .repair _ => .codecRepair
  | .mutate _ _ => .mutatorMutate
  | .next _ _ => .scenarioNext
  | .observeResponse _ _ => .scenarioObserveResponse
  | .setup _ => .lifecycleSetup
  | .reset _ => .lifecycleReset
  | .teardown => .lifecycleTeardown

structure Request where
  protocol : String
  case : CaseId
  payload : Payload

inductive ResultClass where
  | ok
  | reject
  | finding
  | unsupported
  | infrastructureError

/-- A response envelope; `J` is the type of JSON values. -/
structure Response (J : Type) where
  protocol : String
  case : CaseId
  result : ResultClass
  finding : Option FindingResult := none
  value : Option J := none
  detail : Option String := none

/-! ### Outcomes -/

/-- Why the extension, and never the target, is to blame. -/
inductive InfraFailure where
  | timeout (after : ℕ)
  | crashed (status signal : Option Int)
  | frameTooLarge (declared : UInt64) (cap : ℕ)
  | protocol (detail : String)
  | caseMismatch (expected got : CaseId)
  | extensionReported (detail : Option String)
  deriving DecidableEq

/-- The faults after which the child cannot be trusted any more. -/
def isTransportFault : InfraFailure → Bool
  | .timeout _ => true
  | .crashed _ _ => true
  | .frameTooLarge _ _ => true
  | .protocol _ => true
  | .caseMismatch _ _ => true
  | .extensionReported _ => false

inductive CallOutcome (J : Type) where
  | ok (value : Option J)
  | reject (detail : Option String)
  | finding (finding : FindingResult)
  | unsupported (detail : Option String)
  | infrastructure (failure : InfraFailure)
  deriving DecidableEq

/-- The transport fault of an outcome, if it is one. -/
def CallOutcome.transportFault {J : Type} : CallOutcome J → Option InfraFailure
  | .infrastructure failure => if isTransportFault failure then some failure else none
  | _ => none

/-- The outcome of a session that cannot be recovered. -/
def terminalCrash {J : Type} : CallOutcome J :=
  .infrastructure (.crashed none none)

/-! ### What the children do -/

/-- What the host gets where it waits for a frame. -/
inductive Received (J : Type) where
  | frame (response : Except String (Response J))
  | closed
  | frameTooLarge (declared : UInt64) (cap : ℕ)
  | wire (detail : String)
  | timeout

/-- The children behind the client, and the texts that other crates produce. Where the host waits
without a deadline, `none` says that it waits forever. -/
structure Peer (J : Type) where
  /-- Whether the `n`-th request can be written; if not, the pipe is broken. -/
  writes : ℕ → Option Bool
  /-- What is received for the `n`-th request written. -/
  received : ℕ → Received J
  /-- The status and the signal with which the child of the `n`-th request ends by itself. -/
  exits : ℕ → Option (Option Int × Option Int)
  /-- Whether the `n`-th restart spawns a child that completes the handshake. -/
  respawns : ℕ → Option Bool
  /-- The quoted form of a text (`{:?}`). -/
  debug : String → String

/-- Classify a decoded response against the request it answers. -/
def classifyResponse {J : Type} (debug : String → String) (request : Request) (protocol : String) :
    Except String (Response J) → CallOutcome J
  | .error err => .infrastructure (.protocol ("response was not a valid envelope: " ++ err))
  | .ok response =>
    if response.protocol ≠ protocol then
      .infrastructure (.protocol ("response protocol " ++ debug response.protocol ++
        " does not match negotiated " ++ debug protocol))
    else if response.case ≠ request.case then
      .infrastructure (.caseMismatch request.case response.case)
    else
      match response.result with
      | .ok => .ok response.value
      | .reject => .reject response.detail
      | .unsupported => .unsupported response.detail
      | .infrastructureError => .infrastructure (.extensionReported response.detail)
      | .finding =>
        match response.finding with
        | some finding => .finding finding
        | none => .infrastructure
            (.protocol "result was \"finding\" but no finding payload was attached")

/-! ### The client -/

/-- The restart accounting of a session. -/
structure RestartState where
  maxRestarts : ℕ
  restarts : ℕ := 0
  losses : ℕ := 0
  deriving DecidableEq

def RestartState.shouldRestart (restart : RestartState) : Bool :=
  restart.restarts < restart.maxRestarts

/-- The slots for requests in flight. -/
structure OutstandingGuard where
  max : ℕ
  inflight : ℕ := 0
  deriving DecidableEq

/-- The client. A session, while there is one, is with the child spawned last: `live` says whether
there is one and `child` is that child's number. -/
structure Client where
  protocol : String
  caps : List Capability
  callTimeout : ℕ
  restart : RestartState
  outstanding : OutstandingGuard
  live : Bool := true
  child : ℕ := 0
  lost : Bool := false
  deriving DecidableEq

inductive ExtensionError where
  | outstandingLimit (max : ℕ)
  deriving DecidableEq

/-- Why a computation of the host has no result: an error, or a wait that does not end. -/
inductive Stop where
  | error (error : ExtensionError)
  | blocked
  deriving DecidableEq

/-- How a call went: the transport faults met on the way, each of which cost a child, the child
that gave the answer, if one did, and what the caller was told. -/
structure CallRecord (J : Type) where
  faults : List InfraFailure
  child : Option ℕ
  outcome : CallOutcome J
  deriving DecidableEq

/-- What the session did, in order. -/
inductive Entry (J : Type) where
  | call (payload : Payload) (record : CallRecord J)
  | exchange (step : ℕ) (label : Option String) (message : Bytes)
      (response : Except String Bytes)
  deriving DecidableEq

/-- The client, the number of frames waited for so far, and the log. -/
structure World (J : Type) where
  client : Client
  attempts : ℕ := 0
  log : List (Entry J) := []
  deriving DecidableEq

/-- Computations of the host on the client. -/
abbrev Host (J : Type) : Type → Type :=
  StateExcept Stop (World J)

section Calls

variable {J : Type} (peer : Peer J)

def supports (capability : Capability) : Host J Bool := do
  return (← get).client.caps.contains capability

/-- Change the client and leave the rest. -/
def modifyClient (f : Client → Client) : Host J PUnit :=
  modify fun world ↦ { world with client := f world.client }

/-- Reserve a slot for a request. -/
def acquire : Host J PUnit := do
  let guard := (← get).client.outstanding
  if guard.inflight ≥ guard.max then
    throw (.error (.outstandingLimit guard.max))
  else
    modifyClient fun client ↦
      { client with outstanding := { guard with inflight := guard.inflight + 1 } }

def release : Host J PUnit :=
  modifyClient fun client ↦
    { client with outstanding :=
      { client.outstanding with inflight := client.outstanding.inflight - 1 } }

/-- Wait for the child of the `n`-th request, which was not killed, and report how it ended. -/
def crashFromChild (n : ℕ) : Option (CallOutcome J) :=
  (peer.exits n).map fun (status, signal) ↦ .infrastructure (.crashed status signal)

/-- Write the `n`-th request and classify what is received, if all of that returns. -/
def answerTo (client : Client) (request : Request) (n : ℕ) : Option (CallOutcome J) := do
  if ← peer.writes n then
    match peer.received n with
    | .frame response => some (classifyResponse peer.debug request client.protocol response)
    | .closed => crashFromChild peer n
    | .frameTooLarge declared cap => some (.infrastructure (.frameTooLarge declared cap))
    | .wire detail => some (.infrastructure (.protocol detail))
    | .timeout => some (.infrastructure (.timeout client.callTimeout))
  else
    crashFromChild peer n

def callInner (request : Request) : Host J (CallOutcome J) := do
  let world ← get
  set { world with attempts := world.attempts + 1 }
  match answerTo peer world.client request world.attempts with
  | none => throw .blocked
  | some outcome => return outcome

def tryCallOnce (request : Request) : Host J (CallOutcome J) := do
  acquire
  let outcome ← callInner peer request
  release
  return outcome

/-- Drop the session, which kills its child. -/
def teardownSession : Host J PUnit :=
  modifyClient fun client ↦ { client with live := false }

/-- One more restart, and one more child. -/
def Client.restarted (client : Client) : Client :=
  { client with
    restart := { client.restart with restarts := client.restart.restarts + 1 }
    child := client.child + 1 }

/-- Record a restart and respawn; says whether there is a session again. A child that fails its
handshake has a number too. -/
def restartChild : Host J Bool := do
  let restarts := (← get).client.restart.restarts
  modifyClient .restarted
  match peer.respawns restarts with
  | none => throw .blocked
  | some up =>
    modifyClient fun client ↦ { client with live := up }
    return up

/-- Nothing will bring the session back. -/
def loseSession : Host J PUnit :=
  modifyClient fun client ↦
    { client with
      lost := true
      restart := { client.restart with losses := client.restart.losses + 1 } }

/-- The child that holds the session. -/
def answeredBy : Host J (Option ℕ) := do
  return some (← get).client.child

/-- Put the request to the live child. A transport fault costs the child, and `retry` decides what
happens then; `faults` are those met before. -/
def attempt (request : Request) (faults : List InfraFailure)
    (retry : InfraFailure → CallOutcome J → Host J (CallRecord J)) : Host J (CallRecord J) := do
  let outcome ← tryCallOnce peer request
  match outcome.transportFault with
  | none => return ⟨faults, ← answeredBy, outcome⟩
  | some failure =>
    teardownSession
    retry failure outcome

/-- Put the request to the live child, and after a transport fault to a fresh one, as often as the
budget allows: so many restarts are left. -/
def callAlive (request : Request) : ℕ → List InfraFailure → Host J (CallRecord J)
  | 0, faults => attempt peer request faults fun failure outcome ↦ do
    loseSession
    return ⟨faults ++ [failure], none, outcome⟩
  | left + 1, faults => attempt peer request faults fun failure _ ↦ do
    if ← restartChild peer then
      callAlive request left (faults ++ [failure])
    else
      loseSession
      return ⟨faults ++ [failure], none, terminalCrash⟩

/-- The body of a call. -/
def callRecord (request : Request) : Host J (CallRecord J) := do
  let client := (← get).client
  let left := client.restart.maxRestarts - client.restart.restarts
  if client.lost then
    return ⟨[], none, terminalCrash⟩
  else if client.live then
    callAlive peer request left []
  else if client.restart.shouldRestart then
    if ← restartChild peer then
      callAlive peer request (left - 1) []
    else
      loseSession
      return ⟨[], none, terminalCrash⟩
  else
    modifyClient fun client ↦ { client with lost := true }
    return ⟨[], none, terminalCrash⟩

/-- Append to the log. -/
def logEntry (entry : Entry J) : Host J PUnit :=
  modify fun world ↦ { world with log := world.log ++ [entry] }

/-- Drive one exchange, restarting a child that was lost within the budget. -/
def call (case : CaseId) (payload : Payload) : Host J (CallOutcome J) := do
  let protocol := (← get).client.protocol
  let record ← callRecord peer ⟨protocol, case, payload⟩
  logEntry (.call payload record)
  return record.outcome

end Calls

/-! ### What a call leaves behind -/

section Specifications

open StateExcept

variable {J : Type} {peer : Peer J} {world world' : World J}

/-- What a step of the client that keeps its child cannot change. -/
structure Keeps (world world' : World J) : Prop where
  /-- Nothing is logged. -/
  log : world'.log = world.log
  /-- The capabilities stay. -/
  caps : world'.client.caps = world.client.caps
  /-- The child stays up, or down. -/
  live : world'.client.live = world.client.live
  /-- It is the same child. -/
  child : world'.client.child = world.client.child

variable {request : Request} {outcome : CallOutcome J} {faults : List InfraFailure}
  {record : CallRecord J}

/-- The computation waits forever. -/
def Blocked {α : Type} (m : Host J α) (world : World J) : Prop :=
  ∃ world', exec m world = (.error .blocked, world')

theorem Blocked.bind {α β : Type} {m : Host J α} {f : α → Host J β} (h : Blocked m world) :
    Blocked (m >>= f) world := by
  obtain ⟨world', h⟩ := h
  exact ⟨world', exec_bind_of_error h⟩

theorem Blocked.of_runs {α β : Type} {m : Host J α} {f : α → Host J β} {a : α}
    (hm : Runs m world a world') (h : Blocked (f a) world') : Blocked (m >>= f) world := by
  rw [Blocked, exec_bind, hm]
  exact h

theorem Blocked.not_runs {α : Type} {m : Host J α} (h : Blocked m world) (a : α)
    (world' : World J) : ¬Runs m world a world' := by
  obtain ⟨_, h⟩ := h
  simp [Runs, h]

theorem exec_callInner (world : World J) {answer : Option (CallOutcome J)}
    (h : answerTo peer world.client request world.attempts = answer) :
    exec (callInner peer request) world =
      (answer.elim (.error .blocked) .ok, { world with attempts := world.attempts + 1 }) := by
  rw [callInner, exec_get_bind, exec_set_bind, h]
  cases answer <;> rfl

/-- With a slot free the request is put to the child, and the slot is given back if it is
answered. -/
theorem exec_tryCallOnce (peer : Peer J) (request : Request)
    (hfree : world.client.outstanding.inflight < world.client.outstanding.max) :
    match answerTo peer world.client request world.attempts with
    | none => Blocked (tryCallOnce peer request) world
    | some outcome => Runs (tryCallOnce peer request) world outcome
        { world with attempts := world.attempts + 1 } := by
  let taken : World J := { world with client := { world.client with outstanding :=
    { world.client.outstanding with inflight := world.client.outstanding.inflight + 1 } } }
  have hacquire : Runs (acquire : Host J PUnit) world ⟨⟩ taken := by
    simp [Runs, acquire, modifyClient, Nat.not_le.mpr hfree, taken]
  -- What is read of the client is not the slot that was taken.
  cases h : answerTo peer world.client request world.attempts with
  | none => exact .of_runs hacquire (.bind ⟨_, exec_callInner taken h⟩)
  | some outcome => exact hacquire.bind (Runs.bind (exec_callInner taken h) rfl)

/-- A slot is taken and given back, and a frame is waited for; the child stays the same. -/
theorem keeps_of_runs_tryCallOnce (h : Runs (tryCallOnce peer request) world outcome world') :
    Keeps world world' := by
  by_cases hfull : world.client.outstanding.inflight ≥ world.client.outstanding.max
  · have hexec : exec (tryCallOnce peer request) world =
        (.error (.error (.outstandingLimit world.client.outstanding.max)), world) :=
      exec_bind_of_error (by simp [acquire, hfull])
    rw [Runs, hexec] at h
    simp at h
  · have hrun := exec_tryCallOnce peer request (Nat.not_le.mp hfull)
    split at hrun
    · exact absurd h (hrun.not_runs outcome world')
    · obtain ⟨-, rfl⟩ := h.unique hrun
      exact ⟨rfl, rfl, rfl, rfl⟩

/-- How a call changes the client it is made on. -/
structure Answers (before : Client) (record : CallRecord J) (after : Client) : Prop where
  /-- The capabilities stay. -/
  caps : after.caps = before.caps
  /-- An answer comes from the child that is then live. -/
  holds : ∀ child, record.child = some child → after.live = true ∧ after.child = child
  /-- **Each fault on the way has moved on by one child.** -/
  moved : before.live = true → ∀ child, record.child = some child →
    child = before.child + record.faults.length
  /-- Without an answer the outcome is an infrastructure one. -/
  unanswered : record.child = none → ∃ failure, record.outcome = .infrastructure failure

theorem Answers.of_unanswered {before after : Client} (hcaps : after.caps = before.caps)
    (houtcome : ∃ failure, outcome = .infrastructure failure) :
    Answers before ⟨faults, none, outcome⟩ after :=
  ⟨hcaps, by simp, by simp, fun _ ↦ houtcome⟩

theorem exists_of_transportFault_eq_some {failure : InfraFailure}
    (h : outcome.transportFault = some failure) : ∃ failure, outcome = .infrastructure failure := by
  cases outcome with
  | infrastructure failure => exact ⟨failure, rfl⟩
  | _ => simp [CallOutcome.transportFault] at h

/-- A restart moves on to the next child, unless that one does not take its hello. -/
theorem exec_restartChild (peer : Peer J) (world : World J) :
    match peer.respawns world.client.restart.restarts with
    | none => Blocked (restartChild peer) world
    | some up => Runs (restartChild peer) world up
        { world with client := { world.client.restarted with live := up } } := by
  have hexec : exec (restartChild peer) world =
      exec (match peer.respawns world.client.restart.restarts with
        | none => throw .blocked
        | some up => do
          modifyClient fun client ↦ { client with live := up }
          return up) { world with client := world.client.restarted } := rfl
  rw [Blocked]
  simp only [Runs, hexec]
  cases peer.respawns world.client.restart.restarts with
  | none => exact ⟨_, rfl⟩
  | some up => rfl

theorem runs_restartChild {up : Bool} (h : Runs (restartChild peer) world up world') :
    world'.log = world.log ∧ world'.client.caps = world.client.caps ∧
      world'.client.live = up ∧ world'.client.child = world.client.child + 1 := by
  have hrun := exec_restartChild peer world
  split at hrun
  · exact absurd h (hrun.not_runs up world')
  · obtain ⟨rfl, rfl⟩ := h.unique hrun
    exact ⟨rfl, rfl, rfl, rfl⟩

/-- An attempt is answered, or its child is gone. -/
theorem runs_attempt {retry : InfraFailure → CallOutcome J → Host J (CallRecord J)}
    (hlive : world.client.live)
    (h : Runs (attempt peer request faults retry) world record world') :
    (world'.log = world.log ∧ record.faults = faults ∧
      Answers world.client ⟨[], record.child, record.outcome⟩ world'.client) ∨
    ∃ failure outcome w₁, Runs (retry failure outcome) w₁ record world' ∧ w₁.log = world.log ∧
      w₁.client.caps = world.client.caps ∧ w₁.client.child = world.client.child ∧
      ∃ failure, outcome = .infrastructure failure := by
  obtain ⟨outcome, w₁, h₁, h⟩ := runs_bind_iff.mp h
  have hkeeps := keeps_of_runs_tryCallOnce h₁
  cases hfault : outcome.transportFault with
  | none =>
    simp only [hfault] at h
    obtain ⟨⟩ := h
    refine .inl ⟨hkeeps.log, rfl, hkeeps.caps, ?_, ?_, by simp⟩
    · rintro _ ⟨⟩
      exact ⟨hkeeps.live.trans hlive, rfl⟩
    · rintro - _ ⟨⟩
      exact hkeeps.child
  | some failure =>
    simp only [hfault] at h
    obtain ⟨_, w₂, h₂, h⟩ := runs_bind_iff.mp h
    obtain ⟨⟩ := h₂
    exact .inr ⟨failure, outcome, _, h, hkeeps.log, hkeeps.caps, hkeeps.child,
      exists_of_transportFault_eq_some hfault⟩

/-- Each round of the retry loop either ends the call or moves on to the next child with one more
fault on record. -/
theorem runs_callAlive {left : ℕ} (hlive : world.client.live)
    (h : Runs (callAlive peer request left faults) world record world') :
    world'.log = world.log ∧ ∃ met, record.faults = faults ++ met ∧
      Answers world.client ⟨met, record.child, record.outcome⟩ world'.client := by
  induction left generalizing world faults with
  | zero =>
    rcases runs_attempt hlive h with
      ⟨hlog, hfaults, hanswers⟩ | ⟨failure, outcome, w₁, h, hlog, hcaps, -, houtcome⟩
    · exact ⟨hlog, [], by simp [hfaults], hanswers⟩
    · obtain ⟨⟩ := h
      exact ⟨hlog, [failure], rfl, .of_unanswered hcaps houtcome⟩
  | succ left ih =>
    rcases runs_attempt hlive h with
      ⟨hlog, hfaults, hanswers⟩ | ⟨failure, outcome, w₁, h, hlog, hcaps, hchild, -⟩
    · exact ⟨hlog, [], by simp [hfaults], hanswers⟩
    · obtain ⟨up, w₂, h₂, h⟩ := runs_bind_iff.mp h
      obtain ⟨hlog₂, hcaps₂, hup, hchild₂⟩ := runs_restartChild h₂
      cases up with
      | false =>
        obtain ⟨⟩ := h
        exact ⟨hlog₂.trans hlog, [failure], rfl, .of_unanswered (hcaps₂.trans hcaps) ⟨_, rfl⟩⟩
      | true =>
        obtain ⟨hlog₃, met, hfaults, hmet⟩ := ih hup h
        refine ⟨hlog₃.trans (hlog₂.trans hlog), failure :: met, by simp [hfaults],
          hmet.caps.trans (hcaps₂.trans hcaps), hmet.holds, fun _ c hc ↦ ?_, hmet.unanswered⟩
        have hmoved : c = w₂.client.child + met.length := hmet.moved hup c hc
        rw [List.length_cons]
        omega

theorem runs_callRecord (h : Runs (callRecord peer request) world record world') :
    world'.log = world.log ∧ Answers world.client record world'.client := by
  obtain ⟨_, _, ⟨⟩, h⟩ := runs_bind_iff.mp h
  cases hlost : world.client.lost with
  | true =>
    simp only [hlost] at h
    obtain ⟨⟩ := h
    exact ⟨rfl, .of_unanswered rfl ⟨_, rfl⟩⟩
  | false =>
    simp only [hlost] at h
    cases hlive : world.client.live with
    | true =>
      simp only [hlive] at h
      obtain ⟨hlog, met, hfaults, hmet⟩ := runs_callAlive hlive h
      obtain rfl : record.faults = met := hfaults
      exact ⟨hlog, hmet⟩
    | false =>
      simp only [hlive] at h
      cases hrestart : world.client.restart.shouldRestart with
      | false =>
        simp only [hrestart] at h
        obtain ⟨⟩ := h
        exact ⟨rfl, .of_unanswered rfl ⟨_, rfl⟩⟩
      | true =>
        simp only [hrestart] at h
        obtain ⟨up, w₁, h₁, h⟩ := runs_bind_iff.mp h
        obtain ⟨hlog, hcaps, hup, -⟩ := runs_restartChild h₁
        cases up with
        | false =>
          obtain ⟨⟩ := h
          exact ⟨hlog, .of_unanswered hcaps ⟨_, rfl⟩⟩
        | true =>
          obtain ⟨hlog', met, -, hmet⟩ := runs_callAlive hup h
          refine ⟨hlog'.trans hlog, hmet.caps.trans hcaps, hmet.holds, ?_, hmet.unanswered⟩
          simp [hlive]

/-- **A call logs itself and nothing else**, with the answer its caller is given. -/
theorem runs_call {case : CaseId} {payload : Payload}
    (h : Runs (call peer case payload) world outcome world') :
    ∃ record, world'.log = world.log ++ [.call payload record] ∧ record.outcome = outcome ∧
      Answers world.client record world'.client := by
  obtain ⟨_, _, ⟨⟩, h⟩ := runs_bind_iff.mp h
  obtain ⟨record, w₁, h₁, h⟩ := runs_bind_iff.mp h
  obtain ⟨hlog, hanswers⟩ := runs_callRecord h₁
  obtain ⟨⟩ := h
  refine ⟨record, ?_, rfl, hanswers⟩
  show w₁.log ++ _ = _
  rw [hlog]

end Specifications

end Bhf.ExtensionHost
