import Bhf.ExtensionHost.Client

/-!
# Bounded restarts

A client lives through any number of calls, and each of them meets whatever the children do. It
stays `Sound`: it has put up **one child for each restart** after the first, within the budget, and
no slot is taken between calls. The counter of restarts never goes down, so one made with the budget
used up would still show in it.

That a call returns is another matter. Each round of the retry loop ends unless its child leaves the
host waiting without a deadline, and a call comes back from every `Responsive` peer
(`call_bounded`); a child that closes its output and lives on is enough to hold it forever
(`call_blocked_by_living_child`).
-/

namespace Bhf.ExtensionHost

open StateExcept

variable {J : Type} {peer : Peer J} {request : Request} {world : World J} {left : ℕ}
  {faults : List InfraFailure} {start client : Client}

/-- The host never waits forever on these children. -/
structure Peer.Responsive (peer : Peer J) : Prop where
  /-- Every request can be written or meets a broken pipe. -/
  writes : ∀ n, peer.writes n ≠ none
  /-- A child that cannot be written to, or has closed its output, ends. -/
  exits : ∀ n, peer.writes n = some false ∨ peer.received n = .closed → peer.exits n ≠ none
  /-- Every fresh child takes the host's hello or fails. -/
  respawns : ∀ n, peer.respawns n ≠ none

theorem Peer.Responsive.answerTo_ne_none (h : peer.Responsive) (n : ℕ) :
    answerTo peer client request n ≠ none := by
  have hwrites := h.writes n
  have hexits := h.exits n
  cases hwrite : peer.writes n with
  | none => contradiction
  | some written =>
    simp only [answerTo, crashFromChild, hwrite, Option.bind_eq_bind, Option.bind_some]
    cases written with
    | false => simpa using hexits (.inl hwrite)
    | true =>
      cases hreceived : peer.received n with
      | closed => simpa using hexits (.inr hreceived)
      | _ => simp

/-- For one of the requests from the `first` on and before the `last` a child has answered the case,
in the protocol agreed on, with this finding. -/
def Reported (peer : Peer J) (first last : ℕ) (protocol : String) (case : CaseId)
    (finding : FindingResult) : Prop :=
  ∃ n response, first ≤ n ∧ n < last ∧ peer.writes n = some true ∧
    peer.received n = .frame (.ok response) ∧ response.protocol = protocol ∧
    response.case = case ∧ response.result = .finding ∧ response.finding = some finding

/-- What holds of a client that was `start` once, with so many restarts left at least. -/
structure Client.Sound (start : Client) (left : ℕ) (client : Client) : Prop where
  /-- The protocol is the one agreed on. -/
  protocol : client.protocol = start.protocol
  /-- The slots are as they were. -/
  outstanding : client.outstanding = start.outstanding
  /-- One of them is free. -/
  free : start.outstanding.inflight < start.outstanding.max
  /-- The budget is as it was. -/
  budget : client.restart.maxRestarts = start.restart.maxRestarts
  /-- There was one more child than restarts. -/
  child : client.child = client.restart.restarts
  /-- The restarts made and those left are within the budget. -/
  within : client.restart.restarts + left ≤ start.restart.maxRestarts

/-- The computation waits forever on a child, or it returns and the client is sound. A fault it
returns has cost the session, and a finding was reported to it. -/
def Ends (peer : Peer J) (start : Client) (request : Request) (m : Host J (CallRecord J))
    (world : World J) : Prop :=
  (¬peer.Responsive ∧ Blocked m world) ∨
  ∃ record world', Runs m world record world' ∧ start.Sound 0 world'.client ∧
    (record.outcome.transportFault = none ∨ world'.client.lost) ∧
    ∀ finding, record.outcome = .finding finding →
      Reported peer world.attempts world'.attempts start.protocol request.case finding

/-- A finding is what the child reported. -/
theorem reported_of_answerTo {finding : FindingResult}
    (h : answerTo peer world.client request world.attempts = some (.finding finding)) :
    Reported peer world.attempts (world.attempts + 1) world.client.protocol request.case
      finding := by
  rw [answerTo] at h
  cases hwrite : peer.writes world.attempts with
  | none => simp [hwrite] at h
  | some written =>
    cases written with
    | false => simp [hwrite, crashFromChild] at h
    | true =>
      cases hreceived : peer.received world.attempts with
      | frame frame =>
        simp only [hwrite, hreceived, Option.bind_eq_bind, Option.bind_some, if_true,
          Option.some.injEq] at h
        cases frame with
        | error err => contradiction
        | ok response =>
          simp only [classifyResponse] at h
          split_ifs at h with hprotocol hcase
          refine ⟨_, response, Nat.le_refl _, Nat.lt_succ_self _, hwrite, hreceived,
            not_not.mp hprotocol, not_not.mp hcase, ?_⟩
          cases hresult : response.result <;> cases hresponse : response.finding <;> simp_all
      | _ => simp [hwrite, hreceived, crashFromChild] at h

theorem Client.Sound.spent (h : start.Sound left client) : start.Sound 0 client :=
  { h with within := Nat.le_of_add_right_le h.within }

/-- An attempt is answered, or its fault goes to `retry` without the child. -/
theorem ends_attempt {retry : InfraFailure → CallOutcome J → Host J (CallRecord J)}
    (h : start.Sound left world.client)
    (hretry : ∀ failure failure', Ends peer start request (retry failure (.infrastructure failure'))
      ⟨{ world.client with live := false }, world.attempts + 1, world.log⟩) :
    Ends peer start request (attempt peer request faults retry) world := by
  have hrun := exec_tryCallOnce peer request (h.outstanding ▸ h.free)
  cases hanswer : answerTo peer world.client request world.attempts with
  | none =>
    simp only [hanswer] at hrun
    exact .inl ⟨fun hpeer ↦ hpeer.answerTo_ne_none _ hanswer, hrun.bind⟩
  | some outcome =>
    simp only [hanswer] at hrun
    cases hfault : outcome.transportFault with
    | none =>
      refine .inr ⟨⟨faults, some world.client.child, outcome⟩,
        { world with attempts := world.attempts + 1 }, hrun.bind ?_, h.spent, .inl hfault, ?_⟩
      · simp only [hfault]
        rfl
      · rintro finding rfl
        exact h.protocol ▸ reported_of_answerTo hanswer
    | some failure =>
      obtain ⟨failure', rfl⟩ := exists_of_transportFault_eq_some hfault
      rcases hretry failure failure' with
        ⟨hpeer, hblocked⟩ | ⟨record, world', hretry, h', hlost, hreported⟩
      · refine .inl ⟨hpeer, .of_runs hrun ?_⟩
        simp only [hfault]
        exact .of_runs rfl hblocked
      · refine .inr ⟨record, world', hrun.bind ?_, h', hlost, fun finding hfinding ↦ ?_⟩
        · simp only [hfault]
          exact Runs.bind rfl hretry
        · obtain ⟨n, response, hfirst, hanswered⟩ := hreported finding hfinding
          exact ⟨n, response, Nat.le_of_succ_le hfirst, hanswered⟩

/-- A restart puts the next child up, or the session is lost. -/
theorem ends_restart (h : start.Sound (left + 1) world.client)
    (hnext : ∀ world : World J, start.Sound left world.client →
      Ends peer start request (callAlive peer request left faults) world) :
    Ends peer start request (do
      if ← restartChild peer then
        callAlive peer request left faults
      else
        loseSession
        return ⟨faults, none, terminalCrash⟩) world := by
  have hwithin : world.client.restart.restarts + 1 + left ≤ start.restart.maxRestarts := by
    have := h.within
    omega
  have hrun := exec_restartChild peer world
  have hw (up : Bool) : start.Sound left { world.client.restarted with live := up } :=
    { h with child := congrArg (· + 1) h.child, within := hwithin }
  cases hrespawns : peer.respawns world.client.restart.restarts with
  | none =>
    simp only [hrespawns] at hrun
    exact .inl ⟨fun hpeer ↦ hpeer.respawns _ hrespawns, hrun.bind⟩
  | some up =>
    simp only [hrespawns] at hrun
    cases up with
    | false => exact .inr ⟨_, _, hrun.bind rfl, { (hw false).spent with }, .inr rfl, nofun⟩
    | true =>
      rcases hnext { world with client := { world.client.restarted with live := true } }
        (hw true) with ⟨hpeer, hblocked⟩ | ⟨record, world', hnext, h'⟩
      · exact .inl ⟨hpeer, .of_runs hrun hblocked⟩
      · exact .inr ⟨record, world', hrun.bind hnext, h'⟩

/-- The retry loop comes to an end within the restarts left, **or waits on a child forever**. -/
theorem ends_callAlive (h : start.Sound left world.client) :
    Ends peer start request (callAlive peer request left faults) world := by
  induction left generalizing world faults with
  | zero => exact ends_attempt h fun _ _ ↦ .inr ⟨_, _, rfl, { h with }, .inr rfl, nofun⟩
  | succ left ih => exact ends_attempt h fun _ _ ↦ ends_restart { h with } fun _ ↦ ih

theorem ends_callRecord (h : start.Sound 0 world.client) :
    Ends peer start request (callRecord peer request) world := by
  have hwithin := h.within
  have hget : ∀ {f}, Ends peer start request (f world) world →
      Ends peer start request (get >>= f) world := id
  refine hget ?_
  simp only [h.budget]
  split_ifs with hlost hlive hrestart
  · exact .inr ⟨_, world, rfl, h, .inr hlost, nofun⟩
  · exact ends_callAlive { h with within := by omega }
  · have hleft : world.client.restart.restarts < start.restart.maxRestarts := by
      simpa [RestartState.shouldRestart, h.budget] using hrestart
    exact ends_restart { h with within := by omega } fun _ ↦ ends_callAlive
  · exact .inr ⟨_, _, rfl, { h with }, .inr rfl, nofun⟩

/-! ### Any number of calls -/

/-- The client after its handshake. -/
def connected (protocol : String) (caps : List Capability)
    (callTimeout maxRestarts maxOutstanding : ℕ) : World J where
  client := {
    protocol := protocol
    caps := caps
    callTimeout := callTimeout
    restart := { maxRestarts := maxRestarts }
    outstanding := { max := max maxOutstanding 1 } }

/-- Calls one after the other. -/
def callAll (peer : Peer J) (calls : List (CaseId × Payload)) : Host J PUnit :=
  calls.forM fun (case, payload) ↦ do
    let _ ← call peer case payload

theorem ends_call (peer : Peer J) (case : CaseId) (payload : Payload)
    (h : start.Sound 0 world.client) :
    (¬peer.Responsive ∧ Blocked (call peer case payload) world) ∨
    ∃ outcome world', Runs (call peer case payload) world outcome world' ∧
      start.Sound 0 world'.client ∧ (outcome.transportFault = none ∨ world'.client.lost) ∧
      ∀ finding, outcome = .finding finding →
        Reported peer world.attempts world'.attempts start.protocol case finding := by
  let request : Request := ⟨world.client.protocol, case, payload⟩
  have hends : Ends peer start request (callRecord peer request) world := ends_callRecord h
  rcases hends with ⟨hpeer, hblocked⟩ | ⟨record, world', hrun, h', hends⟩
  · exact .inl ⟨hpeer, .of_runs rfl hblocked.bind⟩
  · exact .inr ⟨record.outcome, _, Runs.bind rfl (hrun.bind rfl), h', hends⟩

theorem ends_callAll (peer : Peer J) (calls : List (CaseId × Payload))
    (h : start.Sound 0 world.client) :
    (¬peer.Responsive ∧ Blocked (callAll peer calls) world) ∨
    ∃ world', Runs (callAll peer calls) world ⟨⟩ world' ∧ start.Sound 0 world'.client := by
  induction calls generalizing world with
  | nil => exact .inr ⟨world, rfl, h⟩
  | cons head calls ih =>
    rcases ends_call peer head.1 head.2 h with ⟨hpeer, hblocked⟩ | ⟨_, w₁, hrun, h₁, -⟩
    · exact .inl ⟨hpeer, hblocked.bind.bind⟩
    · have hfirst : Runs (do let _ ← call peer head.1 head.2) world ⟨⟩ w₁ := hrun.bind rfl
      rcases ih h₁ with ⟨hpeer, hblocked⟩ | ⟨w₂, hrest, h₂⟩
      · exact .inl ⟨hpeer, .of_runs hfirst hblocked⟩
      · exact .inr ⟨w₂, hfirst.bind hrest, h₂⟩

/-- **Restarts are bounded.** Calls on a fresh client all return if no child leaves the host waiting
forever. Whatever the children do, when a call has returned each restart so far found budget left,
so that at most `maxRestarts + 1` children were spawned; a fault that is returned has lost the
session, which stays lost and spawns nothing; the slot taken was free and is free again; and a
finding is from a proper answer to one of the requests of this call. -/
theorem call_bounded (peer : Peer J) (protocol : String) (caps : List Capability)
    (callTimeout maxRestarts maxOutstanding : ℕ) (calls : List (CaseId × Payload)) (case : CaseId)
    (payload : Payload) :
    (peer.Responsive → ∃ world outcome world',
      Runs (callAll peer calls) (connected protocol caps callTimeout maxRestarts maxOutstanding) ⟨⟩
        world ∧
      Runs (call peer case payload) world outcome world') ∧
    ∀ world outcome world',
      Runs (callAll peer calls) (connected protocol caps callTimeout maxRestarts maxOutstanding) ⟨⟩
        world →
      Runs (call peer case payload) world outcome world' →
      (∀ n < world'.client.restart.restarts,
        ({ world'.client.restart with restarts := n } : RestartState).shouldRestart) ∧
      world'.client.child + 1 ≤ maxRestarts + 1 ∧
      (outcome.transportFault = none ∨ world'.client.lost) ∧
      (world.client.lost → outcome = terminalCrash ∧ world'.client = world.client) ∧
      world.client.outstanding.inflight + 1 ≤ world.client.outstanding.max ∧
      world'.client.outstanding = world.client.outstanding ∧
      ∀ finding, outcome = .finding finding →
        Reported peer world.attempts world'.attempts protocol case finding := by
  let first : World J := connected protocol caps callTimeout maxRestarts maxOutstanding
  have hfirst : first.client.Sound 0 first.client :=
    ⟨rfl, rfl, Nat.le_max_right _ 1, rfl, rfl, maxRestarts.zero_le⟩
  have hcalls := ends_callAll peer calls hfirst
  constructor
  · intro hpeer
    obtain ⟨hblocked, -⟩ | ⟨world, hcalls, h⟩ := hcalls
    · contradiction
    obtain ⟨hblocked, -⟩ | ⟨outcome, world', hrun, -⟩ := ends_call peer case payload h
    · contradiction
    · exact ⟨world, outcome, world', hcalls, hrun⟩
  · intro world outcome world' hworld hrun
    obtain ⟨-, hblocked⟩ | ⟨_, hcalls, h⟩ := hcalls
    · exact absurd hworld (hblocked.not_runs _ _)
    obtain ⟨-, rfl⟩ := hworld.unique hcalls
    obtain ⟨-, hblocked⟩ | ⟨_, _, hcall, h', hfault, hreported⟩ := ends_call peer case payload h
    · exact absurd hrun (hblocked.not_runs _ _)
    obtain ⟨rfl, rfl⟩ := hrun.unique hcall
    have hwithin : world'.client.restart.restarts ≤ maxRestarts := h'.within
    refine ⟨fun n hn ↦ ?_, ?_, hfault, fun hlost ↦ ?_, h.outstanding ▸ h.free,
      h'.outstanding.trans h.outstanding.symm, hreported⟩
    · have hbudget : world'.client.restart.maxRestarts = maxRestarts := h'.budget
      simp only [RestartState.shouldRestart, decide_eq_true_eq]
      omega
    · rw [h'.child]
      omega
    · have hrecord : Runs (callRecord peer ⟨world.client.protocol, case, payload⟩) world
          ⟨[], none, terminalCrash⟩ world := by
        simp [Runs, callRecord, hlost]
      obtain ⟨rfl, rfl⟩ := hrun.unique (Runs.bind rfl (hrecord.bind rfl))
      exact ⟨rfl, rfl⟩

/-- Children that read what they are sent, close their output, and end so if at all. -/
def closingChildren (exit : Option (Option Int × Option Int)) : Peer Unit where
  writes _ := some true
  received _ := .closed
  exits _ := exit
  respawns _ := some true
  debug := id

/-- Three children crash over two calls, which return all the same. -/
theorem call_returns_from_crashing_children :
    ∃ world outcome world',
      Runs (callAll (closingChildren (some (some 1, none))) [(⟨"c", "w", "t"⟩, .evaluate [7])])
        (connected "v1" [.oracleEvaluate] 5 2 1) ⟨⟩ world ∧
      Runs (call (closingChildren (some (some 1, none))) ⟨"c", "w", "u"⟩ (.evaluate []))
        world outcome world' := by
  refine (call_bounded (closingChildren (some (some 1, none))) "v1" [.oracleEvaluate] 5 2 1
    [(⟨"c", "w", "t"⟩, .evaluate [7])] ⟨"c", "w", "u"⟩ (.evaluate [])).1 ⟨?_, ?_, ?_⟩
  all_goals simp [closingChildren]

/-- A child that closes its output and lives on holds the first call forever. -/
theorem call_blocked_by_living_child :
    ¬∃ outcome world', Runs (call (closingChildren none) ⟨"c", "w", "t"⟩ (.evaluate []))
      (connected "v1" [.oracleEvaluate] 5 2 1) outcome world' := by
  let first : World Unit := connected "v1" [.oracleEvaluate] 5 2 1
  let request : Request := ⟨"v1", ⟨"c", "w", "t"⟩, .evaluate []⟩
  have hattempt : Blocked (tryCallOnce (closingChildren none) request) first :=
    exec_tryCallOnce (closingChildren none) request (by decide)
  have hcall : Blocked (call (closingChildren none) request.case request.payload) first :=
    .of_runs rfl (.bind (.of_runs rfl hattempt.bind))
  rintro ⟨outcome, world', hrun⟩
  exact hcall.not_runs outcome world' hrun

end Bhf.ExtensionHost
