import Bhf.ExtensionHost.Session

/-!
# The traces of a session

Each stage of the driver appends a stretch to the log (`Emits`). What the stretch looks like and
what it does to the outcome is said stage by stage, for every behaviour of the extension and the
target: a request is made once or not at all (`Asked`), a scenario is a sequence of numbered rounds
of which only the last can break off (`Rounds`), and a stage **records the first fault of its own
stretch** unless one is on record (`Records`). `SessionTrace` puts the stages together.
-/

namespace Bhf.ExtensionHost

open StateExcept List Entry

variable {J : Type}

/-! ### Reading a log -/

/-- What an entry of the log is about. -/
inductive Tag where
  | setup
  | reset
  | next (step : ℕ)
  | mutate
  | repair
  | exchange (step : ℕ)
  | observe (step : ℕ)
  | evaluate
  | teardown
  deriving DecidableEq

def Payload.tag : Payload → Tag
  | .evaluate _ => .evaluate
  | .repair _ => .repair
  | .mutate _ _ => .mutate
  | .next step _ => .next step
  | .observeResponse step _ => .observe step
  | .setup _ => .setup
  | .reset _ => .reset
  | .teardown => .teardown

def Entry.tag : Entry J → Tag
  | .call payload _ => payload.tag
  | .exchange step _ _ _ => .exchange step

def ScenarioStep.failure : ScenarioStep → Option InfraFailure
  | .unsupported detail => some (.extensionReported detail)
  | .infrastructure failure => some failure
  | _ => none

def BytesOutcome.failure : BytesOutcome → Option InfraFailure
  | .infrastructure failure => some failure
  | _ => none

def EvaluateOutcome.failure : EvaluateOutcome → Option InfraFailure
  | .infrastructure failure => some failure
  | _ => none

/-- The fault an answer to a request counts as. -/
def Payload.fault (values : Values J) (outcome : CallOutcome J) : Payload → Option InfraFailure
  | .evaluate _ => (evaluateOutcomeFrom outcome).failure
  | .repair _ => (bytesOutcomeFrom values .codecRepair outcome).failure
  | .mutate _ _ => (bytesOutcomeFrom values .mutatorMutate outcome).failure
  | .next _ _ => (scenarioStepFrom values outcome).failure
  | .observeResponse _ _ => (ackFrom .scenarioObserveResponse outcome).failure
  | .setup _ => (ackFrom .lifecycleSetup outcome).refusal
  | .reset _ => (ackFrom .lifecycleReset outcome).refusal
  | .teardown => (ackFrom .lifecycleTeardown outcome).failure

/-- The error of a result. -/
def errorOf {ε α : Type} : Except ε α → Option ε
  | .error e => some e
  | .ok _ => none

def Entry.fault (values : Values J) : Entry J → Option InfraFailure
  | .call payload record => payload.fault values record.outcome
  | .exchange _ _ _ response => (errorOf response).map targetFailure

/-- The first fault in a log. -/
def firstFault (values : Values J) (log : List (Entry J)) : Option InfraFailure :=
  log.findSome? (Entry.fault values)

theorem firstFault_append (values : Values J) (log log' : List (Entry J)) :
    firstFault values (log ++ log') = (firstFault values log).or (firstFault values log') :=
  findSome?_append

@[simp]
theorem firstFault_nil (values : Values J) : firstFault values [] = none :=
  rfl

@[simp]
theorem firstFault_singleton (values : Values J) (entry : Entry J) :
    firstFault values [entry] = entry.fault values := by
  cases h : entry.fault values <;> simp [firstFault, h]

/-! ### The shape of a session -/

/-- How a message is relayed at a step. -/
def Relay (step : ℕ) (tags : List Tag) : Prop :=
  ∃ mutate repair observe, (mutate = [] ∨ mutate = [.mutate]) ∧ (repair = [] ∨ repair = [.repair]) ∧
    (observe = [] ∨ observe = [.observe step]) ∧
    tags = mutate ++ repair ++ [.exchange step] ++ observe

/-- A whole round of the scenario. -/
def Round (step : ℕ) (tags : List Tag) : Prop :=
  ∃ relay, Relay step relay ∧ tags = .next step :: relay

/-- A round that may break off, but not before it has asked for its message. -/
def Broken (step : ℕ) (tags : List Tag) : Prop :=
  ∃ relay, Relay step relay ∧ ∃ part, part <+: relay ∧ tags = .next step :: part

/-- The rounds from `step` on, at most `left` of them: all are whole but the last. -/
inductive Rounds : ℕ → ℕ → List Tag → Prop where
  | nil (step left : ℕ) : Rounds step left []
  | last {step left : ℕ} {tags : List Tag} (h : Broken step tags) : Rounds step (left + 1) tags
  | more {step left : ℕ} {tags rest : List Tag} (h : Round step tags)
      (hrest : Rounds (step + 1) left rest) : Rounds step (left + 1) (tags ++ rest)

/-- The calls of a session in order. -/
def Ordered (maxSteps : ℕ) (tags : List Tag) : Prop :=
  ∃ setup reset rounds evaluate teardown, (setup = [] ∨ setup = [.setup]) ∧
    (reset = [] ∨ reset = [.reset]) ∧ Rounds 0 maxSteps rounds ∧
    (evaluate = [] ∨ evaluate = [.evaluate]) ∧ (teardown = [] ∨ teardown = [.teardown]) ∧
    tags = setup ++ reset ++ rounds ++ evaluate ++ teardown

/-- The tags of a round. -/
def Tag.InRound : Tag → Prop
  | .next _ | .mutate | .repair | .exchange _ | .observe _ => True
  | .setup | .reset | .evaluate | .teardown => False

variable {step : ℕ} {tags : List Tag}

theorem Relay.inRound (h : Relay step tags) : ∀ tag ∈ tags, tag.InRound := by
  obtain ⟨mutate, repair, observe, hmutate, hrepair, hobserve, rfl⟩ := h
  rcases hmutate with rfl | rfl <;> rcases hrepair with rfl | rfl <;>
    rcases hobserve with rfl | rfl <;> simp [Tag.InRound]

theorem Round.inRound (h : Round step tags) : ∀ tag ∈ tags, tag.InRound := by
  obtain ⟨relay, hrelay, rfl⟩ := h
  exact forall_mem_cons.mpr ⟨trivial, hrelay.inRound⟩

theorem Broken.inRound (h : Broken step tags) : ∀ tag ∈ tags, tag.InRound := by
  obtain ⟨relay, hrelay, part, hpart, rfl⟩ := h
  exact forall_mem_cons.mpr ⟨trivial, fun tag htag ↦ hrelay.inRound tag (hpart.mem htag)⟩

theorem Rounds.inRound {left : ℕ} (h : Rounds step left tags) : ∀ tag ∈ tags, tag.InRound := by
  induction h with
  | nil => simp
  | last h => exact h.inRound
  | more h _ ih =>
    intro tag htag
    exact (mem_append.mp htag).elim (h.inRound tag) (ih tag)

/-! ### Traces -/

/-- The client before and after a stretch of the log. -/
inductive Linked : Client → List (Entry J) → Client → Prop where
  | nil (client : Client) : Linked client [] client
  | call {before after last : Client} {payload : Payload} {record : CallRecord J}
      {log : List (Entry J)} (h : Answers before record after) (hlog : Linked after log last) :
      Linked before (.call payload record :: log) last
  | exchange {before last : Client} {step : ℕ} {label : Option String} {message : Bytes}
      {response : Except String Bytes} {log : List (Entry J)}
      (hlog : Linked before log last) :
      Linked before (.exchange step label message response :: log) last

theorem Linked.append {before after last : Client} {log log' : List (Entry J)}
    (h : Linked before log after) (h' : Linked after log' last) :
    Linked before (log ++ log') last := by
  induction h with
  | nil => exact h'
  | call hrecord _ ih => exact .call hrecord (ih h')
  | exchange _ ih => exact .exchange (ih h')

/-- The capabilities are negotiated once. -/
theorem Linked.caps {before after : Client} {log : List (Entry J)} (h : Linked before log after) :
    after.caps = before.caps := by
  induction h with
  | nil => rfl
  | call hrecord _ ih => exact ih.trans hrecord.caps
  | exchange _ ih => exact ih

/-- A stretch of the session that appends `trace` to the log. -/
structure Emits (world : World J) (trace : List (Entry J)) (world' : World J) : Prop where
  /-- The log has grown by the trace. -/
  log : world'.log = world.log ++ trace
  /-- The child has changed as the trace says. -/
  linked : Linked world.client trace world'.client

theorem Emits.refl (world : World J) : Emits world [] world :=
  ⟨by simp, .nil _⟩

theorem Emits.trans {w₁ w₂ w₃ : World J} {trace trace' : List (Entry J)} (h : Emits w₁ trace w₂)
    (h' : Emits w₂ trace' w₃) : Emits w₁ (trace ++ trace') w₃ :=
  ⟨by rw [h'.log, h.log, append_assoc], h.linked.append h'.linked⟩

theorem Emits.caps {world world' : World J} {trace : List (Entry J)}
    (h : Emits world trace world') : world'.client.caps = world.client.caps :=
  h.linked.caps

section Stages

variable {setting : Setting J} {world world' : World J} {payload : Payload}
  {bytes : Bytes} {result : Except InfraFailure (Bytes × Bool)} {step : ℕ} {values : Values J}
  {outcome outcome' : SessionOutcome} {trace : List (Entry J)} {goesOn : Bool}

theorem emits_request {outcome : CallOutcome J}
    (h : Runs (request setting payload) world outcome world') :
    ∃ record : CallRecord J, record.outcome = outcome ∧
      Emits world [.call payload record] world' := by
  obtain ⟨record, hlog, houtcome, hanswers⟩ := runs_call h
  exact ⟨record, houtcome, hlog, .call hanswers (.nil _)⟩

/-- The trace of a request that is made only if it is supported. -/
inductive Asked (caps : List Capability) (payload : Payload) :
    Option (CallOutcome J) → List (Entry J) → Prop where
  | skipped (h : payload.capability ∉ caps) : Asked caps payload none []
  | made (h : payload.capability ∈ caps) (record : CallRecord J) :
      Asked caps payload (some record.outcome) [.call payload record]

theorem emits_requestIfSupported {answer : Option (CallOutcome J)}
    (h : Runs (requestIfSupported setting payload) world answer world') :
    ∃ trace, Emits world trace world' ∧ Asked world.client.caps payload answer trace := by
  obtain ⟨supported, _, ⟨⟩, h⟩ := runs_bind_iff.mp h
  by_cases hcaps : payload.capability ∈ world.client.caps
  · simp only [contains_iff_mem.mpr hcaps] at h
    obtain ⟨outcome, w₁, h₁, h⟩ := runs_bind_iff.mp h
    obtain ⟨⟩ := h
    obtain ⟨record, rfl, hemits⟩ := emits_request h₁
    exact ⟨_, hemits, .made hcaps record⟩
  · have hcontains : world.client.caps.contains payload.capability = false := by simpa using hcaps
    simp only [hcontains] at h
    obtain ⟨⟩ := h
    exact ⟨[], .refl _, .skipped hcaps⟩

/-- A rewriting is at most one request, whose fault is the error. -/
theorem emits_rewriteMessage
    (hpayload : ∀ outcome : CallOutcome J, payload.fault setting.values outcome =
      (bytesOutcomeFrom setting.values payload.capability outcome).failure)
    (h : Runs (rewriteMessage setting payload bytes) world result world') :
    ∃ trace, Emits world trace world' ∧
      (trace.map tag = [] ∨ trace.map tag = [payload.tag]) ∧
      firstFault setting.values trace = errorOf result := by
  obtain ⟨answer, w₁, h₁, h⟩ := runs_bind_iff.mp h
  obtain ⟨trace, hemits, hasked⟩ := emits_requestIfSupported h₁
  cases hasked with
  | skipped =>
    obtain ⟨⟩ := h
    exact ⟨[], hemits, .inl rfl, rfl⟩
  | made _ record =>
    cases hbytes : bytesOutcomeFrom setting.values payload.capability record.outcome with
    | _ =>
      simp only [hbytes] at h
      obtain ⟨⟩ := h
      refine ⟨_, hemits, .inr rfl, ?_⟩
      simp [fault, hpayload, hbytes, BytesOutcome.failure, errorOf]

theorem emits_mutateMessage (h : Runs (mutateMessage setting bytes) world result world') :
    ∃ trace, Emits world trace world' ∧
      (trace.map tag = [] ∨ trace.map tag = [.mutate]) ∧
      firstFault setting.values trace = errorOf result := by
  unfold mutateMessage at h
  cases hseed : setting.options.mutateSeed with
  | none =>
    simp only [hseed] at h
    obtain ⟨⟩ := h
    exact ⟨[], .refl _, .inl rfl, rfl⟩
  | some seed =>
    simp only [hseed] at h
    exact emits_rewriteMessage (fun _ ↦ rfl) h

theorem emits_repairMessage (h : Runs (repairMessage setting bytes) world result world') :
    ∃ trace, Emits world trace world' ∧
      (trace.map tag = [] ∨ trace.map tag = [.repair]) ∧
      firstFault setting.values trace = errorOf result := by
  unfold repairMessage at h
  cases hrepair : setting.options.repair with
  | false =>
    simp only [hrepair] at h
    obtain ⟨⟩ := h
    exact ⟨[], .refl _, .inl rfl, rfl⟩
  | true =>
    simp only [hrepair] at h
    exact emits_rewriteMessage (fun _ ↦ rfl) h

theorem emits_observeResponse {response : Bytes} {result : Option InfraFailure}
    (h : Runs (observeResponse setting step response) world result world') :
    ∃ trace, Emits world trace world' ∧
      (trace.map tag = [] ∨ trace.map tag = [.observe step]) ∧
      firstFault setting.values trace = result := by
  obtain ⟨answer, w₁, h₁, h⟩ := runs_bind_iff.mp h
  obtain ⟨trace, hemits, hasked⟩ := emits_requestIfSupported h₁
  cases hasked with
  | skipped =>
    obtain ⟨⟩ := h
    exact ⟨[], hemits, .inl rfl, rfl⟩
  | made _ record =>
    obtain ⟨⟩ := h
    exact ⟨_, hemits, .inr rfl, by simp [fault, Payload.fault]⟩

/-- What a stage does to the outcome. -/
structure Records (values : Values J) (outcome : SessionOutcome) (trace : List (Entry J))
    (outcome' : SessionOutcome) : Prop where
  /-- The first fault of the trace is recorded, unless one is on record. -/
  infrastructure :
    outcome'.infrastructure = outcome.infrastructure.or (firstFault values trace)
  /-- No finding is reported. -/
  finding : outcome'.finding = outcome.finding

theorem Records.fault {failure : InfraFailure} (h : firstFault values trace = some failure) :
    Records values outcome trace (outcome.fault failure) :=
  ⟨by rw [h]; rfl, rfl⟩

theorem Records.of_none (h : firstFault values trace = none)
    (hinfra : outcome'.infrastructure = outcome.infrastructure)
    (hfinding : outcome'.finding = outcome.finding) : Records values outcome trace outcome' :=
  ⟨by rw [h, hinfra, Option.or_none], hfinding⟩

theorem Records.trans {outcome'' : SessionOutcome} {trace' : List (Entry J)}
    (h : Records values outcome trace outcome') (h' : Records values outcome' trace' outcome'') :
    Records values outcome (trace ++ trace') outcome'' := by
  refine ⟨?_, h'.finding.trans h.finding⟩
  rw [h'.infrastructure, h.infrastructure, firstFault_append, Option.or_assoc]

theorem emits_sendMessage {label : Option String} {sent : Bytes} {mutated repaired : Bool}
    (h : Runs (sendMessage setting step label sent mutated repaired outcome) world
      (outcome', goesOn) world') :
    ∃ trace, Emits world trace world' ∧ Records setting.values outcome trace outcome' ∧
      ∃ observe, (observe = [] ∨ observe = [.observe step]) ∧
        trace.map tag = .exchange step :: observe := by
  obtain ⟨response, w₁, h₁, h⟩ := runs_bind_iff.mp h
  have hemits : Emits world [.exchange step label sent response] w₁ := by
    obtain ⟨⟩ := h₁
    exact ⟨rfl, .exchange (.nil _)⟩
  cases response with
  | error err =>
    obtain ⟨⟩ := h
    exact ⟨_, hemits, .fault (firstFault_singleton _ _), [], .inl rfl, rfl⟩
  | ok response =>
    obtain ⟨failure, w₂, h₂, h⟩ := runs_bind_iff.mp h
    obtain ⟨trace, hemits', htags, hfault⟩ := emits_observeResponse h₂
    have hexchange : Records setting.values outcome [.exchange step label sent (.ok response)]
        { outcome with
          steps := outcome.steps ++ [⟨step, label, sent, mutated, repaired, response⟩] } :=
      .of_none rfl rfl rfl
    cases failure with
    | some failure =>
      obtain ⟨⟩ := h
      exact ⟨_, hemits.trans hemits', hexchange.trans (.fault hfault), _, htags, rfl⟩
    | none =>
      obtain ⟨⟩ := h
      exact ⟨_, hemits.trans hemits', hexchange.trans (.of_none hfault rfl rfl), _, htags, rfl⟩

/-- A message is relayed to the end unless rewriting it fails. -/
theorem emits_relayMessage {message : ScenarioMessage}
    (h : Runs (relayMessage setting step message outcome) world (outcome', goesOn) world') :
    ∃ trace, Emits world trace world' ∧ Records setting.values outcome trace outcome' ∧
      ∃ relay, Relay step relay ∧ trace.map tag <+: relay ∧
        (goesOn → trace.map tag = relay) := by
  obtain ⟨mutation, w₁, h₁, h⟩ := runs_bind_iff.mp h
  obtain ⟨t₁, hemits₁, htags₁, hfault₁⟩ := emits_mutateMessage h₁
  cases mutation with
  | error failure =>
    obtain ⟨⟩ := h
    exact ⟨t₁, hemits₁, .fault hfault₁, _, ⟨_, [], [], htags₁, .inl rfl, .inl rfl, rfl⟩,
      by simp, by simp⟩
  | ok rewritten =>
    obtain ⟨repair, w₂, h₂, h⟩ := runs_bind_iff.mp h
    obtain ⟨t₂, hemits₂, htags₂, hfault₂⟩ := emits_repairMessage h₂
    have hemits := hemits₁.trans hemits₂
    have hfault : firstFault setting.values (t₁ ++ t₂) = errorOf repair := by
      rw [firstFault_append, hfault₁, hfault₂]
      rfl
    cases repair with
    | error failure =>
      obtain ⟨⟩ := h
      refine ⟨_, hemits, .fault hfault, _, ⟨_, _, [], htags₁, htags₂, .inl rfl, rfl⟩, ?_, by simp⟩
      simp
    | ok sent =>
      obtain ⟨t₃, hemits₃, hrecords, observe, hobserve, htags₃⟩ := emits_sendMessage h
      have htags : (t₁ ++ t₂ ++ t₃).map tag =
          t₁.map tag ++ t₂.map tag ++ [.exchange step] ++ observe := by
        simp [htags₃]
      exact ⟨_, hemits.trans hemits₃, (Records.of_none hfault rfl rfl).trans hrecords, _,
        ⟨_, _, _, htags₁, htags₂, hobserve, htags⟩, prefix_rfl, fun _ ↦ rfl⟩

/-- One round of the scenario. -/
theorem emits_driveStep
    (h : Runs (driveStep setting step outcome) world (outcome', goesOn) world') :
    ∃ trace, Emits world trace world' ∧ Records setting.values outcome trace outcome' ∧
      Broken step (trace.map tag) ∧ (goesOn → Round step (trace.map tag)) := by
  obtain ⟨answer, w₁, h₁, h⟩ := runs_bind_iff.mp h
  obtain ⟨record, rfl, hemits⟩ := emits_request h₁
  have hbroken : Broken step ([.call (nextPayload setting step) record].map tag) :=
    ⟨_, ⟨[], [], [], .inl rfl, .inl rfl, .inl rfl, rfl⟩, [], nil_prefix, rfl⟩
  have hfault : firstFault setting.values [.call (nextPayload setting step) record] =
      (scenarioStepFrom setting.values record.outcome).failure := firstFault_singleton _ _
  cases hnext : scenarioStepFrom setting.values record.outcome with
  | message message =>
    simp only [hnext] at h
    obtain ⟨trace, hemits', hrecords, relay, hrelay, hprefix, hwhole⟩ := emits_relayMessage h
    rw [hnext] at hfault
    exact ⟨_, hemits.trans hemits', (Records.of_none hfault rfl rfl).trans hrecords,
      ⟨relay, hrelay, _, hprefix, rfl⟩, fun hgoes ↦ ⟨relay, hrelay, by rw [← hwhole hgoes]; rfl⟩⟩
  | done | reject =>
    simp only [hnext] at h
    obtain ⟨⟩ := h
    rw [hnext] at hfault
    exact ⟨_, hemits, .of_none hfault rfl rfl, hbroken, by simp⟩
  | unsupported | infrastructure =>
    simp only [hnext] at h
    obtain ⟨⟩ := h
    rw [hnext] at hfault
    exact ⟨_, hemits, .fault hfault, hbroken, by simp⟩

/-- The whole scenario, by induction on the rounds left. -/
theorem emits_driveScenario {left : ℕ}
    (h : Runs (driveScenario setting left step outcome) world outcome' world') :
    ∃ trace, Emits world trace world' ∧ Records setting.values outcome trace outcome' ∧
      Rounds step left (trace.map tag) := by
  induction left generalizing world step outcome with
  | zero =>
    obtain ⟨⟩ := h
    exact ⟨[], .refl _, .of_none rfl rfl rfl, .nil _ _⟩
  | succ left ih =>
    obtain ⟨⟨outcome₁, goesOn⟩, w₁, h₁, h⟩ := runs_bind_iff.mp h
    obtain ⟨trace, hemits, hrecords, hbroken, hround⟩ := emits_driveStep h₁
    cases goesOn with
    | false =>
      obtain ⟨⟩ := h
      exact ⟨trace, hemits, hrecords, .last hbroken⟩
    | true =>
      obtain ⟨rest, hemits', hrecords', hrounds⟩ := ih h
      refine ⟨trace ++ rest, hemits.trans hemits', hrecords.trans hrecords', ?_⟩
      rw [map_append]
      exact .more (hround rfl) hrounds

theorem emits_scenario (h : Runs (scenario setting outcome) world outcome' world') :
    ∃ trace, Emits world trace world' ∧ Records setting.values outcome trace outcome' ∧
      Rounds 0 setting.options.maxSteps (trace.map tag) := by
  obtain ⟨supported, _, ⟨⟩, h⟩ := runs_bind_iff.mp h
  cases hcaps : world.client.caps.contains .scenarioNext with
  | true =>
    simp only [hcaps] at h
    exact emits_driveScenario h
  | false =>
    simp only [hcaps] at h
    obtain ⟨⟩ := h
    exact ⟨[], .refl _, .of_none rfl rfl rfl, .nil _ _⟩

/-! ### Opening, judging and closing -/

/-- The refusal in an answer, if the request was made. -/
def refusalOf (payload : Payload) (answer : Option (CallOutcome J)) : Option InfraFailure :=
  answer.bind fun outcome ↦ (ackFrom payload.capability outcome).refusal

theorem emits_acknowledged {result : Option InfraFailure}
    (h : Runs (acknowledged setting payload) world result world') :
    ∃ trace answer, Emits world trace world' ∧ Asked world.client.caps payload answer trace ∧
      result = refusalOf payload answer := by
  obtain ⟨answer, w₁, h₁, h⟩ := runs_bind_iff.mp h
  obtain ⟨trace, hemits, hasked⟩ := emits_requestIfSupported h₁
  cases hasked with
  | skipped hcaps =>
    obtain ⟨⟩ := h
    exact ⟨[], none, hemits, .skipped hcaps, rfl⟩
  | made hcaps record =>
    obtain ⟨⟩ := h
    exact ⟨_, _, hemits, .made hcaps record, rfl⟩

/-- The outcome after an evaluation. -/
def SessionOutcome.judgedBy (outcome : SessionOutcome) (answer : CallOutcome J) : SessionOutcome :=
  match evaluateOutcomeFrom answer with
  | .finding finding => { outcome with oracleRan := true, finding := some finding }
  | .infrastructure failure => { outcome with oracleRan := true }.fault failure
  | .ok => { outcome with oracleRan := true }
  | .reject _ => { outcome with oracleRan := true }
  | .unsupported _ => { outcome with oracleRan := true }

/-- The trace of the judgement: an evaluation is made only while there is no fault on record. -/
inductive Judged (setting : Setting J) (outcome : SessionOutcome) :
    List (Entry J) → SessionOutcome → Prop where
  | skipped : Judged setting outcome [] outcome
  | made (h : outcome.infrastructure = none) (record : CallRecord J) :
      Judged setting outcome [.call (.evaluate setting.testcase) record]
        (outcome.judgedBy record.outcome)

theorem emits_judge (h : Runs (judge setting outcome) world outcome' world') :
    ∃ trace, Emits world trace world' ∧ Judged setting outcome trace outcome' := by
  unfold judge at h
  by_cases hnone : outcome.infrastructure = none
  · rw [if_pos hnone] at h
    obtain ⟨answer, w₁, h₁, h⟩ := runs_bind_iff.mp h
    obtain ⟨trace, hemits, hasked⟩ := emits_requestIfSupported h₁
    cases hasked with
    | skipped =>
      obtain ⟨⟩ := h
      exact ⟨[], hemits, .skipped⟩
    | made _ record =>
      have hjudged : outcome' = outcome.judgedBy record.outcome ∧ world' = w₁ := by
        unfold SessionOutcome.judgedBy
        cases heval : evaluateOutcomeFrom record.outcome with
        | _ =>
          simp only [heval] at h ⊢
          obtain ⟨⟩ := h
          exact ⟨rfl, rfl⟩
      obtain ⟨rfl, rfl⟩ := hjudged
      exact ⟨_, hemits, .made hnone record⟩
  · rw [if_neg hnone] at h
    obtain ⟨⟩ := h
    exact ⟨[], .refl _, .skipped⟩

theorem emits_tearDown (h : Runs (tearDown setting outcome) world outcome' world') :
    ∃ trace answer, Emits world trace world' ∧ Asked world.client.caps .teardown answer trace ∧
      outcome' = outcome.faults (firstFault setting.values trace) := by
  obtain ⟨answer, w₁, h₁, h⟩ := runs_bind_iff.mp h
  obtain ⟨trace, hemits, hasked⟩ := emits_requestIfSupported h₁
  cases hasked with
  | skipped hcaps =>
    obtain ⟨⟩ := h
    exact ⟨[], none, hemits, .skipped hcaps, rfl⟩
  | made hcaps record =>
    obtain ⟨⟩ := h
    refine ⟨_, _, hemits, .made hcaps record, ?_⟩
    rw [firstFault_singleton]
    rfl

/-! ### Whole sessions -/

/-- The traces a session leaves: it stops at a refused setup, at a refused reset, or goes through
all its stages. -/
inductive SessionTrace (setting : Setting J) (caps : List Capability) :
    List (Entry J) → SessionOutcome → Prop where
  | setupRefused {setup : List (Entry J)} {answer : Option (CallOutcome J)} {failure : InfraFailure}
      (hsetup : Asked caps (.setup (some setting.root)) answer setup)
      (hrefused : refusalOf (.setup (some setting.root)) answer = some failure) :
      SessionTrace setting caps setup (({} : SessionOutcome).fault failure)
  | resetRefused {setup reset : List (Entry J)} {answer answer' : Option (CallOutcome J)}
      {failure : InfraFailure} (hsetup : Asked caps (.setup (some setting.root)) answer setup)
      (hacked : refusalOf (.setup (some setting.root)) answer = none)
      (hreset : Asked caps (.reset setting.root) answer' reset)
      (hrefused : refusalOf (.reset setting.root) answer' = some failure) :
      SessionTrace setting caps (setup ++ reset) (({} : SessionOutcome).fault failure)
  | driven {setup reset rounds judged torn : List (Entry J)}
      {answer answer' answer'' : Option (CallOutcome J)} {outcome outcome' : SessionOutcome}
      (hsetup : Asked caps (.setup (some setting.root)) answer setup)
      (hacked : refusalOf (.setup (some setting.root)) answer = none)
      (hreset : Asked caps (.reset setting.root) answer' reset)
      (hacked' : refusalOf (.reset setting.root) answer' = none)
      (hrounds : Rounds 0 setting.options.maxSteps (rounds.map Entry.tag))
      (hrecords : Records setting.values {} rounds outcome)
      (hjudged : Judged setting outcome judged outcome')
      (htorn : Asked caps .teardown answer'' torn) :
      SessionTrace setting caps (setup ++ reset ++ rounds ++ judged ++ torn)
        (outcome'.faults (firstFault setting.values torn))

theorem emits_run (h : Runs (run setting) world outcome world') :
    ∃ trace, Emits world trace world' ∧ SessionTrace setting world.client.caps trace outcome := by
  obtain ⟨refused, w₁, h₁, h⟩ := runs_bind_iff.mp h
  obtain ⟨setup, answer, hemits₁, hsetup, rfl⟩ := emits_acknowledged h₁
  cases hacked : refusalOf (.setup (some setting.root)) answer with
  | some failure =>
    simp only [hacked] at h
    obtain ⟨⟩ := h
    exact ⟨setup, hemits₁, .setupRefused hsetup hacked⟩
  | none =>
    simp only [hacked] at h
    obtain ⟨refused', w₂, h₂, h⟩ := runs_bind_iff.mp h
    obtain ⟨reset, answer', hemits₂, hreset, rfl⟩ := emits_acknowledged h₂
    rw [hemits₁.caps] at hreset
    have hopened := hemits₁.trans hemits₂
    cases hacked' : refusalOf (.reset setting.root) answer' with
    | some failure =>
      simp only [hacked'] at h
      obtain ⟨⟩ := h
      exact ⟨_, hopened, .resetRefused hsetup hacked hreset hacked'⟩
    | none =>
      simp only [hacked'] at h
      obtain ⟨outcome₁, w₃, h₃, h⟩ := runs_bind_iff.mp h
      obtain ⟨rounds, hemits₃, hrecords, hrounds⟩ := emits_scenario h₃
      obtain ⟨outcome₂, w₄, h₄, h⟩ := runs_bind_iff.mp h
      obtain ⟨judged, hemits₄, hjudged⟩ := emits_judge h₄
      obtain ⟨torn, answer'', hemits₅, htorn, rfl⟩ := emits_tearDown h
      have hdriven := (hopened.trans hemits₃).trans hemits₄
      rw [hdriven.caps] at htorn
      exact ⟨_, hdriven.trans hemits₅,
        .driven hsetup hacked hreset hacked' hrounds hrecords hjudged htorn⟩

end Stages

end Bhf.ExtensionHost
