import Bhf.ExtensionHost.SessionOrder

/-!
# The session protocol

Whatever the extension and the target do, the log of a session has one shape (`Ordered`): a setup, a
reset, numbered rounds of `next`, `mutate`, `repair`, `exchange` and `observe`, an evaluation and a
teardown. The recorded fault is **the first one in the log** (`firstFault`), an evaluation is made
only while there is none, and a finding is always one that an evaluation returned.

The teardown is the exception. Once setup is acknowledged the session holds whatever setup
allocated, and the driver still returns without a teardown when the reset is not acknowledged
(`ResetRefused`); in every other run a teardown that is offered is called exactly once.
-/

namespace Bhf.ExtensionHost

open StateExcept List Payload

variable {J : Type}

/-! ### The protocol -/

section Protocol

variable {setting : Setting J} {caps : List Capability} {log : List (Entry J)}
  {outcome : SessionOutcome}

/-- The extension has acknowledged the setup. -/
def SetupAcked (log : List (Entry J)) : Prop :=
  ∃ root record, .call (.setup root) record ∈ log ∧ ackFrom .lifecycleSetup record.outcome = .ok

/-- What a session promises about its log and its outcome. -/
structure SessionProtocol (setting : Setting J) (caps : List Capability) (log : List (Entry J))
    (outcome : SessionOutcome) : Prop where
  /-- The calls come in order, and there are no more rounds than the options allow. -/
  ordered : Ordered setting.options.maxSteps (log.map Entry.tag)
  /-- The fault on record is the first one met. -/
  recorded : outcome.infrastructure = firstFault setting.values log
  /-- Nothing has faulted before an evaluation. -/
  judged : ∀ pre entry post, log = pre ++ entry :: post → entry.tag = .evaluate →
    firstFault setting.values pre = none
  /-- A finding is one that an evaluation returned. -/
  found : ∀ finding, outcome.finding = some finding → ∃ input record,
    .call (.evaluate input) record ∈ log ∧ record.outcome = .finding finding
  /-- What was set up is torn down, once. -/
  cleaned : SetupAcked log → .lifecycleTeardown ∈ caps → (log.map Entry.tag).count .teardown = 1

/-- **The run that does not clean up**: setup is acknowledged, a teardown is offered, and the reset
is answered by something other than an acknowledgement. -/
def ResetRefused (caps : List Capability) (log : List (Entry J)) : Prop :=
  SetupAcked log ∧ .lifecycleTeardown ∈ caps ∧
    ∃ root record, .call (.reset root) record ∈ log ∧ ackFrom .lifecycleReset record.outcome ≠ .ok

/-! ### Reading the stages -/

variable {payload : Payload} {answer : Option (CallOutcome J)} {entry : Entry J}
  {outcome' : SessionOutcome}

theorem refusalOf_some_eq_none_iff {answer : CallOutcome J} :
    refusalOf payload (some answer) = none ↔ ackFrom payload.capability answer = .ok := by
  show (ackFrom payload.capability answer).refusal = none ↔ _
  cases ackFrom payload.capability answer <;> simp [AckOutcome.refusal]

theorem Asked.tags (h : Asked caps payload answer log) :
    log.map Entry.tag = [] ∨ log.map Entry.tag = [payload.tag] := by
  cases h with
  | skipped => exact .inl rfl
  | made => exact .inr rfl

theorem Asked.eq_of_mem (h : Asked caps payload answer log) (hentry : entry ∈ log) :
    ∃ record, entry = .call payload record ∧ answer = some record.outcome := by
  cases h with
  | skipped => simp at hentry
  | made _ record => exact ⟨record, mem_singleton.mp hentry, rfl⟩

theorem Asked.tag_of_mem (h : Asked caps payload answer log) (hentry : entry ∈ log) :
    entry.tag = payload.tag := by
  obtain ⟨record, rfl, -⟩ := h.eq_of_mem hentry
  rfl

theorem Asked.firstFault_setup {root : Option String} (h : Asked caps (.setup root) answer log)
    (values : Values J) : firstFault values log = refusalOf (.setup root) answer := by
  cases h with
  | skipped => rfl
  | made => exact firstFault_singleton _ _

theorem Asked.firstFault_reset {root : String} (h : Asked caps (.reset root) answer log)
    (values : Values J) : firstFault values log = refusalOf (.reset root) answer := by
  cases h with
  | skipped => rfl
  | made => exact firstFault_singleton _ _

theorem Judged.tags (h : Judged setting outcome log outcome') :
    log.map Entry.tag = [] ∨ log.map Entry.tag = [.evaluate] := by
  cases h with
  | skipped => exact .inl rfl
  | made => exact .inr rfl

theorem Judged.tag_of_mem (h : Judged setting outcome log outcome') (hentry : entry ∈ log) :
    entry.tag = .evaluate := by
  cases h with
  | skipped => simp at hentry
  | made => rw [mem_singleton.mp hentry]; rfl

theorem Judged.infrastructure (h : Judged setting outcome log outcome') :
    outcome'.infrastructure = outcome.infrastructure.or (firstFault setting.values log) := by
  cases h with
  | skipped => simp
  | made hnone record =>
    rw [SessionOutcome.judgedBy]
    cases heval : evaluateOutcomeFrom record.outcome <;>
      simp [Entry.fault, fault, heval, EvaluateOutcome.failure, SessionOutcome.fault]

theorem infrastructure_faults (failure : Option InfraFailure) :
    (outcome.faults failure).infrastructure = outcome.infrastructure.or failure := by
  cases failure with
  | none => rw [Option.or_none]; rfl
  | some failure => rfl

theorem SessionTrace.ordered (h : SessionTrace setting caps log outcome) :
    Ordered setting.options.maxSteps (log.map Entry.tag) := by
  cases h with
  | setupRefused hsetup =>
    exact ⟨_, [], [], [], [], hsetup.tags, .inl rfl, .nil _ _, .inl rfl, .inl rfl, by simp⟩
  | resetRefused hsetup _ hreset =>
    exact ⟨_, _, [], [], [], hsetup.tags, hreset.tags, .nil _ _, .inl rfl, .inl rfl, by simp⟩
  | driven hsetup _ hreset _ hrounds _ hjudged htorn =>
    exact ⟨_, _, _, _, _, hsetup.tags, hreset.tags, hrounds, hjudged.tags, htorn.tags, by simp⟩

theorem SessionTrace.recorded (h : SessionTrace setting caps log outcome) :
    outcome.infrastructure = firstFault setting.values log := by
  cases h with
  | setupRefused hsetup hrefused =>
    rw [hsetup.firstFault_setup, hrefused]
    rfl
  | resetRefused hsetup hacked hreset hrefused =>
    rw [firstFault_append, hsetup.firstFault_setup, hreset.firstFault_reset, hacked, hrefused]
    rfl
  | driven hsetup hacked hreset hacked' _ hrecords hjudged =>
    rw [infrastructure_faults, hjudged.infrastructure, hrecords.infrastructure]
    simp [firstFault_append, hsetup.firstFault_setup, hreset.firstFault_reset, hacked, hacked',
      Option.or_assoc]

/-- The only element with a property is in one place. -/
theorem eq_of_append_cons_eq {α : Type} {P : α → Prop} {a b pre post : List α} {e e' : α}
    (h : a ++ e :: b = pre ++ e' :: post) (ha : ∀ x ∈ a, ¬ P x) (hb : ∀ x ∈ b, ¬ P x) (he' : P e') :
    pre = a := by
  rcases append_eq_append_iff.mp h with ⟨between, rfl, hrest⟩ | ⟨between, rfl, hrest⟩
  · cases between with
    | nil => simp
    | cons x between =>
      obtain ⟨-, rfl⟩ := cons.inj hrest
      exact absurd he' (hb e' (by simp))
  · cases between with
    | nil => simp
    | cons x between =>
      obtain ⟨rfl, -⟩ := cons.inj hrest
      exact absurd he' (ha e' (by simp))

theorem Rounds.entry_inRound {step left : ℕ} (h : Rounds step left (log.map Entry.tag))
    (hentry : entry ∈ log) : entry.tag.InRound :=
  h.inRound _ (mem_map_of_mem hentry)

/-- Before the evaluation nothing but the acknowledged opening and the rounds has happened. -/
theorem SessionTrace.judged (h : SessionTrace setting caps log outcome) {pre post : List (Entry J)}
    (hlog : log = pre ++ entry :: post) (hentry : entry.tag = .evaluate) :
    firstFault setting.values pre = none := by
  have hmem : entry ∈ log := hlog ▸ by simp
  cases h with
  | setupRefused hsetup =>
    exact absurd (hentry.symm.trans (hsetup.tag_of_mem hmem)) (by simp [tag])
  | resetRefused hsetup _ hreset =>
    rcases mem_append.mp hmem with hmem | hmem
    · exact absurd (hentry.symm.trans (hsetup.tag_of_mem hmem)) (by simp [tag])
    · exact absurd (hentry.symm.trans (hreset.tag_of_mem hmem)) (by simp [tag])
  | @driven setup reset rounds judged torn _ _ _ _ _ hsetup hacked hreset hacked' hrounds hrecords
      hjudged htorn =>
    have hbefore : ∀ e ∈ setup ++ reset ++ rounds, ¬ e.tag = .evaluate := by
      intro e he hevaluate
      simp only [mem_append] at he
      rcases he with (he | he) | he
      · exact absurd (hevaluate.symm.trans (hsetup.tag_of_mem he)) (by simp [tag])
      · exact absurd (hevaluate.symm.trans (hreset.tag_of_mem he)) (by simp [tag])
      · have hround := hrounds.entry_inRound he
        rw [hevaluate] at hround
        exact hround
    have hafter : ∀ e ∈ torn, ¬ e.tag = .evaluate := by
      intro e he hevaluate
      exact absurd (hevaluate.symm.trans (htorn.tag_of_mem he)) (by simp [tag])
    cases hjudged with
    | skipped =>
      rw [append_nil] at hmem
      exact absurd hentry ((mem_append.mp hmem).elim (hbefore entry) (hafter entry))
    | made hnone record =>
      rw [append_assoc _] at hlog
      rw [eq_of_append_cons_eq hlog hbefore hafter hentry]
      rw [hrecords.infrastructure] at hnone
      simp [firstFault_append, hsetup.firstFault_setup, hreset.firstFault_reset, hacked, hacked',
        hnone]

theorem finding_faults (failure : Option InfraFailure) :
    (outcome.faults failure).finding = outcome.finding := by
  cases failure <;> rfl

theorem SessionTrace.found (h : SessionTrace setting caps log outcome) {finding : FindingResult}
    (hfinding : outcome.finding = some finding) :
    ∃ input record, .call (.evaluate input) record ∈ log ∧ record.outcome = .finding finding := by
  cases h with
  | setupRefused | resetRefused => simp [SessionOutcome.fault] at hfinding
  | driven _ _ _ _ _ hrecords hjudged =>
    rw [finding_faults] at hfinding
    cases hjudged with
    | skipped => simp [hrecords.finding] at hfinding
    | made _ record =>
      refine ⟨setting.testcase, record, by simp, ?_⟩
      have hnone := hrecords.finding
      unfold SessionOutcome.judgedBy at hfinding
      generalize record.outcome = answer at hfinding ⊢
      cases answer <;> simp_all [evaluateOutcomeFrom, SessionOutcome.fault]

/-! ### The teardown -/

theorem Rounds.count_teardown {step left : ℕ} {tags : List Tag} (h : Rounds step left tags) :
    tags.count .teardown = 0 :=
  count_eq_zero.mpr fun hmem ↦ h.inRound _ hmem

theorem Asked.count_teardown (h : Asked caps payload answer log)
    (hpayload : payload.tag ≠ .teardown) : (log.map Entry.tag).count .teardown = 0 := by
  rcases h.tags with h | h
  · rw [h]
    rfl
  · rw [h, count_singleton, if_neg (by simpa using hpayload)]

/-- **A session cleans up unless its reset is refused.** -/
theorem SessionTrace.cleaned_iff (h : SessionTrace setting caps log outcome) :
    (SetupAcked log → .lifecycleTeardown ∈ caps → (log.map Entry.tag).count .teardown = 1) ↔
      ¬ ResetRefused caps log := by
  cases h with
  | setupRefused hsetup hrefused =>
    refine iff_of_true ?_ ?_
    · rintro ⟨root, record, hmem, hack⟩
      obtain ⟨record', ⟨⟩, rfl⟩ := hsetup.eq_of_mem hmem
      have hacked : refusalOf (.setup (some setting.root)) (some record.outcome) = none :=
        refusalOf_some_eq_none_iff.mpr hack
      simp [hacked] at hrefused
    · rintro ⟨-, -, root, record, hmem, -⟩
      obtain ⟨record', heq, -⟩ := hsetup.eq_of_mem hmem
      simp at heq
  | @resetRefused setup reset _ answer' _ hsetup _ hreset hrefused =>
    have hcount : ((setup ++ reset).map Entry.tag).count .teardown = 0 := by
      rw [map_append, count_append, hsetup.count_teardown (by simp [tag]),
        hreset.count_teardown (by simp [tag])]
    have hnot : ∃ root record, .call (.reset root) record ∈ setup ++ reset ∧
        ackFrom .lifecycleReset record.outcome ≠ .ok := by
      cases hreset with
      | skipped => simp [refusalOf] at hrefused
      | made _ record =>
        refine ⟨setting.root, record, by simp, fun hack ↦ ?_⟩
        have hacked : refusalOf (.reset setting.root) (some record.outcome) = none :=
          refusalOf_some_eq_none_iff.mpr hack
        simp [hacked] at hrefused
    rw [hcount]
    refine ⟨fun hclean ⟨hack, hcaps, _⟩ ↦ ?_, fun hnot' hack hcaps ↦ ?_⟩
    · exact absurd (hclean hack hcaps) (by simp)
    · exact absurd ⟨hack, hcaps, hnot⟩ hnot'
  | @driven setup reset rounds judged torn _ _ _ _ _ hsetup _ hreset hacked' hrounds _ hjudged
      htorn =>
    refine iff_of_true (fun _ hcaps ↦ ?_) ?_
    · have hjudged' : (judged.map Entry.tag).count .teardown = 0 := by
        rcases hjudged.tags with h | h <;> rw [h] <;> rfl
      have htorn' : (torn.map Entry.tag).count .teardown = 1 := by
        cases htorn with
        | skipped hcaps' => exact absurd hcaps hcaps'
        | made => rfl
      simp only [map_append, count_append, hjudged', htorn', hrounds.count_teardown,
        hsetup.count_teardown (by simp [tag] : tag (.setup _) ≠ .teardown),
        hreset.count_teardown (by simp [tag] : tag (.reset _) ≠ .teardown)]
    · rintro ⟨-, -, root, record, hmem, hack⟩
      have hreset' : Entry.call (.reset root) record ∈ reset := by
        simp only [mem_append] at hmem
        rcases hmem with (((hmem | hmem) | hmem) | hmem) | hmem
        · exact absurd (hsetup.tag_of_mem hmem) (by simp [Entry.tag, tag])
        · exact hmem
        · exact absurd (hrounds.entry_inRound hmem) id
        · exact absurd (hjudged.tag_of_mem hmem) (by simp [Entry.tag, tag])
        · exact absurd (htorn.tag_of_mem hmem) (by simp [Entry.tag, tag])
      obtain ⟨record', ⟨⟩, rfl⟩ := hreset.eq_of_mem hreset'
      exact hack (refusalOf_some_eq_none_iff.mp hacked')

/-- **The session protocol.** For every extension, every target and all options, a session that
returns an outcome keeps the protocol unless its reset was refused after an acknowledged setup. -/
theorem sessionProtocol_iff (setting : Setting J) (client : Client) (attempts : ℕ)
    (outcome : SessionOutcome) (world : World J)
    (h : Runs (run setting) ⟨client, attempts, []⟩ outcome world) :
    SessionProtocol setting client.caps world.log outcome ↔
      ¬ ResetRefused client.caps world.log := by
  obtain ⟨trace, hemits, htrace⟩ := emits_run h
  obtain rfl : world.log = trace := hemits.log
  refine ⟨fun h ↦ htrace.cleaned_iff.mp h.cleaned, fun h ↦ ?_⟩
  exact ⟨htrace.ordered, htrace.recorded, fun _ _ _ ↦ htrace.judged, fun _ ↦ htrace.found,
    htrace.cleaned_iff.mpr h⟩

end Protocol

/-! ### Two sessions -/

/-- A client with the lifecycle and the scenario negotiated, and one restart in its budget. -/
def scenarioClient : Client where
  protocol := "v1"
  caps := [.lifecycleSetup, .lifecycleReset, .scenarioNext, .lifecycleTeardown]
  callTimeout := 5
  restart := { maxRestarts := 1 }
  outstanding := { max := 1 }

/-- An envelope that answers the case of `scriptedSetting`. -/
def answering (result : ResultClass) (value : Option NextValue) : Received NextValue :=
  .frame (.ok {
    protocol := "v1"
    case := ⟨"c", "w", "t"⟩
    result := result
    value := value })

/-- A setting in which the children send the given frames one after another. -/
def scriptedSetting (frames : List (Received NextValue)) : Setting NextValue where
  peer := {
    writes := fun _ ↦ some true
    received := fun n ↦ frames.getD n .timeout
    exits := fun _ ↦ some (none, none)
    respawns := fun _ ↦ some true
    debug := id }
  values := ⟨.ok, fun _ ↦ .error "", fun _ ↦ .ok []⟩
  target := fun _ _ _ ↦ .ok []
  options := {}
  case := ⟨"c", "w", "t"⟩
  root := "r"
  testcase := []

/-- Setup, reset and teardown are acknowledged, and there are no messages. -/
def quietFrames : List (Received NextValue) :=
  [answering .ok none, answering .ok none, answering .ok (some { done := true }),
    answering .ok none]

/-- The log of that session. -/
def quietLog : List (Entry NextValue) :=
  [.call (.setup (some "r")) ⟨[], some 0, .ok none⟩, .call (.reset "r") ⟨[], some 0, .ok none⟩,
    .call (.next 0 (some [])) ⟨[], some 0, .ok (some { done := true })⟩,
    .call .teardown ⟨[], some 0, .ok none⟩]

theorem quiet_session_keeps_protocol :
    Runs (run (scriptedSetting quietFrames)) ⟨scenarioClient, 0, []⟩ {}
        ⟨scenarioClient, 4, quietLog⟩ ∧
      SessionProtocol (scriptedSetting quietFrames) scenarioClient.caps quietLog {} := by
  have hrun : Runs (run (scriptedSetting quietFrames)) ⟨scenarioClient, 0, []⟩ {}
      ⟨scenarioClient, 4, quietLog⟩ := by
    unfold Runs
    decide +kernel
  refine ⟨hrun, (sessionProtocol_iff _ _ _ _ _ hrun).mpr ?_⟩
  rintro ⟨-, -, root, record, hmem, hack⟩
  simp only [quietLog, mem_cons, Entry.call.injEq, reduceCtorEq, false_and, false_or, not_mem_nil,
    or_false] at hmem
  obtain ⟨-, rfl⟩ := hmem
  exact hack rfl

/-- The reset is answered as unsupported. -/
def refusedFrames : List (Received NextValue) :=
  [answering .ok none, answering .unsupported none]

/-- The log of that session: what was set up stays set up. -/
def refusedLog : List (Entry NextValue) :=
  [.call (.setup (some "r")) ⟨[], some 0, .ok none⟩,
    .call (.reset "r") ⟨[], some 0, .unsupported none⟩]

theorem refused_reset_skips_teardown :
    Runs (run (scriptedSetting refusedFrames)) ⟨scenarioClient, 0, []⟩
        (({} : SessionOutcome).fault (.extensionReported none)) ⟨scenarioClient, 2, refusedLog⟩ ∧
      SetupAcked refusedLog ∧ .lifecycleTeardown ∈ scenarioClient.caps ∧
      (refusedLog.map Entry.tag).count .teardown = 0 :=
  ⟨rfl, ⟨_, _, mem_cons_self, rfl⟩, by decide, rfl⟩

end Bhf.ExtensionHost
