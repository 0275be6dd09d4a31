import Bhf.ExtensionHost.SessionProtocol

/-!
# Which child answers a session

A scenario is stateful: what the extension says at one step depends on the steps before, and the
reset is where that state begins. The state lives in the child process. When a child is lost in the
middle of a scenario the client quietly puts the request to a fresh one, and a session can end
without a fault on record although **its steps were answered by a child that never saw the reset**.

Every fault on the way to an answer moves the session on to the next child (`Answers.moved`), so the
child that acknowledged the reset answers the whole scenario exactly when no later call, up to the
last one that matters, has met a fault (`Lossless`).
-/

namespace Bhf.ExtensionHost

open StateExcept List

variable {J : Type} {values : Values J} {log : List (Entry J)}

/-- The calls whose answers depend on the state of the scenario. -/
def Tag.Stateful : Tag → Prop
  | .next _ | .observe _ | .evaluate => True
  | .setup | .reset | .mutate | .repair | .exchange _ | .teardown => False

/-- The child that answered. -/
def Entry.child : Entry J → Option ℕ
  | .call _ record => record.child
  | .exchange _ _ _ _ => none

/-- The faults met on the way to an answer. -/
def Entry.faults : Entry J → List InfraFailure
  | .call _ record => record.faults
  | .exchange _ _ _ _ => []

/-- The scenario is answered by the child that acknowledged the reset. -/
def SameChild (log : List (Entry J)) : Prop :=
  ∀ reset ∈ log, reset.tag = .reset → ∃ child, reset.child = some child ∧
    ∀ entry ∈ log, entry.tag.Stateful → entry.child = some child

/-- No child is lost in a call as long as answers are to come that depend on its state. -/
def Lossless (log : List (Entry J)) : Prop :=
  ∀ before entry after, log = before ++ entry :: after → entry.faults ≠ [] →
    ∀ e ∈ entry :: after, ¬ e.tag.Stateful

/-- After the reset no child is lost that still matters. -/
def LosslessAfterReset (log : List (Entry J)) : Prop :=
  ∀ pre reset post, log = pre ++ reset :: post → reset.tag = .reset → Lossless post

theorem lossless_cons {entry : Entry J} : Lossless (entry :: log) ↔
    (entry.faults ≠ [] → ∀ e ∈ entry :: log, ¬ e.tag.Stateful) ∧ Lossless log := by
  refine ⟨fun h ↦ ⟨h [] entry log rfl, ?_⟩, fun ⟨hentry, hlog⟩ before entry' after heq ↦ ?_⟩
  · rintro before entry' after rfl
    exact h (entry :: before) entry' after rfl
  · cases before with
    | nil =>
      obtain ⟨rfl, rfl⟩ := cons.inj heq
      exact hentry
    | cons first before =>
      obtain ⟨rfl, rfl⟩ := cons.inj heq
      exact hlog before entry' after rfl

/-! ### Children along a log -/

variable {before after : Client}

/-- An answer that is no fault was given by a child, and that child is still there. -/
theorem Answers.exists_child {payload : Payload} {record : CallRecord J}
    (h : Answers before record after) (hfault : payload.fault values record.outcome = none) :
    ∃ child, record.child = some child ∧ after.live ∧ after.child = child := by
  cases hchild : record.child with
  | some child => exact ⟨child, rfl, h.holds child hchild⟩
  | none =>
    obtain ⟨failure, houtcome⟩ := h.unanswered hchild
    rw [houtcome] at hfault
    cases payload <;> cases hfault

/-- The children that answer come one after another. -/
theorem Linked.le_child (h : Linked before log after)
    (hlive : before.live) (hclean : ∀ entry ∈ log, entry.fault values = none)
    {entry : Entry J} (hentry : entry ∈ log) {child : ℕ} (hchild : entry.child = some child) :
    before.child ≤ child := by
  induction h with
  | nil => simp at hentry
  | @call before after last payload record log hrecord _ ih =>
    obtain ⟨hfault, hclean⟩ := forall_mem_cons.mp hclean
    obtain ⟨first, hfirst, hlive', rfl⟩ := hrecord.exists_child hfault
    have hmoved : after.child = before.child + record.faults.length :=
      hrecord.moved hlive _ hfirst
    rcases mem_cons.mp hentry with rfl | hentry
    · have : record.child = some child := hchild
      rw [hfirst] at this
      obtain ⟨⟩ := this
      omega
    · have := ih hlive' hclean hentry
      omega
  | exchange _ ih =>
    rcases mem_cons.mp hentry with rfl | hentry
    · simp [Entry.child] at hchild
    · exact ih hlive (forall_mem_cons.mp hclean).2 hentry

/-- **The live child answers a stretch of the log exactly if the stretch is lossless.** The
induction follows the log: a fault moves on to another child, and from there on the children only
grow. -/
theorem Linked.child_iff (h : Linked before log after)
    (hlive : before.live) (hclean : ∀ entry ∈ log, entry.fault values = none) :
    (∀ entry ∈ log, entry.tag.Stateful → entry.child = some before.child) ↔ Lossless log := by
  induction h with
  | nil => simp [Lossless]
  | @call before after last payload record log hrecord hlog ih =>
    obtain ⟨hfault, hclean⟩ := forall_mem_cons.mp hclean
    obtain ⟨child, hchild, hlive', rfl⟩ := hrecord.exists_child hfault
    have hmoved : after.child = before.child + record.faults.length :=
      hrecord.moved hlive _ hchild
    rw [forall_mem_cons, lossless_cons, ← ih hlive' hclean]
    by_cases hnil : record.faults = []
    · have hsame : after.child = before.child := by simpa [hnil] using hmoved
      rw [hsame]
      refine and_congr_left fun _ ↦ iff_of_true (fun _ ↦ ?_) fun hfaults ↦ absurd hnil hfaults
      exact hchild.trans (by rw [hsame])
    · -- every later child is another one, so nothing that depends on the state may follow
      have hlater : before.child < after.child := by
        have := length_pos_iff.mpr hnil
        omega
      refine ⟨fun ⟨hentry, hrest⟩ ↦ ?_, fun ⟨hnone, _⟩ ↦ ?_⟩
      · have hnone : ∀ e ∈ log, ¬ e.tag.Stateful := by
          intro e he hstate
          have := hlog.le_child hlive' hclean he (hrest e he hstate)
          omega
        refine ⟨fun _ ↦ forall_mem_cons.mpr ⟨fun hstate ↦ ?_, hnone⟩,
          fun e he hstate ↦ absurd hstate (hnone e he)⟩
        have hfirst : record.child = some before.child := hentry hstate
        rw [hchild] at hfirst
        have := Option.some.inj hfirst
        omega
      · obtain ⟨hentry, hrest⟩ := forall_mem_cons.mp (hnone hnil)
        exact ⟨fun hstate ↦ absurd hstate hentry, fun e he hstate ↦ absurd hstate (hrest e he)⟩
  | @exchange before last step label message response log _ ih =>
    rw [forall_mem_cons, lossless_cons, ih hlive (forall_mem_cons.mp hclean).2]
    refine and_congr_left fun _ ↦ iff_of_true (fun hstate ↦ absurd hstate id) fun hfaults ↦ ?_
    exact absurd rfl hfaults

theorem Linked.of_append {last : Client} {log' : List (Entry J)}
    (h : Linked before (log ++ log') last) :
    ∃ between, Linked before log between ∧ Linked between log' last := by
  induction log generalizing before with
  | nil => exact ⟨before, .nil _, h⟩
  | cons entry log ih =>
    cases h with
    | call hrecord h =>
      obtain ⟨between, hlog, hlog'⟩ := ih h
      exact ⟨between, .call hrecord hlog, hlog'⟩
    | exchange h =>
      obtain ⟨between, hlog, hlog'⟩ := ih h
      exact ⟨between, .exchange hlog, hlog'⟩

/-! ### Whole sessions -/

theorem forall_fault_eq_none (h : firstFault values log = none) :
    ∀ entry ∈ log, entry.fault values = none :=
  findSome?_eq_none_iff.mp h

/-- A session without a fault has made its one reset between the setup and the rest. -/
theorem SessionTrace.split_reset {setting : Setting J} {caps : List Capability}
    {outcome : SessionOutcome} (h : SessionTrace setting caps log outcome)
    (hnone : outcome.infrastructure = none) (hreset : .lifecycleReset ∈ caps) :
    ∃ setup record rest, log = setup ++ .call (.reset setting.root) record :: rest ∧
      (∀ entry ∈ setup, entry.tag = .setup) ∧ ∀ entry ∈ rest, entry.tag ≠ .reset := by
  cases h with
  | setupRefused | resetRefused => simp [SessionOutcome.fault] at hnone
  | @driven setup reset rounds judged torn _ _ _ _ _ hsetup _ hasked _ hrounds _ hjudged htorn =>
    cases hasked with
    | skipped hcaps => exact absurd hreset hcaps
    | made _ record =>
      refine ⟨setup, record, rounds ++ judged ++ torn, by simp,
        fun entry hentry ↦ hsetup.tag_of_mem hentry, fun entry hentry htag ↦ ?_⟩
      simp only [mem_append] at hentry
      rcases hentry with (hentry | hentry) | hentry
      · have hround := hrounds.entry_inRound hentry
        rw [htag] at hround
        exact hround
      · exact absurd (htag.symm.trans (hjudged.tag_of_mem hentry)) (by simp)
      · exact absurd (htag.symm.trans (htorn.tag_of_mem hentry)) (by simp [Payload.tag])

/-- **Which child answers a session that ends without a fault**: the scenario and the oracle are
answered by the child that acknowledged the reset exactly if no child that still matters was lost
after it. -/
theorem sameChild_iff (setting : Setting J) (client : Client) (attempts : ℕ)
    (outcome : SessionOutcome) (world : World J)
    (h : Runs (run setting) ⟨client, attempts, []⟩ outcome world)
    (hnone : outcome.infrastructure = none) (hreset : .lifecycleReset ∈ client.caps)
    (_hnext : .scenarioNext ∈ client.caps) :
    SameChild world.log ↔ LosslessAfterReset world.log := by
  obtain ⟨trace, hemits, htrace⟩ := emits_run h
  obtain rfl : world.log = trace := hemits.log
  have hclean := forall_fault_eq_none (htrace.recorded.symm.trans hnone)
  obtain ⟨setup, record, rest, hlog, hsetup, hrest⟩ := htrace.split_reset hnone hreset
  have hlinked := hemits.linked
  rw [hlog] at hclean hlinked ⊢
  -- the client right after the reset has the child that acknowledged it
  obtain ⟨before, -, hlinked⟩ := hlinked.of_append
  obtain ⟨hclean', hclean⟩ := forall_mem_cons.mp (forall_mem_append.mp hclean).2
  cases hlinked with
  | @call _ after _ _ _ _ hrecord hlinked =>
    have hacked : (Payload.reset setting.root).fault setting.values record.outcome = none := hclean'
    obtain ⟨child, hchild, hlive, rfl⟩ := hrecord.exists_child hacked
    have hiff := hlinked.child_iff hlive hclean
    have hsetup' : ∀ entry ∈ setup, ¬ entry.tag = .reset := fun entry hentry htag ↦
      absurd ((hsetup entry hentry).symm.trans htag) (by simp)
    have hsame : SameChild (setup ++ .call (.reset setting.root) record :: rest) ↔
        ∀ entry ∈ rest, entry.tag.Stateful → entry.child = some after.child := by
      refine ⟨fun h entry hentry hstate ↦ ?_, fun h entry hentry htag ↦ ?_⟩
      · obtain ⟨child, hchild', hall⟩ := h (.call (.reset setting.root) record) (by simp) rfl
        rw [hall entry (by simp [hentry]) hstate, ← hchild', ← hchild]
        rfl
      · simp only [mem_append, mem_cons] at hentry
        rcases hentry with hentry | rfl | hentry
        · exact absurd htag (hsetup' entry hentry)
        · refine ⟨after.child, hchild, fun e he hstate ↦ ?_⟩
          simp only [mem_append, mem_cons] at he
          rcases he with he | rfl | he
          · rw [hsetup e he] at hstate
            exact absurd hstate id
          · exact absurd hstate id
          · exact h e he hstate
        · exact absurd htag (hrest entry hentry)
    have hlossless : LosslessAfterReset (setup ++ .call (.reset setting.root) record :: rest) ↔
        Lossless rest := by
      refine ⟨fun h ↦ h setup _ rest rfl rfl, fun h pre reset post heq htag ↦ ?_⟩
      obtain rfl := eq_of_append_cons_eq heq hsetup' hrest htag
      obtain ⟨rfl, rfl⟩ := cons.inj (append_cancel_left heq)
      exact h
    rw [hsame, hlossless, hiff]

/-! ### Two sessions -/

/-- A crash and a restart before the reset is acknowledged. -/
def crashBeforeResetFrames : List (Received NextValue) :=
  [answering .ok none, .closed, answering .ok none,
    answering .ok (some { done := true }), answering .ok none]

/-- The log of that session: the second child is reset and answers. -/
def crashBeforeResetLog : List (Entry NextValue) :=
  [.call (.setup (some "r")) ⟨[], some 0, .ok none⟩,
    .call (.reset "r") ⟨[.crashed none none], some 1, .ok none⟩,
    .call (.next 0 (some [])) ⟨[], some 1, .ok (some { done := true })⟩,
    .call .teardown ⟨[], some 1, .ok none⟩]

/-- The client of the example after one restart. -/
def restartedClient : Client :=
  { scenarioClient with
    restart := { scenarioClient.restart with restarts := 1 }
    child := 1 }

theorem crash_before_reset_same_child :
    Runs (run (scriptedSetting crashBeforeResetFrames)) ⟨scenarioClient, 0, []⟩ {}
        ⟨restartedClient, 5, crashBeforeResetLog⟩ ∧
      (SameChild crashBeforeResetLog ↔ LosslessAfterReset crashBeforeResetLog) := by
  have hrun : Runs (run (scriptedSetting crashBeforeResetFrames)) ⟨scenarioClient, 0, []⟩ {}
      ⟨restartedClient, 5, crashBeforeResetLog⟩ := by
    unfold Runs
    decide +kernel
  exact ⟨hrun, sameChild_iff _ _ _ _ _ hrun rfl (by decide) (by decide)⟩

/-- A message is sent, and then the child crashes over the next one. -/
def crashInScenarioFrames : List (Received NextValue) :=
  [answering .ok none, answering .ok none, answering .ok (some { messageB64 := some "" }),
    .closed, answering .ok (some { done := true }), answering .ok none]

/-- The log of that session: the second child ends a scenario it has not seen begin. -/
def crashInScenarioLog : List (Entry NextValue) :=
  [.call (.setup (some "r")) ⟨[], some 0, .ok none⟩,
    .call (.reset "r") ⟨[], some 0, .ok none⟩,
    .call (.next 0 (some [])) ⟨[], some 0, .ok (some { messageB64 := some "" })⟩,
    .exchange 0 none [] (.ok []),
    .call (.next 1 none) ⟨[.crashed none none], some 1, .ok (some { done := true })⟩,
    .call .teardown ⟨[], some 1, .ok none⟩]

theorem crash_in_scenario_changes_child :
    Runs (run (scriptedSetting crashInScenarioFrames)) ⟨scenarioClient, 0, []⟩
        { steps := [⟨0, none, [], false, false, []⟩] }
        ⟨restartedClient, 6, crashInScenarioLog⟩ ∧
      .lifecycleReset ∈ scenarioClient.caps ∧ .scenarioNext ∈ scenarioClient.caps ∧
      ¬ SameChild crashInScenarioLog := by
  refine ⟨by unfold Runs; decide +kernel, by decide, by decide, fun h ↦ ?_⟩
  obtain ⟨child, hchild, hall⟩ :=
    h (.call (.reset "r") ⟨[], some 0, .ok none⟩) (by simp [crashInScenarioLog]) rfl
  have hnext := hall
    (.call (.next 1 none) ⟨[.crashed none none], some 1, .ok (some { done := true })⟩)
    (by simp [crashInScenarioLog]) trivial
  simp [Entry.child] at hchild hnext
  omega

end Bhf.ExtensionHost
