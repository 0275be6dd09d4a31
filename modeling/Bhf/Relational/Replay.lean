import Bhf.Relational.Campaign

/-!
# What an evaluation depends on

A replay runs only the profiles of the finding, and the minimiser runs all of them and then ever
fewer, where the campaign had run them all. That this makes no difference rests on one fact: **an
evaluation reads the observations of the involved profiles and no others**
(`evaluateOneWith_congr`), except that an external relation is about the whole bundle. And what is
observed of a profile is the same whether it is run in a campaign (`get_observeRuns`) or by itself
(`observeProfiles_eq_ok`).
-/

namespace Bhf.Relational

open List RelationOutcome

/-! ### Names in order -/

variable {name : String} {names : List String}

theorem mem_insertName {other : String} :
    other ∈ insertName name names ↔ other = name ∨ other ∈ names := by
  induction names with
  | nil => simp [insertName]
  | cons head names ih =>
    rw [insertName]
    split_ifs with hlt heq
    · simp
    · simp [heq]
    · simp only [mem_cons]
      tauto

theorem pairwise_insertName (name : String) (h : names.Pairwise (· < ·)) :
    (insertName name names).Pairwise (· < ·) := by
  induction names with
  | nil => exact pairwise_singleton _ _
  | cons head names ih =>
    obtain ⟨hhead, htail⟩ := pairwise_cons.1 h
    rw [insertName]
    split_ifs with hlt heq
    · refine pairwise_cons.2 ⟨forall_mem_cons.2 ⟨hlt, fun other hother ↦ ?_⟩, h⟩
      exact hlt.trans (hhead other hother)
    · exact h
    refine pairwise_cons.2 ⟨fun other hother ↦ ?_, ih htail⟩
    obtain rfl | hother := mem_insertName.1 hother
    · exact lt_of_le_of_ne (not_lt.1 hlt) (Ne.symm heq)
    · exact hhead other hother

theorem mem_foldl_insertName (added names : List String) :
    name ∈ added.foldl (fun set name ↦ insertName name set) names ↔
      name ∈ added ∨ name ∈ names := by
  induction added generalizing names with
  | nil => simp
  | cons head added ih =>
    rw [foldl_cons, ih, mem_insertName, mem_cons]
    tauto

theorem mem_involvedProfiles {p : Predicate} :
    name ∈ p.involvedProfiles ↔
      name ∈ p.require.profiles ∨ ∃ cond, p.when = some cond ∧ name ∈ cond.profiles := by
  rw [Predicate.involvedProfiles, mem_foldl_insertName]
  cases p.when <;> simp

theorem pairwise_involvedProfiles (p : Predicate) : p.involvedProfiles.Pairwise (· < ·) :=
  foldlRecOn _ _ .nil fun _ h name _ ↦ pairwise_insertName name h

theorem eraseRepsBy_loop_of_pairwise (acc : List String) (h : (name :: names).Pairwise (· < ·)) :
    List.eraseRepsBy.loop (· == ·) name names acc = acc.reverse ++ name :: names := by
  induction names generalizing name acc with
  | nil => simp [eraseRepsBy.loop]
  | cons other names ih =>
    obtain ⟨hname, htail⟩ := pairwise_cons.1 h
    have hne : (name == other) = false := beq_false_of_ne (hname other mem_cons_self).ne
    rw [eraseRepsBy.loop, hne]
    rw [ih _ htail, reverse_cons, append_assoc, singleton_append]

/-- Sorting and deduplicating leaves names alone that are in order. -/
theorem sortDedup_of_pairwise (h : names.Pairwise (· < ·)) :
    Observation.sortDedup names = names := by
  have hle : names.Pairwise fun a b ↦ decide (a ≤ b) := h.imp fun hlt ↦ by simpa using hlt.le
  rw [Observation.sortDedup, mergeSort_of_pairwise hle]
  cases names with
  | nil => rfl
  | cons name names => exact eraseRepsBy_loop_of_pairwise [] h

/-! ### What an evaluation reads -/

section Congr

variable {config : RelationalConfig} {obs obs' : Observations} {predicate : Predicate}

theorem gate_congr {profiles : List String}
    (h : ∀ profile ∈ profiles, obs.get profile = obs'.get profile) :
    gate obs profiles = gate obs' profiles := by
  induction profiles with
  | nil => rfl
  | cons profile profiles ih =>
    rw [forall_mem_cons] at h
    rw [gate, gate, h.1, ih h.2]

theorem resolveTargets_congr {sel : Selector} (h : obs.get sel.profile = obs'.get sel.profile) :
    resolveTargets config obs sel = resolveTargets config obs' sel := by
  rw [resolveTargets, resolveTargets, h]

theorem resolveValues_congr {selectors : List Selector}
    (h : ∀ sel ∈ selectors, obs.get sel.profile = obs'.get sel.profile) :
    resolveValues config obs selectors = resolveValues config obs' selectors := by
  induction selectors with
  | nil => rfl
  | cons sel selectors ih =>
    rw [forall_mem_cons] at h
    rw [resolveValues, resolveValues, resolveValue, resolveValue, h.1, resolveTargets_congr h.1,
      ih h.2]

theorem evalEqualDiffer_congr {selectors : List Selector} (wantEqual : Bool)
    (h : ∀ sel ∈ selectors, obs.get sel.profile = obs'.get sel.profile) :
    evalEqualDiffer config obs predicate selectors wantEqual =
      evalEqualDiffer config obs' predicate selectors wantEqual := by
  have hevidence : (selectors.flatMap fun sel ↦ ((obs.get sel.profile).map (·.events)).getD []) =
      selectors.flatMap fun sel ↦ ((obs'.get sel.profile).map (·.events)).getD [] :=
    flatMap_congr fun sel hsel ↦ by rw [h sel hsel]
  rw [evalEqualDiffer, evalEqualDiffer, resolveValues_congr h, hevidence]

/-- The relation is not left to a comparator. -/
def Require.BuiltIn (require : Require) : Prop :=
  ∀ comparator, require ≠ .external comparator

theorem evaluateRequire_congr (hbuiltIn : predicate.require.BuiltIn)
    (comparator : ExternalComparator)
    (h : ∀ profile ∈ predicate.require.profiles, obs.get profile = obs'.get profile) :
    evaluateRequire config obs predicate comparator =
      evaluateRequire config obs' predicate comparator := by
  rw [evaluateRequire, evaluateRequire]
  cases hrequire : predicate.require with
  | statusRelation profile status =>
    rw [hrequire] at h
    simp only [evalStatusRelation, h profile mem_cons_self]
  | subset set of =>
    rw [hrequire] at h
    have hset : obs.get set.profile = obs'.get set.profile := h _ (by simp [Require.profiles])
    have hof : obs.get of.profile = obs'.get of.profile := h _ (by simp [Require.profiles])
    simp only [evalSubset, resolveTargets_congr hset, resolveTargets_congr hof]
  | equal selectors =>
    rw [hrequire] at h
    exact evalEqualDiffer_congr true fun sel hsel ↦ h _ (mem_map_of_mem hsel)
  | differ selectors =>
    rw [hrequire] at h
    exact evalEqualDiffer_congr false fun sel hsel ↦ h _ (mem_map_of_mem hsel)
  | external name => exact absurd hrequire (hbuiltIn name)

/-- **An evaluation reads the involved profiles and no others.** -/
theorem evaluateOneWith_congr (hbuiltIn : predicate.require.BuiltIn)
    (comparator : ExternalComparator)
    (h : ∀ profile ∈ predicate.involvedProfiles, obs.get profile = obs'.get profile) :
    evaluateOneWith config obs predicate comparator =
      evaluateOneWith config obs' predicate comparator := by
  have hguard : (predicate.when.any fun cond ↦ !guardMet obs cond) =
      predicate.when.any fun cond ↦ !guardMet obs' cond := by
    cases hwhen : predicate.when with
    | none => rfl
    | some cond =>
      cases cond with
      | always => rfl
      | statusIs profile status =>
        have hprofile := h profile (mem_involvedProfiles.2 (.inr ⟨_, hwhen, mem_cons_self⟩))
        simp only [Option.any_some, guardMet, hprofile]
  have hrequire : evaluateRequire config obs predicate comparator =
      evaluateRequire config obs' predicate comparator :=
    evaluateRequire_congr hbuiltIn comparator fun profile hprofile ↦
      h profile (mem_involvedProfiles.2 (.inl hprofile))
  rw [evaluateOneWith, evaluateOneWith, gate_congr h, hguard, hrequire]

end Congr

/-! ### Violations -/

def Require.defaultKind : Require → FindingKind
  | statusRelation _ _ => .unexpectedAllow
  | subset _ _ => .allowlistEscape
  | equal _ => .unexpectedDivergence
  | differ _ => .unexpectedEquivalence
  | external _ => .externalComparator

/-- The kind of a violation of the predicate. -/
def Predicate.violationKind (p : Predicate) : FindingKind :=
  p.kind.getD p.require.defaultKind

/-- What a violation says about its predicate and its profiles. -/
structure Describes (predicate : Predicate) (obs : Observations) (v : Violation) : Prop where
  /-- It is of this predicate. -/
  predicate_eq : v.predicate = predicate
  /-- The kind is the predicate's. -/
  kind_eq : v.kind = predicate.violationKind
  /-- A built-in relation names the profiles it involves. -/
  profiles_eq : predicate.require.BuiltIn → v.profiles = predicate.involvedProfiles
  /-- Any other names those observed. -/
  profiles_external : ¬predicate.require.BuiltIn → v.profiles = obs.entries.map (·.1)

section Violations

variable {config : RelationalConfig} {obs : Observations} {predicate : Predicate}
  {comparator : ExternalComparator} {v : Violation}

theorem intoOutcome_ne_violation (fail : ResolveFail) : fail.intoOutcome ≠ .violation v := by
  cases fail <;> simp [ResolveFail.intoOutcome]

theorem runFailure_ne_violation {profile : String} {o : Observation} :
    runFailure profile o ≠ some (.violation v) := by
  rw [runFailure]
  cases o.runState <;> simp

theorem gate_ne_violation (profiles : List String) : gate obs profiles ≠ some (.violation v) := by
  induction profiles with
  | nil => simp [gate]
  | cons profile profiles ih =>
    rw [gate]
    cases hget : obs.get profile with
    | none => simp
    | some o => simp [ih, runFailure_ne_violation]

/-- A violation of a built-in relation. -/
theorem describes_builtIn {kind : FindingKind} {evidence : List EffectEvent}
    (hbuiltIn : predicate.require.BuiltIn) (hkind : predicate.require.defaultKind = kind) :
    Describes predicate obs
      { kind := predicate.kind.getD kind
        ruleLabel := predicate.rule
        profiles := predicate.involvedProfiles
        evidence := evidence
        predicate := predicate
        external := none } where
  predicate_eq := rfl
  kind_eq := by rw [Predicate.violationKind, hkind]
  profiles_eq _ := rfl
  profiles_external hnot := absurd hbuiltIn hnot

theorem describes_of_evaluateRequire
    (h : evaluateRequire config obs predicate comparator = .violation v) :
    Describes predicate obs v := by
  rw [evaluateRequire] at h
  split at h
  · next hrequire =>
    rw [evalStatusRelation] at h
    split at h
    · contradiction
    split_ifs at h
    obtain rfl := violation.inj h
    exact describes_builtIn (by simp [hrequire, Require.BuiltIn])
      (by rw [hrequire, Require.defaultKind])
  · next hrequire =>
    rw [evalSubset] at h
    split at h
    · next fail _ => exact absurd h (intoOutcome_ne_violation fail)
    · split at h
      · next fail _ => exact absurd h (intoOutcome_ne_violation fail)
      · dsimp only at h
        split at h
        · contradiction
        · obtain rfl := violation.inj h
          exact describes_builtIn (by simp [hrequire, Require.BuiltIn])
            (by rw [hrequire, Require.defaultKind])
  iterate 2
    · next hrequire =>
      rw [evalEqualDiffer] at h
      split at h
      · next fail _ => exact absurd h (intoOutcome_ne_violation fail)
      · simp only [if_true, Bool.false_eq_true, if_false] at h
        split_ifs at h
        obtain rfl := violation.inj h
        exact describes_builtIn (by simp [hrequire, Require.BuiltIn]) (by rw [hrequire]; rfl)
  · next name hrequire =>
    rw [evalExternal] at h
    split at h
    · next outcome hfail =>
      obtain ⟨entry, -, hentry⟩ := exists_of_findSome?_eq_some hfail
      exact absurd (h ▸ hentry) runFailure_ne_violation
    · split at h
      · contradiction
      · contradiction
      · obtain rfl := violation.inj h
        exact ⟨rfl, by rw [Predicate.violationKind, hrequire]; rfl,
          fun hbuiltIn ↦ absurd hrequire (hbuiltIn name), fun _ ↦ rfl⟩

/-- **A violation is one of the predicate, and the involved profiles were observed.** -/
theorem of_evaluateOneWith_violation
    (h : evaluateOneWith config obs predicate comparator = .violation v) :
    predicate.InvolvedReady obs ∧ Describes predicate obs v := by
  rw [evaluateOneWith] at h
  split at h
  · next outcome hgate => exact absurd (h ▸ hgate) (gate_ne_violation _)
  · next hgate =>
    split at h
    · contradiction
    · exact ⟨gate_eq_none.1 hgate, describes_of_evaluateRequire h⟩

end Violations

/-! ### Observing -/

/-- The executor does not fail. -/
structure ErrorFree (executor : ProfileExecutor) : Prop where
  /-- Every run gives a result. -/
  total : ∀ profile input, ∃ run, executor profile input = .ok run
  /-- A run says which profile it is of. -/
  labelled : ∀ profile input run, executor profile input = .ok run → run.profile = profile.name

section Observe

variable {digests : Digests} {config : RelationalConfig} {executor : ProfileExecutor}

variable (digests config executor) in
/-- What is observed of a profile, if it is declared. -/
def observed (input : Bytes) (name : String) : Option Observation :=
  (config.profile name).bind fun profile ↦ (executor profile input).toOption.map fun run ↦
    .fromRun digests.sha256Hex run config.statusMap

variable {name : String} {input : Bytes}

variable (digests) in
theorem observeProfile_eq_ok (hexecutor : ErrorFree executor) (input : Bytes)
    (h : name ∈ config.names) :
    ∃ o, observeProfile digests config executor input name = .ok o ∧
      observed digests config executor input name = some o := by
  obtain ⟨profile, hprofile⟩ : ∃ profile, config.profile name = some profile := by
    obtain ⟨profile, hmem, rfl⟩ := mem_map.1 h
    exact Option.isSome_iff_exists.1 (find?_isSome.2 ⟨profile, hmem, by simp⟩)
  obtain ⟨run, hrun⟩ := hexecutor.total profile input
  refine ⟨.fromRun digests.sha256Hex run config.statusMap, ?_, ?_⟩
  · rw [observeProfile, hprofile]
    show (executor profile input >>= fun run ↦ _) = _
    rw [hrun]
    rfl
  · rw [observed, hprofile, Option.bind_some, hrun]
    rfl

theorem observeProfilesFrom_eq_ok (hexecutor : ErrorFree executor) (input : Bytes)
    {names : List String} (h : ∀ name ∈ names, name ∈ config.names) (obs : Observations) :
    ∃ obs', observeProfilesFrom digests config executor input obs names = .ok obs' ∧
      ∀ name, obs'.get name =
        if name ∈ names then observed digests config executor input name else obs.get name := by
  induction names generalizing obs with
  | nil => exact ⟨obs, rfl, by simp⟩
  | cons head names ih =>
    rw [forall_mem_cons] at h
    obtain ⟨o, ho, hobserved⟩ := observeProfile_eq_ok digests hexecutor input h.1
    obtain ⟨obs', hobs', hget⟩ := ih h.2 _
    refine ⟨obs', ?_, fun name ↦ ?_⟩
    · rw [observeProfilesFrom, ho]
      exact hobs'
    · rw [hget, Observations.get_insert]
      by_cases hhead : name = head
      · simp [hhead, hobserved]
      · simp [hhead]

variable (digests) in
/-- **Observing profiles gives what is observed of each of them.** -/
theorem observeProfiles_eq_ok (hexecutor : ErrorFree executor) (input : Bytes)
    {names : List String} (h : ∀ name ∈ names, name ∈ config.names) :
    ∃ obs, observeProfiles digests config executor input names = .ok obs ∧
      ∀ name, obs.get name =
        if name ∈ names then observed digests config executor input name else none :=
  observeProfilesFrom_eq_ok hexecutor input h .empty

theorem get_foldl_insert_runs (hexecutor : ErrorFree executor) {profiles : List Profile}
    {runs : List ProfileRun}
    (hruns : List.Forall₂ (fun profile run ↦ executor profile input = .ok run) profiles runs)
    (hdistinct : (profiles.map (·.name)).Nodup) (obs : Observations) (name : String) :
    (runs.foldl (fun obs run ↦ obs.insert run.profile
      (.fromRun digests.sha256Hex run config.statusMap)) obs).get name =
      match profiles.find? (·.name = name) with
      | some profile => (executor profile input).toOption.map fun run ↦
          .fromRun digests.sha256Hex run config.statusMap
      | none => obs.get name := by
  induction hruns generalizing obs with
  | nil => rfl
  | @cons profile run profiles runs hrun _ ih =>
    rw [map_cons, nodup_cons] at hdistinct
    rw [foldl_cons, ih hdistinct.2, hexecutor.labelled _ _ _ hrun]
    by_cases hname : profile.name = name
    · have hnone : profiles.find? (·.name = name) = none := by
        rw [find?_eq_none]
        intro other hother
        have hne : other.name ≠ profile.name := fun heq ↦ hdistinct.1 (heq ▸ mem_map_of_mem hother)
        simpa [← hname] using hne
      rw [hnone, Observations.get_insert]
      simp [hname, hrun, Except.toOption]
    · rw [Observations.get_insert, if_neg (Ne.symm hname)]
      simp [hname]

variable (digests) in
/-- **The campaign observes the same.** -/
theorem get_observeRuns (hexecutor : ErrorFree executor) (hdistinct : config.names.Nodup)
    {runs : List ProfileRun} (h : runAll config executor input = .ok runs) (name : String) :
    (observeRuns digests config runs).get name = observed digests config executor input name := by
  rw [observeRuns, get_foldl_insert_runs hexecutor (forall₂_of_mapM_eq_ok h) hdistinct, observed,
    RelationalConfig.profile]
  cases config.profiles.find? (·.name = name) <;> rfl

theorem observed_eq_none (h : name ∉ config.names) :
    observed digests config executor input name = none := by
  have hnone : config.profile name = none := by
    rw [RelationalConfig.profile, find?_eq_none]
    intro profile hprofile hname
    exact h (mem_map.2 ⟨profile, hprofile, by simpa using hname⟩)
  rw [observed, hnone, Option.bind_none]

end Observe

end Bhf.Relational
