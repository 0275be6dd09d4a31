import Bhf.Lib.StateExcept
import Bhf.Relational.Observation

/-!
# Evaluating relational predicates

A predicate relates what several profiles did on one test case. Its evaluation first looks for
profiles that were not observed, then at the guard, and then at the relation, whose selectors are
resolved to sets of targets or to texts that are compared.

The resolver of target sets and the status relation ask whether the stream they read was collected.
**The resolver of texts asks neither for the status nor for the edges**: it takes what is on record,
which is a default if nothing was collected. So an equal or differ relation can be satisfied by
defaults, and that is the only way in which something that was not observed counts as compliant.
-/

namespace Bhf.Relational

open Except Observation

/-! ### Predicates -/

inductive Field where
  | spawned
  | allowlist
  | status
  | response
  | edges

/-- The `Debug` text of a field. -/
def Field.debug : Field → String
  | spawned => "Spawned"
  | allowlist => "Allowlist"
  | status => "Status"
  | response => "Response"
  | edges => "Edges"

structure Selector where
  profile : String
  field : Field

inductive Require where
  | statusRelation (profile : String) (status : ProfileStatus)
  | subset (set of : Selector)
  | equal (selectors : List Selector)
  | differ (selectors : List Selector)
  | external (comparator : String)

inductive Cond where
  | always
  | statusIs (profile : String) (status : ProfileStatus)

inductive FindingKind where
  | unexpectedAllow
  | allowlistEscape
  | unexpectedEquivalence
  | unexpectedDivergence
  | externalComparator
  deriving DecidableEq

structure Predicate where
  rule : String
  when : Option Cond := none
  require : Require
  kind : Option FindingKind := none

/-- `BTreeSet::insert` on the elements in order. -/
def insertName (name : String) : List String → List String
  | [] => [name]
  | other :: names =>
    if name < other then name :: other :: names
    else if name = other then other :: names
    else other :: insertName name names

/-- The profiles a relation reads from. -/
def Require.profiles : Require → List String
  | statusRelation profile _ => [profile]
  | subset set of => [set.profile, of.profile]
  | equal selectors => selectors.map (·.profile)
  | differ selectors => selectors.map (·.profile)
  | external _ => []

def Cond.profiles : Cond → List String
  | always => []
  | statusIs profile _ => [profile]

def Predicate.involvedProfiles (p : Predicate) : List String :=
  (p.require.profiles ++ (p.when.map Cond.profiles).getD []).foldl
    (fun set name ↦ insertName name set) []

/-- The declared profile; only its allowlist is read here. -/
structure Profile where
  name : String
  allowlist : List String

structure RelationalConfig where
  profiles : List Profile
  predicates : List Predicate := []
  statusMap : StatusMap := {}

def RelationalConfig.profile (config : RelationalConfig) (name : String) : Option Profile :=
  config.profiles.find? (·.name = name)

/-! ### Outcomes -/

structure ExternalProvenance where
  executableSha256 : String
  configSha256 : Option String
  protocolVersion : String
  negotiatedCaps : List String

structure ExternalFinding where
  comparator : String
  signature : String
  classification : String
  detail : Option String
  provenance : Option ExternalProvenance

inductive ComparatorVerdict where
  | clean
  | finding (external : ExternalFinding)
  | unknown (reason : String)

/-- What the comparator of the driver answers when it is asked. -/
abbrev ExternalComparator := String → Observations → ComparatorVerdict

structure Violation where
  kind : FindingKind
  ruleLabel : String
  profiles : List String
  evidence : List EffectEvent
  predicate : Predicate
  external : Option ExternalFinding

inductive RelationOutcome where
  | setupFailure (profile : String)
  | authFailure (profile : String)
  | missingObservation (profile stream : String)
  | policyUnknown (reason : String)
  | compliant
  | violation (v : Violation)

/-! ### Resolving selectors -/

inductive ResolveFail where
  | missing (profile stream : String)
  | unknown (reason : String)

def ResolveFail.intoOutcome : ResolveFail → RelationOutcome
  | missing profile stream => .missingObservation profile stream
  | unknown reason => .policyUnknown reason

section Evaluate

variable (config : RelationalConfig) (observations : Observations)

def resolveTargets (sel : Selector) : Except ResolveFail (List String × List EffectEvent) :=
  match sel.field with
  | .spawned =>
    match observations.get sel.profile with
    | none => .error (.missing sel.profile "effects")
    | some obs =>
      if obs.hasStream .effects then .ok (obs.targetSet, obs.events)
      else .error (.missing sel.profile "effects")
  | .allowlist =>
    match config.profile sel.profile with
    | none => .error (.unknown s!"unknown profile {sel.profile} in selector")
    | some profile => .ok (Observation.sortDedup profile.allowlist, [])
  | other => .error (.unknown s!"selector field {other.debug} is not a target set")

/-- The canonical text of a selector. The streams of `status` and `edges` are not asked for. -/
def resolveValue (sel : Selector) : Except ResolveFail String :=
  match sel.field with
  | .status =>
    match observations.get sel.profile with
    | none => .error (.missing sel.profile "status")
    | some obs => .ok obs.status.debug
  | .response =>
    match observations.get sel.profile with
    | none => .error (.missing sel.profile "status")
    | some obs =>
      match obs.responseDigest with
      | none => .error (.missing sel.profile "response")
      | some digest => .ok digest
  | .edges =>
    match observations.get sel.profile with
    | none => .error (.missing sel.profile "coverage")
    | some obs => .ok (toString obs.edges)
  | .spawned | .allowlist => do
    let (targets, _) ← resolveTargets config observations sel
    return ",".intercalate targets

def resolveValues : List Selector → Except ResolveFail (List String)
  | [] => .ok []
  | sel :: selectors => do
    let value ← resolveValue config observations sel
    let values ← resolveValues selectors
    return value :: values

/-! ### Evaluation -/

def guardMet : Cond → Bool
  | .always => true
  | .statusIs profile status => (observations.get profile).any fun o ↦ o.status = status

variable (predicate : Predicate)

/-- After the gate the profile is there. -/
def evalStatusRelation (profile : String) (required : ProfileStatus) : RelationOutcome :=
  match observations.get profile with
  | none => .missingObservation profile "status"
  | some obs =>
    if !obs.hasStream .status then .missingObservation profile "status"
    else if obs.status = required then .compliant
    else if obs.status = .unknown then
      .policyUnknown s!"{profile} status could not be classified"
    else .violation {
      kind := predicate.kind.getD .unexpectedAllow
      ruleLabel := predicate.rule
      profiles := predicate.involvedProfiles
      evidence := obs.events
      predicate := predicate
      external := none }

/-- The outcome of a profile that was not observed, if there is one. -/
def runFailure (profile : String) (obs : Observation) : Option RelationOutcome :=
  match obs.runState with
  | .setupFailure => some (.setupFailure profile)
  | .authFailure => some (.authFailure profile)
  | .ready => none

def evalExternal (comparatorName : String) (comparator : ExternalComparator) : RelationOutcome :=
  match observations.entries.findSome? fun entry ↦ runFailure entry.1 entry.2 with
  | some outcome => outcome
  | none =>
    match comparator comparatorName observations with
    | .clean => .compliant
    | .unknown reason => .policyUnknown reason
    | .finding external => .violation {
        kind := predicate.kind.getD .externalComparator
        ruleLabel := predicate.rule
        profiles := observations.entries.map (·.1)
        evidence := observations.entries.flatMap (·.2.events)
        predicate := predicate
        external := some external }

def evalSubset (set of : Selector) : RelationOutcome :=
  match resolveTargets config observations set with
  | .error fail => fail.intoOutcome
  | .ok (setTargets, setEvents) =>
    match resolveTargets config observations of with
    | .error fail => fail.intoOutcome
    | .ok (ofTargets, _) =>
      let escapes := setTargets.filter fun t ↦ t ∉ ofTargets
      if escapes.isEmpty then .compliant
      else .violation {
        kind := predicate.kind.getD .allowlistEscape
        ruleLabel := predicate.rule
        profiles := predicate.involvedProfiles
        evidence := setEvents.filter fun e ↦ e.target ∈ escapes
        predicate := predicate
        external := none }

/-- Every two neighbours are equal. -/
def allEqual (values : List String) : Bool :=
  (List.zipWith (fun a b ↦ a == b) values values.tail).all id

def evalEqualDiffer (selectors : List Selector) (wantEqual : Bool) : RelationOutcome :=
  match resolveValues config observations selectors with
  | .error fail => fail.intoOutcome
  | .ok values =>
    let violated := if wantEqual then !allEqual values else allEqual values
    if !violated then .compliant
    else .violation {
      kind := predicate.kind.getD
        (if wantEqual then .unexpectedDivergence else .unexpectedEquivalence)
      ruleLabel := predicate.rule
      profiles := predicate.involvedProfiles
      evidence := selectors.flatMap fun sel ↦
        ((observations.get sel.profile).map (·.events)).getD []
      predicate := predicate
      external := none }

/-- The first involved profile that was not observed. -/
def gate : List String → Option RelationOutcome
  | [] => none
  | profile :: profiles =>
    match observations.get profile with
    | none => some (.missingObservation profile "status")
    | some obs => (runFailure profile obs).or (gate profiles)

def evaluateRequire (comparator : ExternalComparator) : RelationOutcome :=
  match predicate.require with
  | .statusRelation profile status => evalStatusRelation observations predicate profile status
  | .subset set of => evalSubset config observations predicate set of
  | .equal selectors => evalEqualDiffer config observations predicate selectors true
  | .differ selectors => evalEqualDiffer config observations predicate selectors false
  | .external name => evalExternal observations predicate name comparator

def evaluateOneWith (comparator : ExternalComparator) : RelationOutcome :=
  match gate observations predicate.involvedProfiles with
  | some outcome => outcome
  | none =>
    if predicate.when.any fun cond ↦ !guardMet observations cond then .compliant
    else evaluateRequire config observations predicate comparator

structure Evaluation where
  predicateIndex : ℕ
  ruleLabel : String
  outcome : RelationOutcome

def evaluateWith (comparator : ExternalComparator) : List Evaluation :=
  config.predicates.mapIdx fun i predicate ↦
    { predicateIndex := i
      ruleLabel := predicate.rule
      outcome := evaluateOneWith config observations predicate comparator }

/-! ### What was observed -/

def Observation.Ready (obs : Observation) : Prop :=
  obs.runState = .ready

/-- What the selector reads was really collected. -/
def Selector.Collected (sel : Selector) : Prop :=
  match sel.field with
  | .status => ∃ obs, observations.get sel.profile = some obs ∧ .status ∈ obs.collected
  | .edges => ∃ obs, observations.get sel.profile = some obs ∧ .coverage ∈ obs.collected
  | .spawned => ∃ obs, observations.get sel.profile = some obs ∧ .effects ∈ obs.collected
  | .response => ∃ obs, observations.get sel.profile = some obs ∧ obs.responseDigest ≠ none
  | .allowlist => True

/-- Everything the relation reads was really collected. An external relation reads through its
comparator. -/
def Require.Collected : Require → Prop
  | .statusRelation profile _ => Selector.Collected observations ⟨profile, .status⟩
  | .subset set of => set.Collected observations ∧ of.Collected observations
  | .equal selectors => ∀ sel ∈ selectors, sel.Collected observations
  | .differ selectors => ∀ sel ∈ selectors, sel.Collected observations
  | .external _ => False

/-- The guard is present and not met. -/
def Predicate.GuardUnmet : Prop :=
  ∃ cond, predicate.when = some cond ∧ guardMet observations cond = false

/-- Every involved profile was observed. -/
def Predicate.InvolvedReady : Prop :=
  ∀ profile ∈ predicate.involvedProfiles,
    ∃ obs, observations.get profile = some obs ∧ obs.Ready

/-- The text that is on record for a selector, whether or not its stream was collected. -/
inductive Recorded : Selector → String → Prop
  | status {profile : String} {obs : Observation} (h : observations.get profile = some obs) :
      Recorded ⟨profile, .status⟩ obs.status.debug
  | response {profile digest : String} {obs : Observation}
      (h : observations.get profile = some obs) (hdigest : obs.responseDigest = some digest) :
      Recorded ⟨profile, .response⟩ digest
  | edges {profile : String} {obs : Observation} (h : observations.get profile = some obs) :
      Recorded ⟨profile, .edges⟩ (toString obs.edges)
  | spawned {profile : String} {obs : Observation} (h : observations.get profile = some obs)
      (heffects : .effects ∈ obs.collected) :
      Recorded ⟨profile, .spawned⟩ (",".intercalate obs.targetSet)
  | allowlist {name : String} {profile : Profile} (h : config.profile name = some profile) :
      Recorded ⟨name, .allowlist⟩ (",".intercalate (Observation.sortDedup profile.allowlist))

/-- The relation compares texts and is satisfied by those on record. -/
def Require.SatisfiedOnRecord (require : Require) (selectors : List Selector) : Prop :=
  ∃ values, List.Forall₂ (Recorded config observations) selectors values ∧
    ((require = .equal selectors ∧ allEqual values = true) ∨
      (require = .differ selectors ∧ allEqual values = false))

/-- The relation is satisfied by texts of which some were recorded although their stream was not
collected. -/
def Require.ByDefault (require : Require) : Prop :=
  ∃ selectors, require.SatisfiedOnRecord config observations selectors ∧
    ∃ sel ∈ selectors, ¬sel.Collected observations

/-! ### The parts of the evaluation -/

variable {config observations}

theorem intoOutcome_ne_compliant (fail : ResolveFail) : fail.intoOutcome ≠ .compliant := by
  cases fail <;> simp [ResolveFail.intoOutcome]

variable {profile : String} {selectors : List Selector} {predicate : Predicate}
  {comparator : ExternalComparator}

theorem runFailure_eq_none {obs : Observation} : runFailure profile obs = none ↔ obs.Ready := by
  rw [runFailure, Observation.Ready]
  cases obs.runState <;> simp

theorem runFailure_ne_compliant {obs : Observation} : runFailure profile obs ≠ some .compliant := by
  rw [runFailure]
  cases obs.runState <;> simp

theorem gate_eq_none {profiles : List String} :
    gate observations profiles = none ↔
      ∀ profile ∈ profiles, ∃ obs, observations.get profile = some obs ∧ obs.Ready := by
  induction profiles with
  | nil => simp [gate]
  | cons profile profiles ih =>
    rw [gate, List.forall_mem_cons, ← ih]
    cases hget : observations.get profile with
    | none => simp
    | some obs => simp [Option.or_eq_none_iff, runFailure_eq_none]

theorem gate_ne_compliant (profiles : List String) :
    gate observations profiles ≠ some .compliant := by
  induction profiles with
  | nil => simp [gate]
  | cons profile profiles ih =>
    rw [gate]
    cases hget : observations.get profile with
    | none => simp
    | some obs => simp [ih, runFailure_ne_compliant]

theorem resolveTargets_eq_ok {sel : Selector} {targets : List String × List EffectEvent}
    (h : resolveTargets config observations sel = .ok targets) : sel.Collected observations := by
  obtain ⟨profile, field⟩ := sel
  cases field with
  | spawned =>
    simp only [resolveTargets] at h
    split at h
    · contradiction
    next obs hget =>
    split at h
    · next hstream => exact ⟨obs, hget, of_decide_eq_true hstream⟩
    · contradiction
  | allowlist => trivial
  | status | response | edges => simp [resolveTargets] at h

/-- **A selector is resolved to what is on record.** -/
theorem resolveValue_eq_ok {sel : Selector} {value : String} :
    resolveValue config observations sel = .ok value ↔ Recorded config observations sel value := by
  obtain ⟨profile, field⟩ := sel
  constructor
  · intro h
    cases field with
    | status =>
      simp only [resolveValue] at h
      split at h
      · contradiction
      · next obs hget => exact ok.inj h ▸ .status hget
    | response =>
      simp only [resolveValue] at h
      split at h
      · contradiction
      next obs hget =>
      split at h
      · contradiction
      · next digest hdigest => exact ok.inj h ▸ .response hget hdigest
    | edges =>
      simp only [resolveValue] at h
      split at h
      · contradiction
      · next obs hget => exact ok.inj h ▸ .edges hget
    | spawned =>
      cases hget : observations.get profile with
      | none => simp [resolveValue, resolveTargets, hget] at h
      | some obs =>
        by_cases heffects : .effects ∈ obs.collected
        · obtain rfl : ",".intercalate obs.targetSet = value := by
            simpa [resolveValue, resolveTargets, hget, hasStream, heffects] using h
          exact .spawned hget heffects
        · simp [resolveValue, resolveTargets, hget, hasStream, heffects] at h
    | allowlist =>
      cases hprofile : config.profile profile with
      | none => simp [resolveValue, resolveTargets, hprofile] at h
      | some declared =>
        obtain rfl : ",".intercalate (sortDedup declared.allowlist) = value := by
          simpa [resolveValue, resolveTargets, hprofile] using h
        exact .allowlist hprofile
  · intro h
    cases h with
    | status hget => simp [resolveValue, hget]
    | response hget hdigest => simp [resolveValue, hget, hdigest]
    | edges hget => simp [resolveValue, hget]
    | spawned hget heffects =>
      simp [resolveValue, resolveTargets, hget, hasStream, heffects]
    | allowlist hprofile => simp [resolveValue, resolveTargets, hprofile]

theorem resolveValues_eq_ok {values : List String} :
    resolveValues config observations selectors = .ok values ↔
      List.Forall₂ (Recorded config observations) selectors values := by
  induction selectors generalizing values with
  | nil =>
    rw [resolveValues, List.forall₂_nil_left_iff, ok.injEq]
    exact eq_comm
  | cons sel selectors ih =>
    rw [List.forall₂_cons_left_iff]
    constructor
    · intro h
      obtain ⟨value, hvalue, h⟩ := ok_of_bind h
      obtain ⟨rest, hrest, h⟩ := ok_of_bind h
      exact ⟨value, rest, resolveValue_eq_ok.1 hvalue, ih.1 hrest, (ok.inj h).symm⟩
    · rintro ⟨value, rest, hvalue, hrest, rfl⟩
      rw [resolveValues, resolveValue_eq_ok.2 hvalue, ih.2 hrest]
      rfl

theorem evalEqualDiffer_eq_compliant {wantEqual : Bool} :
    evalEqualDiffer config observations predicate selectors wantEqual = .compliant ↔
      ∃ values, List.Forall₂ (Recorded config observations) selectors values ∧
        allEqual values = wantEqual := by
  rw [evalEqualDiffer]
  cases hvalues : resolveValues config observations selectors with
  | error fail =>
    refine ⟨fun h ↦ absurd h (intoOutcome_ne_compliant fail), ?_⟩
    rintro ⟨values, hrecorded, -⟩
    rw [resolveValues_eq_ok.2 hrecorded] at hvalues
    contradiction
  | ok values =>
    have hunique : ∀ values', List.Forall₂ (Recorded config observations) selectors values' →
        values' = values := by
      intro values' hrecorded
      rw [resolveValues_eq_ok.2 hrecorded] at hvalues
      exact ok.inj hvalues
    have hself := resolveValues_eq_ok.1 hvalues
    constructor
    · intro h
      refine ⟨values, hself, ?_⟩
      cases wantEqual <;> cases hall : allEqual values <;> simp_all
    · rintro ⟨values', hrecorded, hall⟩
      rw [hunique values' hrecorded] at hall
      subst hall
      cases hall : allEqual values <;> simp [hall]

theorem evalStatusRelation_collected {required : ProfileStatus}
    (h : evalStatusRelation observations predicate profile required = .compliant) :
    Selector.Collected observations ⟨profile, .status⟩ := by
  rw [evalStatusRelation] at h
  split at h
  · contradiction
  next obs hget =>
  split at h
  · contradiction
  · next hstream =>
    rw [Bool.not_eq_true', Bool.not_eq_false] at hstream
    exact ⟨obs, hget, of_decide_eq_true hstream⟩

theorem evalSubset_collected {set of : Selector}
    (h : evalSubset config observations predicate set of = .compliant) :
    set.Collected observations ∧ of.Collected observations := by
  rw [evalSubset] at h
  split at h
  · next fail _ => exact absurd h (intoOutcome_ne_compliant fail)
  · next hset =>
    split at h
    · next fail _ => exact absurd h (intoOutcome_ne_compliant fail)
    · next hof => exact ⟨resolveTargets_eq_ok hset, resolveTargets_eq_ok hof⟩

theorem evalExternal_clean {name : String}
    (h : evalExternal observations predicate name comparator = .compliant) :
    comparator name observations = .clean ∧ ∀ entry ∈ observations.entries, entry.2.Ready := by
  rw [evalExternal] at h
  split at h
  · next outcome hfail =>
    obtain ⟨entry, -, hentry⟩ := List.exists_of_findSome?_eq_some hfail
    exact absurd (h ▸ hentry) runFailure_ne_compliant
  · next hnone =>
    have hready : ∀ entry ∈ observations.entries, entry.2.Ready := fun entry hmem ↦
      runFailure_eq_none.1 (List.findSome?_eq_none_iff.1 hnone entry hmem)
    split at h
    · next hclean => exact ⟨hclean, hready⟩
    · contradiction
    · contradiction

/-! ### Compliance -/

/-- What compliance should rest on. -/
structure Accounted (observations : Observations) (predicate : Predicate)
    (comparator : ExternalComparator) : Prop where
  /-- A guard that is not met, a comparator that was asked about profiles that all ran, or
  observations that were all collected. -/
  evidence : predicate.GuardUnmet observations ∨
    (∃ name, predicate.require = .external name ∧ comparator name observations = .clean ∧
      ∀ entry ∈ observations.entries, entry.2.Ready) ∨
    predicate.require.Collected observations
  /-- No involved profile failed. -/
  ready : ∀ profile ∈ predicate.involvedProfiles, ∀ obs, observations.get profile = some obs →
    obs.runState ≠ .setupFailure ∧ obs.runState ≠ .authFailure

theorem evaluateOneWith_eq_compliant :
    evaluateOneWith config observations predicate comparator = .compliant ↔
      predicate.InvolvedReady observations ∧ (predicate.GuardUnmet observations ∨
        evaluateRequire config observations predicate comparator = .compliant) := by
  have hguard : (predicate.when.any fun cond ↦ !guardMet observations cond) ↔
      predicate.GuardUnmet observations := by
    rw [Option.any_eq_true]
    simp [Predicate.GuardUnmet]
  rw [evaluateOneWith]
  cases hgate : gate observations predicate.involvedProfiles with
  | some outcome =>
    have hne : outcome ≠ .compliant := fun h ↦ gate_ne_compliant _ (h ▸ hgate)
    refine ⟨fun h ↦ absurd h hne, fun ⟨hready, _⟩ ↦ ?_⟩
    rw [gate_eq_none.2 hready] at hgate
    contradiction
  | none =>
    have hready : predicate.InvolvedReady observations := gate_eq_none.1 hgate
    dsimp only
    split
    · next h => simp [hready, hguard.1 h]
    · next h => simp [hready, mt hguard.2 h]

/-- An equal or differ relation is compliant exactly if it is satisfied by what is on record. -/
theorem evaluateRequire_of_satisfied
    (h : predicate.require.SatisfiedOnRecord config observations selectors) :
    evaluateRequire config observations predicate comparator = .compliant := by
  obtain ⟨values, hrecorded, ⟨hrequire, hall⟩ | ⟨hrequire, hall⟩⟩ := h
  all_goals
    rw [evaluateRequire, hrequire]
    exact evalEqualDiffer_eq_compliant.2 ⟨values, hrecorded, hall⟩

/-- Compliance without a default is accounted for. -/
theorem evidence_of_evaluateRequire
    (h : evaluateRequire config observations predicate comparator = .compliant)
    (hdefault : ¬predicate.require.ByDefault config observations) :
    (∃ name, predicate.require = .external name ∧ comparator name observations = .clean ∧
      ∀ entry ∈ observations.entries, entry.2.Ready) ∨
    predicate.require.Collected observations := by
  have hcollected {selectors : List Selector}
      (hsatisfied : predicate.require.SatisfiedOnRecord config observations selectors) :
      ∀ sel ∈ selectors, sel.Collected observations := by
    intro sel hsel
    by_contra hnot
    exact hdefault ⟨selectors, hsatisfied, sel, hsel, hnot⟩
  rw [evaluateRequire] at h
  split at h
  · next hrequire =>
    rw [hrequire]
    exact .inr (evalStatusRelation_collected h)
  · next hrequire =>
    rw [hrequire]
    exact .inr (evalSubset_collected h)
  · next selectors hrequire =>
    obtain ⟨values, hrecorded, hall⟩ := evalEqualDiffer_eq_compliant.1 h
    have := hcollected ⟨values, hrecorded, .inl ⟨hrequire, hall⟩⟩
    rw [hrequire]
    exact .inr this
  · next selectors hrequire =>
    obtain ⟨values, hrecorded, hall⟩ := evalEqualDiffer_eq_compliant.1 h
    have := hcollected ⟨values, hrecorded, .inr ⟨hrequire, hall⟩⟩
    rw [hrequire]
    exact .inr this
  · next name hrequire => exact .inl ⟨name, hrequire, evalExternal_clean h⟩

/-- **Absence of evidence counts as compliance in one case only.** An evaluation that is compliant
is accounted for, unless the involved profiles were observed, the guard does not stand in the way,
and an equal or differ relation is satisfied by a status or a number of edges that is on record
although its stream was not collected. -/
theorem compliant_accounted_iff (config : RelationalConfig) (predicate : Predicate)
    (comparator : ExternalComparator) (observations : Observations) :
    (evaluateOneWith config observations predicate comparator = .compliant →
      Accounted observations predicate comparator) ↔
    ¬(predicate.InvolvedReady observations ∧ ¬predicate.GuardUnmet observations ∧
      predicate.require.ByDefault config observations) := by
  rw [evaluateOneWith_eq_compliant]
  constructor
  · rintro h ⟨hready, hguard, selectors, hsatisfied, sel, hsel, hnot⟩
    have hevidence := (h ⟨hready, .inr (evaluateRequire_of_satisfied hsatisfied)⟩).evidence
    -- a relation that is satisfied by a default is not accounted for
    obtain ⟨values, -, ⟨hrequire, -⟩ | ⟨hrequire, -⟩⟩ := hsatisfied
    all_goals
      rw [hrequire] at hevidence
      obtain hunmet | ⟨name, hexternal, -⟩ | hcollected := hevidence
      · exact hguard hunmet
      · contradiction
      · exact hnot (hcollected sel hsel)
  · rintro h ⟨hready, hcompliant⟩
    refine ⟨?_, fun profile hprofile obs hget ↦ ?_⟩
    · by_cases hguard : predicate.GuardUnmet observations
      · exact .inl hguard
      · refine .inr (evidence_of_evaluateRequire (hcompliant.resolve_left hguard) fun hdefault ↦ ?_)
        exact h ⟨hready, hguard, hdefault⟩
    · obtain ⟨obs', hget', hobs⟩ := hready profile hprofile
      rw [hget] at hget'
      obtain ⟨⟩ := hget'
      rw [show obs.runState = .ready from hobs]
      simp

end Evaluate

/-! ### Two runs without coverage -/

/-- Two profiles that ran without an instrumented bitmap. -/
def uncovered (sha256Hex : Bytes → String) : Observations where
  entries := [("a", .fromRun sha256Hex (.ready "a" 0) { allowed := [0] }),
    ("b", .fromRun sha256Hex (.ready "b" 0) { allowed := [0] })]
  sorted := List.pairwise_pair.2 (show "a" < "b" by decide)

/-- The two profiles must cover the same number of edges. -/
def sameEdges : Predicate where
  rule := "same coverage"
  require := .equal [⟨"a", .edges⟩, ⟨"b", .edges⟩]

/-- **Missing coverage compares equal.** Neither run has a coverage stream, and the relation that
asks for equal coverage is compliant. -/
theorem uncovered_compliant (sha256Hex : Bytes → String) (comparator : ExternalComparator) :
    evaluateOneWith { profiles := [⟨"a", []⟩, ⟨"b", []⟩] } (uncovered sha256Hex) sameEdges
        comparator =
      .compliant ∧
    ¬Accounted (uncovered sha256Hex) sameEdges comparator := by
  have ha : (uncovered sha256Hex).get "a" =
      some (.fromRun sha256Hex (.ready "a" 0) { allowed := [0] }) := rfl
  have hb : (uncovered sha256Hex).get "b" =
      some (.fromRun sha256Hex (.ready "b" 0) { allowed := [0] }) := rfl
  refine ⟨evaluateOneWith_eq_compliant.2 ⟨?_, .inr ?_⟩, fun ⟨hevidence, _⟩ ↦ ?_⟩
  · rw [Predicate.InvolvedReady,
      show sameEdges.involvedProfiles = ["a", "b"] by decide +kernel, List.forall_mem_cons,
      List.forall_mem_singleton]
    exact ⟨⟨_, ha, rfl⟩, ⟨_, hb, rfl⟩⟩
  · exact evaluateRequire_of_satisfied ⟨[toString (0 : UInt64), toString (0 : UInt64)],
      .cons (.edges ha) (.cons (.edges hb) .nil), .inl ⟨rfl, by decide +kernel⟩⟩
  · obtain ⟨cond, hwhen, -⟩ | ⟨name, hrequire, -⟩ | hcollected := hevidence
    · contradiction
    · contradiction
    obtain ⟨obs, hget, hcoverage⟩ := hcollected ⟨"a", .edges⟩ (.head _)
    obtain ⟨⟩ := hget
    have hstreams : Stream.coverage ∉ collectedStreams (.ready "a" 0) := by decide
    exact hstreams hcoverage

theorem missing_coverage_compliant :
    evaluateOneWith { profiles := [⟨"a", []⟩, ⟨"b", []⟩] } (uncovered fun _ ↦ "") sameEdges
      (fun _ _ ↦ .clean) = .compliant ∧
    ¬Accounted (uncovered fun _ ↦ "") sameEdges fun _ _ ↦ .clean :=
  uncovered_compliant _ _

end Bhf.Relational
