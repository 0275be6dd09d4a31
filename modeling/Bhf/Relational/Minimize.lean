import Bhf.Relational.Replay
import Mathlib.Data.List.Sort

/-!
# Replaying and minimising findings

A finding of a campaign is about a predicate that was violated by the observations of all profiles.
A profile that is involved cannot be left out, since the gate would notice, and the others make no
difference; so a violated relation is violated by exactly those sets of profiles that hold the
involved ones (`stillViolates_builtIn`).

The greedy reduction therefore ends with the involved profiles (`reduceProfiles_involved`). It
never drops the last profile, though, so **a relation that involves none keeps one**: a differ
relation without selectors is always violated, and minimising such a finding leaves the profile
that was declared last.
-/

namespace Bhf.Relational

open List Except Observations

/-! ### The reduction of profiles -/

section Reduce

variable {test : List String → Except ExecError Bool} {all involved : List String}

/-- What is left still passes the test. -/
theorem reduceProfiles_passes (htest : ∀ set, set ⊆ all → ∃ passes, test set = .ok passes)
    (names : List String) {required : List String} (hrequired : required.Sublist all)
    (hpasses : test required = .ok true) :
    ∃ result, reduceProfiles test names required = .ok result ∧ result.Sublist all ∧
      test result = .ok true := by
  induction names generalizing required with
  | nil => exact ⟨required, rfl, hrequired, hpasses⟩
  | cons name names ih =>
    rw [reduceProfiles]
    split
    · exact ⟨required, rfl, hrequired, hpasses⟩
    · have htrial : (required.filter (· ≠ name)).Sublist all :=
        filter_sublist.trans hrequired
      obtain ⟨passes, htrialPasses⟩ := htest _ htrial.subset
      dsimp only
      rw [htrialPasses]
      cases passes with
      | true => exact ih htrial htrialPasses
      | false => exact ih hrequired hpasses

/-- If the sets that pass are those with the involved profiles, these are left. The invariant is
that a profile that was looked at and is still there is involved. -/
theorem reduceProfiles_involved
    (htest : ∀ set, set ⊆ all → test set = .ok (decide (involved ⊆ set)))
    (hne : involved ≠ []) {names required result : List String} (hrequired : required ⊆ all)
    (hinvolved : involved ⊆ required) (hseen : ∀ name ∈ required, name ∈ involved ∨ name ∈ names)
    (h : reduceProfiles test names required = .ok result) :
    ∀ name, name ∈ result ↔ name ∈ involved := by
  induction names generalizing required with
  | nil =>
    obtain ⟨⟩ := h
    exact fun name ↦ ⟨fun hname ↦ by simpa using hseen name hname, fun hname ↦ hinvolved hname⟩
  | cons name names ih =>
    rw [reduceProfiles] at h
    split at h
    · next hshort =>
      -- a single profile is left, and it is the one that is involved
      obtain rfl := ok.inj h
      obtain ⟨one, hone⟩ := exists_mem_of_ne_nil involved hne
      obtain ⟨only, honly⟩ : ∃ only, required = [only] := by
        rw [← length_eq_one_iff]
        have := length_pos_of_mem (hinvolved hone)
        omega
      rw [honly] at hinvolved ⊢
      intro other
      rw [mem_singleton]
      refine ⟨fun heq ↦ ?_, fun hother ↦ mem_singleton.1 (hinvolved hother)⟩
      rw [heq, ← mem_singleton.1 (hinvolved hone)]
      exact hone
    · have htrial : required.filter (· ≠ name) ⊆ all := fun other hother ↦
        hrequired (mem_of_mem_filter hother)
      dsimp only at h
      rw [htest _ htrial] at h
      by_cases hpasses : involved ⊆ required.filter (· ≠ name)
      · rw [decide_eq_true hpasses] at h
        refine ih htrial hpasses (fun other hother ↦ ?_) h
        obtain ⟨hother, hne⟩ := mem_filter.1 hother
        have hne : other ≠ name := by simpa using hne
        exact (hseen other hother).imp_right fun hmem ↦ (mem_cons.1 hmem).resolve_left hne
      · rw [decide_eq_false hpasses] at h
        refine ih hrequired hinvolved (fun other hother ↦ ?_) h
        obtain hother' | hother' := hseen other hother
        · exact .inl hother'
        obtain rfl | hother' := mem_cons.1 hother'
        · -- the profile could not be left out, so it is involved
          left
          by_contra hnot
          refine hpasses fun one hone ↦ mem_filter.2 ⟨hinvolved hone, ?_⟩
          simpa using fun heq : one = other ↦ hnot (heq ▸ hone)
        · exact .inr hother'

/-- If every set passes, the last profile is left. -/
theorem reduceProfiles_all (htest : ∀ set, set ⊆ all → test set = .ok true) {names : List String}
    (hnames : names ⊆ all) (hdistinct : names.Nodup) :
    reduceProfiles test names names = .ok names.getLast?.toList := by
  induction names with
  | nil => rfl
  | cons name names ih =>
    rw [cons_subset] at hnames
    rw [nodup_cons] at hdistinct
    rw [reduceProfiles]
    cases names with
    | nil => rfl
    | cons other names =>
      have hfilter : (name :: other :: names).filter (· ≠ name) = other :: names := by
        rw [filter_cons_of_neg (by simp), filter_eq_self]
        intro one hone
        simpa using fun heq : one = name ↦ hdistinct.1 (heq ▸ hone)
      rw [if_neg (by simp), hfilter]
      dsimp only
      rw [htest _ hnames.2]
      dsimp only
      rw [ih hnames.2 hdistinct.2, getLast?_cons_cons]

end Reduce

/-! ### Violations by sets of profiles -/

section Findings

variable {digests : Digests} {config : RelationalConfig} {executor : ProfileExecutor}
  {comparator : ExternalComparator} {finding : RelationFinding}

theorem reproduces_iff (hkind : finding.kind = finding.relation.violationKind)
    {obs : Observations} :
    reproduces finding (evaluateOneWith config obs finding.relation comparator) ↔
      ∃ v, evaluateOneWith config obs finding.relation comparator = .violation v := by
  constructor
  · intro h
    rw [reproduces, Option.any_eq_true] at h
    obtain ⟨v, hv, -⟩ := h
    refine ⟨v, ?_⟩
    cases houtcome : evaluateOneWith config obs finding.relation comparator with
    | violation w =>
      rw [houtcome] at hv
      rw [Option.some.inj hv]
    | _ =>
      rw [houtcome] at hv
      contradiction
  · rintro ⟨v, hv⟩
    have hv' := (of_evaluateOneWith_violation hv).2.kind_eq
    rw [hv, reproduces]
    simpa [RelationOutcome.asViolation, hkind] using hv'

variable (digests comparator) in
theorem stillViolates_eq_ok (hexecutor : ErrorFree executor) (finding : RelationFinding)
    {set : List String} (hset : set ⊆ config.names) (input : Bytes) :
    ∃ obs : Observations, (∀ name, obs.get name =
        if name ∈ set then observed digests config executor input name else none) ∧
      stillViolates digests config executor comparator finding set input =
        .ok (reproduces finding (evaluateOneWith config obs finding.relation comparator)) := by
  obtain ⟨obs, hobs, hget⟩ := observeProfiles_eq_ok digests hexecutor input
    fun name hname ↦ hset hname
  refine ⟨obs, hget, ?_⟩
  rw [stillViolates, hobs]
  rfl

/-- The order of the profiles makes no difference. -/
theorem stillViolates_congr (hexecutor : ErrorFree executor) (finding : RelationFinding)
    {set set' : List String} (hset : set ⊆ config.names) (hmem : ∀ name, name ∈ set ↔ name ∈ set')
    (input : Bytes) :
    stillViolates digests config executor comparator finding set input =
      stillViolates digests config executor comparator finding set' input := by
  obtain ⟨obs, hget, h⟩ := stillViolates_eq_ok digests comparator hexecutor finding hset input
  obtain ⟨obs', hget', h'⟩ := stillViolates_eq_ok digests comparator hexecutor finding
    (fun name hname ↦ hset ((hmem name).2 hname)) input
  have hobs : obs = obs' := Observations.ext fun name ↦ by simp only [hget, hget', hmem]
  rw [h, h', hobs]

/-- **A violated relation is violated by the sets with the involved profiles.** -/
theorem stillViolates_builtIn (hexecutor : ErrorFree executor)
    (hkind : finding.kind = finding.relation.violationKind)
    (hbuiltIn : finding.relation.require.BuiltIn) {input : Bytes}
    (hall : stillViolates digests config executor comparator finding config.names input =
      .ok true) {set : List String} (hset : set ⊆ config.names) :
    stillViolates digests config executor comparator finding set input =
      .ok (decide (finding.relation.involvedProfiles ⊆ set)) := by
  obtain ⟨whole, hwhole, h⟩ := stillViolates_eq_ok digests comparator hexecutor finding
    (List.Subset.refl config.names) input
  obtain ⟨obs, hobs, h'⟩ := stillViolates_eq_ok digests comparator hexecutor finding hset input
  have hviolated := ok.inj (h.symm.trans hall)
  rw [h', ok.injEq, Bool.eq_iff_iff, decide_eq_true_eq]
  constructor
  · intro hreproduces
    obtain ⟨v, hv⟩ := (reproduces_iff hkind).1 hreproduces
    intro name hname
    obtain ⟨o, hget, -⟩ := (of_evaluateOneWith_violation hv).1 name hname
    by_contra hnot
    rw [hobs, if_neg hnot] at hget
    contradiction
  · intro hsubset
    rw [← hviolated, evaluateOneWith_congr hbuiltIn comparator fun name hname ↦ ?_]
    rw [hobs, hwhole, if_pos (hsubset hname), if_pos (hset (hsubset hname))]

/-- What a finding of a campaign is about: its relation is violated by what is observed of all
profiles. -/
structure Violated (digests : Digests) (config : RelationalConfig) (executor : ProfileExecutor)
    (comparator : ExternalComparator) (finding : RelationFinding) (input : Bytes) :
    Prop where
  kind_eq : finding.kind = finding.relation.violationKind
  all : stillViolates digests config executor comparator finding config.names input = .ok true
  profiles_subset : finding.profiles ⊆ config.names
  profiles_builtIn : finding.relation.require.BuiltIn →
    finding.profiles = finding.relation.involvedProfiles
  profiles_external : ¬finding.relation.require.BuiltIn → config.names ⊆ finding.profiles

variable {opts : CampaignOptions} {seeds : List Bytes} {input : Bytes}

theorem violated_of_produced (hexecutor : ErrorFree executor) (hdistinct : config.names.Nodup)
    (h : Produced digests config executor comparator opts seeds finding input) :
    Violated digests config executor comparator finding input := by
  obtain ⟨s, s', -, hround, rfl, added, hadded, hmem⟩ := h
  obtain ⟨runs, hruns, added', hadded', hfound⟩ := iterate_findings hround
  obtain rfl : added = added' := append_cancel_left (hadded.symm.trans hadded')
  obtain ⟨predicate, hpredicate, v, ordinal, hv, rfl⟩ := hfound finding hmem
  obtain ⟨hready, hdescribes⟩ := of_evaluateOneWith_violation hv
  obtain rfl := hdescribes.predicate_eq
  have hget := get_observeRuns digests hexecutor hdistinct hruns
  have hnames : ∀ name, (observeRuns digests config runs).get name ≠ none →
      name ∈ config.names := fun name hname ↦ by
    by_contra hnot
    exact hname ((hget name).trans (observed_eq_none hnot))
  have hsorted : v.profiles.Pairwise (· < ·) := by
    by_cases hbuiltIn : v.predicate.require.BuiltIn
    · rw [hdescribes.profiles_eq hbuiltIn]
      exact pairwise_involvedProfiles _
    · rw [hdescribes.profiles_external hbuiltIn, pairwise_map]
      exact (observeRuns digests config runs).sorted
  have hprofiles : Observation.sortDedup v.profiles = v.profiles := sortDedup_of_pairwise hsorted
  refine ⟨hdescribes.kind_eq, ?_, ?_, ?_, ?_⟩
  · obtain ⟨obs, hobs, h⟩ := stillViolates_eq_ok digests comparator hexecutor _
      (List.Subset.refl config.names) (nextInput opts (seedCorpus seeds).length s).1
    obtain rfl : obs = observeRuns digests config runs := Observations.ext fun name ↦ by
      rw [hobs, hget]
      split
      · rfl
      · next hnot => exact (observed_eq_none hnot).symm
    rw [h, (reproduces_iff hdescribes.kind_eq).2 ⟨v, hv⟩]
  · intro name hname
    have hname : name ∈ v.profiles := hprofiles ▸ hname
    apply hnames
    by_cases hbuiltIn : v.predicate.require.BuiltIn
    · rw [hdescribes.profiles_eq hbuiltIn] at hname
      obtain ⟨o, ho, -⟩ := hready name hname
      simp [ho]
    · rw [hdescribes.profiles_external hbuiltIn] at hname
      exact mem_keys_iff.1 hname
  · exact fun hbuiltIn ↦ hprofiles.trans (hdescribes.profiles_eq hbuiltIn)
  · intro hexternal name hname
    show name ∈ Observation.sortDedup v.profiles
    rw [hprofiles, hdescribes.profiles_external hexternal, mem_keys_iff, hget]
    obtain ⟨o, -, ho⟩ := observeProfile_eq_ok digests hexecutor
      (nextInput opts (seedCorpus seeds).length s).1 hname
    simp [ho]

/-! ### Replay -/

variable (digests config executor comparator) in
/-- The finding is reproduced by a replay that executes its profiles: what the executor would do
for another profile makes no difference, be it a failure. -/
def Replays (finding : RelationFinding) (input : Bytes) : Prop :=
  ∃ result, result.reproduced = true ∧ result.executedProfiles = finding.profiles ∧
    ∀ executor' : ProfileExecutor, (∀ profile, profile.name ∈ finding.profiles →
        executor' profile input = executor profile input) →
      replayWith digests config executor' comparator finding input = .ok result

theorem observeProfilesFrom_congr {executor' : ProfileExecutor} {names : List String}
    (h : ∀ profile, profile.name ∈ names → executor' profile input = executor profile input)
    (obs : Observations) :
    observeProfilesFrom digests config executor' input obs names =
      observeProfilesFrom digests config executor input obs names := by
  induction names generalizing obs with
  | nil => rfl
  | cons name names ih =>
    have hname : observeProfile digests config executor' input name =
        observeProfile digests config executor input name := by
      rw [observeProfile, observeProfile]
      cases hprofile : config.profile name with
      | none => rfl
      | some profile =>
        have hfound := find?_some hprofile
        show (executor' profile input >>= fun run ↦ _) = (executor profile input >>= fun run ↦ _)
        rw [h profile (by simp at hfound; simp [hfound])]
    have htail := ih fun profile hprofile ↦ h profile (mem_cons_of_mem _ hprofile)
    rw [observeProfilesFrom, observeProfilesFrom, hname]
    exact bind_congr fun o ↦ htail _

theorem replays_of_violated (hexecutor : ErrorFree executor)
    (h : Violated digests config executor comparator finding input) :
    Replays digests config executor comparator finding input := by
  obtain ⟨obs, hobs, hget⟩ := observeProfiles_eq_ok digests hexecutor input
    fun name hname ↦ h.profiles_subset hname
  have hviolates : stillViolates digests config executor comparator finding finding.profiles
      input = .ok true := by
    by_cases hbuiltIn : finding.relation.require.BuiltIn
    · rw [stillViolates_builtIn hexecutor h.kind_eq hbuiltIn h.all h.profiles_subset,
        h.profiles_builtIn hbuiltIn, decide_eq_true (List.Subset.refl _)]
    · rw [← h.all]
      exact stillViolates_congr hexecutor finding h.profiles_subset
        (fun name ↦ ⟨fun hname ↦ h.profiles_subset hname,
          fun hname ↦ h.profiles_external hbuiltIn hname⟩) input
  rw [stillViolates, hobs] at hviolates
  refine ⟨{
    executedProfiles := finding.profiles
    reproduced := true
    observations := obs
    outcome := evaluateOneWith config obs finding.relation comparator }, rfl, rfl,
    fun executor' hexecutor' ↦ ?_⟩
  rw [replayWith, observeProfiles, observeProfilesFrom_congr hexecutor']
  rw [observeProfiles] at hobs
  rw [hobs]
  have hreproduces : reproduces finding
      (evaluateOneWith config obs finding.relation comparator) := ok.inj hviolates
  rw [← hreproduces]
  rfl

/-! ### Minimisation -/

/-- What the minimiser returns. -/
structure Minimised (digests : Digests) (config : RelationalConfig) (executor : ProfileExecutor)
    (comparator : ExternalComparator) (finding : RelationFinding) (input : Bytes)
    (result : MinimizeResult) : Prop where
  /-- The input is a part of the one given. -/
  sublist : result.input.Sublist input
  /-- It violates the relation over all profiles. -/
  violates : stillViolates digests config executor comparator finding config.names result.input =
    .ok true
  /-- Without any of its bytes it does not. -/
  minimal : ∀ i < result.input.length, stillViolates digests config executor comparator finding
    config.names (result.input.eraseIdx i) = .ok false
  /-- It violates it over the profiles returned. -/
  violatesProfiles : stillViolates digests config executor comparator finding result.profiles
    result.input = .ok true
  /-- These are the ones that a built-in relation involves. -/
  involved : finding.relation.require.BuiltIn → finding.relation.involvedProfiles ≠ [] →
    result.profiles = finding.relation.involvedProfiles
  /-- If it involves none, the profile declared last is kept. -/
  lastProfile : finding.relation.require.BuiltIn → finding.relation.involvedProfiles = [] →
    result.profiles = config.names.getLast?.toList

theorem minimised_of_violated (hexecutor : ErrorFree executor) (hdistinct : config.names.Nodup)
    (h : Violated digests config executor comparator finding input) :
    ∃ result, minimizeWith digests config executor comparator finding input = .ok result ∧
      Minimised digests config executor comparator finding input result := by
  have htotal : ∀ set, set ⊆ config.names → ∀ input, ∃ accepts,
      stillViolates digests config executor comparator finding set input = .ok accepts :=
    fun set hset input ↦ by
      obtain ⟨obs, -, h⟩ := stillViolates_eq_ok digests comparator hexecutor finding hset input
      exact ⟨_, h⟩
  choose accepts haccepts using htotal config.names (List.Subset.refl _)
  obtain ⟨minimized, runs, hddmin, hsublist, haccepted, hminimal⟩ :=
    Ddmin.ddmin_spec _ haccepts input
  have hviolates : stillViolates digests config executor comparator finding config.names
      minimized = .ok true := by
    rw [haccepts, haccepted (ok.inj ((haccepts input).symm.trans h.all))]
  obtain ⟨required, hrequired, hrequiredSublist, hpasses⟩ :=
    reduceProfiles_passes (fun set hset ↦ htotal set hset minimized) config.names
      (List.Sublist.refl config.names) hviolates
  refine ⟨⟨minimized, required.mergeSort, runs⟩, ?_, hsublist, hviolates, fun i hi ↦ ?_, ?_,
    fun hbuiltIn hne ↦ ?_, fun hbuiltIn hnil ↦ ?_⟩
  · rw [minimizeWith, hddmin]
    show (reduceProfiles _ config.names config.names >>= fun required ↦ _) = _
    rw [hrequired]
    rfl
  · rw [haccepts, hminimal i hi]
  · rw [← hpasses]
    exact stillViolates_congr hexecutor finding
      (fun name hname ↦ hrequiredSublist.subset (mem_mergeSort.1 hname))
      (fun name ↦ mem_mergeSort) minimized
  · have hmem := reduceProfiles_involved
      (fun set hset ↦ stillViolates_builtIn hexecutor h.kind_eq hbuiltIn hviolates hset) hne
      (List.Subset.refl _) (fun name hname ↦ h.profiles_subset
        ((h.profiles_builtIn hbuiltIn).symm ▸ hname)) (fun name hname ↦ .inr hname) hrequired
    -- both lists are in order and hold the same names once
    have hsorted := pairwise_involvedProfiles finding.relation
    have hperm : required.mergeSort.Perm finding.relation.involvedProfiles :=
      (mergeSort_perm _ _).trans ((perm_ext_iff_of_nodup (hdistinct.sublist hrequiredSublist)
        (hsorted.imp fun hlt ↦ hlt.ne)).2 hmem)
    exact hperm.eq_of_pairwise' (pairwise_mergeSort' (· ≤ ·) _) (hsorted.imp fun hlt ↦ hlt.le)
  · have htest : ∀ set, set ⊆ config.names →
        stillViolates digests config executor comparator finding set minimized = .ok true := by
      intro set hset
      rw [stillViolates_builtIn hexecutor h.kind_eq hbuiltIn hviolates hset, hnil,
        decide_eq_true (nil_subset set)]
    have hall := reduceProfiles_all htest (List.Subset.refl _) hdistinct
    obtain ⟨⟩ := hrequired.symm.trans hall
    cases config.names.getLast? <;> simp

end Findings

/-- **Findings replay and minimise.** -/
theorem findings_replay_and_minimise (digests : Digests) (config : RelationalConfig)
    (executor : ProfileExecutor) (comparator : ExternalComparator) (opts : CampaignOptions)
    (seeds : List Bytes) (hdistinct : config.names.Nodup) (hexecutor : ErrorFree executor) :
    (∀ report, runCampaignWith digests config executor comparator opts seeds = .ok report →
      ∀ finding ∈ report.findings, ∃ input,
        Produced digests config executor comparator opts seeds finding input) ∧
    ∀ finding input, Produced digests config executor comparator opts seeds finding input →
      Replays digests config executor comparator finding input ∧
      ∃ result, minimizeWith digests config executor comparator finding input = .ok result ∧
        Minimised digests config executor comparator finding input result := by
  refine ⟨fun report h ↦ exists_produced h, fun finding input h ↦ ?_⟩
  have hviolated := violated_of_produced hexecutor hdistinct h
  exact ⟨replays_of_violated hexecutor hviolated,
    minimised_of_violated hexecutor hdistinct hviolated⟩

/-! ### Campaigns of two profiles -/

def noDigests : Digests where
  sha256Hex _ := ""
  policyHash _ := ""
  profileHash _ := ""
  signature _ _ _ _ _ _ := ""

/-- Two profiles and one predicate. -/
def twoProfiles (predicate : Predicate) : RelationalConfig where
  profiles := [⟨"admin", []⟩, ⟨"viewer", []⟩]
  predicates := [predicate]
  statusMap := { allowed := [0] }

def alwaysAllowed : ProfileExecutor :=
  fun profile _ ↦ .ok (.ready profile.name 0)

theorem errorFree_alwaysAllowed : ErrorFree alwaysAllowed where
  total _ _ := ⟨_, rfl⟩
  labelled _ _ _ h := ok.inj h ▸ rfl

def bothAllowed : Observations :=
  observeRuns noDigests (twoProfiles ⟨"", none, .differ [], none⟩)
    [.ready "admin" 0, .ready "viewer" 0]

/-- A predicate that is violated in the first round gives a finding. -/
theorem produced_first {predicate : Predicate} {v : Violation}
    (h : evaluateOneWith (twoProfiles predicate) bothAllowed predicate (fun _ _ ↦ .clean) =
      .violation v) :
    Produced noDigests (twoProfiles predicate) alwaysAllowed (fun _ _ ↦ .clean) {} []
      (.fromViolation noDigests 1 v (twoProfiles predicate) bothAllowed "") [0] := by
  refine ⟨.start {} [], _, .start, rfl, rfl, [_], ?_, mem_singleton.2 rfl⟩
  show (recordEvaluations noDigests (twoProfiles predicate) {} bothAllowed ""
    (evaluateWith (twoProfiles predicate) bothAllowed fun _ _ ↦ .clean) _).findings = _
  have heval : evaluateWith (twoProfiles predicate) bothAllowed (fun _ _ ↦ .clean) =
      [⟨0, predicate.rule, .violation v⟩] := by
    show [Evaluation.mk 0 predicate.rule _] = _
    rw [h]
  rw [heval]
  rfl

theorem nodup_names_twoProfiles (predicate : Predicate) : (twoProfiles predicate).names.Nodup := by
  show ["admin", "viewer"].Nodup
  decide

def mustBeDenied : Predicate where
  rule := "viewer must be denied"
  require := .statusRelation "viewer" .denied

/-- The profile that the predicate does not name is dropped. -/
theorem mustBeDenied_replays :
    ∃ finding, finding.kind = .unexpectedAllow ∧
      Replays noDigests (twoProfiles mustBeDenied) alwaysAllowed (fun _ _ ↦ .clean) finding [0] ∧
      ∃ result, minimizeWith noDigests (twoProfiles mustBeDenied) alwaysAllowed
          (fun _ _ ↦ .clean) finding [0] = .ok result ∧
        Minimised noDigests (twoProfiles mustBeDenied) alwaysAllowed (fun _ _ ↦ .clean) finding [0]
          result ∧ result.profiles = ["viewer"] := by
  have hviolation : evaluateOneWith (twoProfiles mustBeDenied) bothAllowed mustBeDenied
      (fun _ _ ↦ .clean) = .violation
        { kind := .unexpectedAllow
          ruleLabel := mustBeDenied.rule
          profiles := ["viewer"]
          evidence := []
          predicate := mustBeDenied
          external := none } := rfl
  obtain ⟨hreplays, result, hminimize, hminimised⟩ :=
    (findings_replay_and_minimise noDigests _ alwaysAllowed (fun _ _ ↦ .clean) {} []
      (nodup_names_twoProfiles _) errorFree_alwaysAllowed).2 _ _ (produced_first hviolation)
  have hbuiltIn : mustBeDenied.require.BuiltIn := by simp [mustBeDenied, Require.BuiltIn]
  exact ⟨_, rfl, hreplays, result, hminimize, hminimised, hminimised.involved hbuiltIn (by decide)⟩

def differNone : Predicate where
  rule := "nothing must differ"
  require := .differ []

/-- **A relation without profiles keeps one.** -/
theorem differNone_keeps_profile :
    ∃ finding result, Produced noDigests (twoProfiles differNone) alwaysAllowed
        (fun _ _ ↦ .clean) {} [] finding [0] ∧
      finding.relation.require.BuiltIn ∧
      minimizeWith noDigests (twoProfiles differNone) alwaysAllowed (fun _ _ ↦ .clean) finding
        [0] = .ok result ∧
      finding.relation.involvedProfiles = [] ∧ result.profiles = ["viewer"] := by
  have hviolation : evaluateOneWith (twoProfiles differNone) bothAllowed differNone
      (fun _ _ ↦ .clean) = .violation
        { kind := .unexpectedEquivalence
          ruleLabel := differNone.rule
          profiles := []
          evidence := []
          predicate := differNone
          external := none } := rfl
  have hproduced := produced_first hviolation
  have hviolated := violated_of_produced errorFree_alwaysAllowed
    (nodup_names_twoProfiles differNone) hproduced
  obtain ⟨result, hminimize, hminimised⟩ := minimised_of_violated errorFree_alwaysAllowed
    (nodup_names_twoProfiles differNone) hviolated
  have hbuiltIn : differNone.require.BuiltIn := by simp [differNone, Require.BuiltIn]
  exact ⟨_, result, hproduced, hbuiltIn, hminimize, rfl, hminimised.lastProfile hbuiltIn rfl⟩

end Bhf.Relational
