import Bhf.Lib.Ddmin
import Bhf.Relational.Finding
import Bhf.Relational.Mutate
import Mathlib.Data.List.AList

/-!
# The relational campaign

A campaign runs each test case under every profile, keeps the test cases that show something new,
and records a finding for each relation that is violated. A finding can be replayed, which runs the
profiles it names, and minimised, which runs all of them.

The executor of profiles and the comparator of external relations are functions of what they are
asked, and the executor may fail. The findings of one round are those of the evaluations of its
test case (`iterate_findings`), and **every finding in the report was produced by a round**
(`exists_produced`).
-/

namespace Bhf.Relational

open List

inductive ExecError where
  | failed (profile detail : String)

abbrev ProfileExecutor := Profile → Bytes → Except ExecError ProfileRun

structure CampaignOptions where
  maxExecs : ℕ := 10000
  maxLen : ℕ := 4096
  seed : UInt64 := 0
  maxFindings : ℕ := 1024

structure OutcomeTally where
  setupFailure : ℕ := 0
  authFailure : ℕ := 0
  missingObservation : ℕ := 0
  policyUnknown : ℕ := 0
  compliant : ℕ := 0
  violation : ℕ := 0

def OutcomeTally.record (tally : OutcomeTally) : RelationOutcome → OutcomeTally
  | .setupFailure _ => { tally with setupFailure := tally.setupFailure + 1 }
  | .authFailure _ => { tally with authFailure := tally.authFailure + 1 }
  | .missingObservation _ _ => { tally with missingObservation := tally.missingObservation + 1 }
  | .policyUnknown _ => { tally with policyUnknown := tally.policyUnknown + 1 }
  | .compliant => { tally with compliant := tally.compliant + 1 }
  | .violation _ => { tally with violation := tally.violation + 1 }

structure CampaignReport where
  findings : List RelationFinding
  outcomes : OutcomeTally
  execs : ℕ
  corpusSize : ℕ

/-! ### What makes a test case new -/

/-- The `Debug` text of a run state. -/
def RunState.debug : RunState → String
  | ready => "Ready"
  | setupFailure => "SetupFailure"
  | authFailure => "AuthFailure"

/-- The `Debug` text of a verdict. -/
def SemanticVerdict.debug : SemanticVerdict → String
  | clean => "Clean"
  | finding => "Finding"
  | unknown => "Unknown"

/-- The texts of the profiles, separated by bars. -/
def shapeKey (shape : Observation → String) (observations : Observations) : String :=
  "|".intercalate (observations.entries.map fun entry ↦ entry.1 ++ ":" ++ shape entry.2)

def outcomeVectorKey : Observations → String :=
  shapeKey fun o ↦ o.runState.debug ++ ":" ++ o.status.debug

def eventShapeKey : Observations → String :=
  shapeKey fun o ↦ ",".intercalate o.targetSet

def semanticShapeKey : Observations → String :=
  shapeKey fun o ↦ ",".intercalate
    (Observation.sortDedup (o.semanticHits.map fun hit ↦ hit.rule ++ "=" ++ hit.verdict.debug))

/-- Fold the coverage of each run into the union of its profile, and say whether one was new. -/
def foldUnions (unions : AList fun _ : String ↦ Bytes) (runs : List ProfileRun) :
    (AList fun _ : String ↦ Bytes) × Bool :=
  runs.foldl (fun (unions, novel) run ↦
    let folded := UnionBitmap.fold ((unions.lookup run.profile).getD []) run.coverage
    (unions.insert run.profile folded.1, novel || folded.2)) (unions, false)

/-- **What is new**: a run hits an edge that no earlier run of its profile hit. -/
theorem foldUnions_iff (earlier : List ProfileRun) (run : ProfileRun) :
    (foldUnions (foldUnions ∅ earlier).1 [run]).2 ↔ ∃ edge ∈ hits run.coverage,
      ∀ other ∈ earlier, other.profile = run.profile → edge ∉ hits other.coverage := by
  have hunion (profile : String) (edge : ℕ) :
      edge ∉ hits (((foldUnions ∅ earlier).1.lookup profile).getD []) ↔
        ∀ other ∈ earlier, other.profile = profile → edge ∉ hits other.coverage := by
    induction earlier using reverseRecOn with
    | nil => simp [foldUnions, hits]
    | append_singleton earlier other ih =>
      simp only [foldUnions, foldl_append, foldl_cons, foldl_nil] at ih ⊢
      rcases eq_or_ne profile other.profile with rfl | h
      · simp [or_imp, forall_and, UnionBitmap.fold_spec, ih]
      · simp [or_imp, forall_and, h, h.symm, ih]
  simp [foldUnions, UnionBitmap.fold_spec, ← hunion]

section Campaign

variable (digests : Digests) (config : RelationalConfig) (executor : ProfileExecutor)
  (comparator : ExternalComparator) (opts : CampaignOptions)

/-! ### Running profiles -/

def runAll (input : Bytes) : Except ExecError (List ProfileRun) :=
  config.profiles.mapM fun profile ↦ executor profile input

def observeRuns (runs : List ProfileRun) : Observations :=
  runs.foldl (fun observations run ↦
    observations.insert run.profile (.fromRun digests.sha256Hex run config.statusMap)) .empty

def observeProfile (input : Bytes) (name : String) : Except ExecError Observation := do
  let profile ← okOr (.failed name "profile not declared in config") (config.profile name)
  let run ← executor profile input
  return .fromRun digests.sha256Hex run config.statusMap

def observeProfilesFrom (input : Bytes) (observations : Observations) :
    List String → Except ExecError Observations
  | [] => .ok observations
  | name :: names => do
    let observation ← observeProfile digests config executor input name
    observeProfilesFrom input (observations.insert name observation) names

def observeProfiles (input : Bytes) (names : List String) : Except ExecError Observations :=
  observeProfilesFrom digests config executor input .empty names

/-! ### The campaign -/

structure CampaignState where
  corpus : List Bytes
  unions : AList fun _ : String ↦ Bytes
  seenOutcomeVectors : Finset String
  seenEventShapes : Finset String
  seenSemanticShapes : Finset String
  seenSignatures : Finset String
  findings : List RelationFinding
  tally : OutcomeTally
  mutator : Rng
  rng : Rng
  execs : ℕ

/-- The seeds, or one byte if there are none. -/
def seedCorpus (seeds : List Bytes) : List Bytes :=
  if seeds.isEmpty then [[0]] else seeds

def CampaignState.start (seeds : List Bytes) : CampaignState where
  corpus := seedCorpus seeds
  unions := ∅
  seenOutcomeVectors := ∅
  seenEventShapes := ∅
  seenSemanticShapes := ∅
  seenSignatures := ∅
  findings := []
  tally := {}
  mutator := Rng.new opts.seed
  rng := Rng.new (opts.seed ^^^ 0x5DEECE66D1B2A5F3)
  execs := 0

/-- The seeds come first, as they are; then an element of the corpus is mutated. -/
def nextInput (seedCount : ℕ) (s : CampaignState) : Bytes × Rng × Rng :=
  if s.execs < seedCount then (s.corpus.getD s.execs [], s.mutator, s.rng)
  else
    let (i, rng) := s.rng.below s.corpus.length
    let (input, mutator) := mutate (s.corpus.getD i []) opts.maxLen s.mutator
    (input, mutator, rng)

/-- Record the evaluations of a test case, up to the largest number of findings. -/
def recordEvaluations (observations : Observations) (testcaseSha : String) :
    List Evaluation → CampaignState → CampaignState
  | [], s => s
  | eval :: evals, s =>
    let s := { s with tally := s.tally.record eval.outcome }
    match eval.outcome with
    | .violation v =>
      let finding := RelationFinding.fromViolation digests (UInt32.ofNat s.findings.length + 1) v
        config observations testcaseSha
      if finding.signature ∈ s.seenSignatures then
        recordEvaluations observations testcaseSha evals s
      else
        let s := { s with
          seenSignatures := insert finding.signature s.seenSignatures
          findings := s.findings ++ [finding] }
        if opts.maxFindings ≤ s.findings.length then s
        else recordEvaluations observations testcaseSha evals s
    | _ => recordEvaluations observations testcaseSha evals s

/-- Keep the test case if it is new in one of the four ways. -/
def noteNovelty (input : Bytes) (runs : List ProfileRun) (observations : Observations)
    (s : CampaignState) : CampaignState :=
  let (unions, novel) := foldUnions s.unions runs
  let outcomeVector := outcomeVectorKey observations
  let eventShape := eventShapeKey observations
  let semanticShape := semanticShapeKey observations
  { s with
    unions := unions
    seenOutcomeVectors := insert outcomeVector s.seenOutcomeVectors
    seenEventShapes := insert eventShape s.seenEventShapes
    seenSemanticShapes := insert semanticShape s.seenSemanticShapes
    corpus :=
      if novel ∨ outcomeVector ∉ s.seenOutcomeVectors ∨ eventShape ∉ s.seenEventShapes ∨
          semanticShape ∉ s.seenSemanticShapes then
        s.corpus ++ [input]
      else s.corpus }

/-- One round of the loop. -/
def iterate (seedCount : ℕ) (s : CampaignState) : Except ExecError CampaignState := do
  let next := nextInput opts seedCount s
  let runs ← runAll config executor next.1
  let observations := observeRuns digests config runs
  let s := { s with
    mutator := next.2.1
    rng := next.2.2
    execs := s.execs + 1 }
  return recordEvaluations digests config opts observations (digests.sha256Hex next.1)
    (evaluateWith config observations comparator) (noteNovelty next.1 runs observations s)

/-- The loop, with the number of executions that are left. -/
def campaignLoop (seedCount : ℕ) : ℕ → CampaignState → Except ExecError CampaignState
  | 0, s => .ok s
  | left + 1, s =>
    if s.findings.length < opts.maxFindings then do
      let s ← iterate digests config executor comparator opts seedCount s
      campaignLoop seedCount left s
    else .ok s

def runCampaignWith (seeds : List Bytes) : Except ExecError CampaignReport := do
  let s ← campaignLoop digests config executor comparator opts (seedCorpus seeds).length
    opts.maxExecs (.start opts seeds)
  return {
    findings := s.findings
    outcomes := s.tally
    execs := s.execs
    corpusSize := s.corpus.length }

/-! ### Replay and minimisation -/

structure ReplayResult where
  executedProfiles : List String
  reproduced : Bool
  observations : Observations
  outcome : RelationOutcome

def RelationOutcome.asViolation : RelationOutcome → Option Violation
  | violation v => some v
  | _ => none

/-- The outcome is a violation of the kind that was found. -/
def reproduces (finding : RelationFinding) (outcome : RelationOutcome) : Bool :=
  outcome.asViolation.any fun v ↦ v.kind = finding.kind

def replayWith (finding : RelationFinding) (input : Bytes) : Except ExecError ReplayResult := do
  let observations ← observeProfiles digests config executor input finding.profiles
  let outcome := evaluateOneWith config observations finding.relation comparator
  return {
    executedProfiles := finding.profiles
    reproduced := reproduces finding outcome
    observations := observations
    outcome := outcome }

def stillViolates (finding : RelationFinding) (profileSet : List String) (input : Bytes) :
    Except ExecError Bool := do
  let observations ← observeProfiles digests config executor input profileSet
  return reproduces finding (evaluateOneWith config observations finding.relation comparator)

structure MinimizeResult where
  input : Bytes
  profiles : List String
  predicateRuns : ℕ

/-- Drop profiles one after the other while the test still succeeds, but not the last one. -/
def reduceProfiles (test : List String → Except ExecError Bool) :
    List String → List String → Except ExecError (List String)
  | [], required => .ok required
  | name :: names, required =>
    if required.length ≤ 1 then .ok required
    else
      let trial := required.filter (· ≠ name)
      match test trial with
      | .error e => .error e
      | .ok true => reduceProfiles test names trial
      | .ok false => reduceProfiles test names required

def RelationalConfig.names (config : RelationalConfig) : List String :=
  config.profiles.map (·.name)

def minimizeWith (finding : RelationFinding) (input : Bytes) : Except ExecError MinimizeResult := do
  let (minimized, predicateRuns) ←
    Ddmin.ddmin (stillViolates digests config executor comparator finding config.names) input
  let required ← reduceProfiles
    (fun trial ↦ stillViolates digests config executor comparator finding trial minimized)
    config.names config.names
  return {
    input := minimized
    profiles := required.mergeSort
    predicateRuns := predicateRuns }

/-! ### Where findings come from -/

/-- A finding is one that the evaluation of a predicate gives rise to. -/
def FoundBy (observations : Observations) (testcaseSha : String) (finding : RelationFinding) :
    Prop :=
  ∃ predicate ∈ config.predicates, ∃ v ordinal,
    evaluateOneWith config observations predicate comparator = .violation v ∧
    finding = .fromViolation digests ordinal v config observations testcaseSha

/-- The states at the head of the loop. -/
inductive Reachable (seeds : List Bytes) : CampaignState → Prop
  | start : Reachable seeds (.start opts seeds)
  | step {s s' : CampaignState} (h : Reachable seeds s)
      (hfindings : s.findings.length < opts.maxFindings)
      (hround : iterate digests config executor comparator opts (seedCorpus seeds).length s =
        .ok s') : Reachable seeds s'

/-- A round of the campaign adds the finding for its test case. -/
def Produced (seeds : List Bytes) (finding : RelationFinding) (input : Bytes) : Prop :=
  ∃ s s', Reachable digests config executor comparator opts seeds s ∧
    iterate digests config executor comparator opts (seedCorpus seeds).length s = .ok s' ∧
    input = (nextInput opts (seedCorpus seeds).length s).1 ∧
    ∃ added, s'.findings = s.findings ++ added ∧ finding ∈ added

variable {digests config executor comparator opts}

theorem recordEvaluations_findings {observations : Observations} {testcaseSha : String}
    {evals : List Evaluation} (s : CampaignState)
    (hevals : ∀ eval ∈ evals, ∃ predicate ∈ config.predicates,
      eval.outcome = evaluateOneWith config observations predicate comparator) :
    ∃ added,
      (recordEvaluations digests config opts observations testcaseSha evals s).findings =
        s.findings ++ added ∧
      ∀ finding ∈ added, FoundBy digests config comparator observations testcaseSha finding := by
  induction evals generalizing s with
  | nil => exact ⟨[], (append_nil _).symm, by simp⟩
  | cons eval evals ih =>
    rw [forall_mem_cons] at hevals
    obtain ⟨⟨predicate, hpredicate, houtcome⟩, hevals⟩ := hevals
    rw [recordEvaluations]
    split
    · next v hviolation =>
      dsimp only
      split
      · exact ih _ hevals
      · have hfound : FoundBy digests config comparator observations testcaseSha
            (.fromViolation digests (UInt32.ofNat s.findings.length + 1) v config observations
              testcaseSha) :=
          ⟨predicate, hpredicate, v, _, houtcome.symm.trans hviolation, rfl⟩
        split
        · exact ⟨_, rfl, by simpa using hfound⟩
        · obtain ⟨added, hadded, hall⟩ := ih { s with
              tally := s.tally.record eval.outcome
              seenSignatures := insert (RelationFinding.fromViolation digests
                _ v config observations testcaseSha).signature
                s.seenSignatures
              findings := s.findings ++ [.fromViolation digests
                _ v config observations testcaseSha] } hevals
          refine ⟨_ :: added, ?_, forall_mem_cons.2 ⟨hfound, hall⟩⟩
          rw [hadded, append_assoc, singleton_append]
    · exact ih _ hevals

/-- **The findings that a round adds are those of the evaluations of its test case.** -/
theorem iterate_findings {seedCount : ℕ} {s s' : CampaignState}
    (h : iterate digests config executor comparator opts seedCount s = .ok s') :
    ∃ runs, runAll config executor (nextInput opts seedCount s).1 = .ok runs ∧
      ∃ added, s'.findings = s.findings ++ added ∧
        ∀ finding ∈ added, FoundBy digests config comparator (observeRuns digests config runs)
          (digests.sha256Hex (nextInput opts seedCount s).1) finding := by
  obtain ⟨runs, hruns, h⟩ := ok_of_bind h
  obtain ⟨⟩ := h
  refine ⟨runs, hruns, recordEvaluations_findings _ fun eval heval ↦ ?_⟩
  obtain ⟨i, hi, rfl⟩ := mem_mapIdx.1 heval
  exact ⟨config.predicates[i], getElem_mem hi, rfl⟩

/-- **Every finding of the campaign was produced by a round.** -/
theorem campaignLoop_produced {seeds : List Bytes} {left : ℕ} {s last : CampaignState}
    (hreachable : Reachable digests config executor comparator opts seeds s)
    (hproduced : ∀ finding ∈ s.findings, ∃ input,
      Produced digests config executor comparator opts seeds finding input)
    (h : campaignLoop digests config executor comparator opts (seedCorpus seeds).length left s =
      .ok last) :
    ∀ finding ∈ last.findings, ∃ input,
      Produced digests config executor comparator opts seeds finding input := by
  induction left generalizing s with
  | zero =>
    obtain ⟨⟩ := h
    exact hproduced
  | succ left ih =>
    rw [campaignLoop] at h
    split at h
    · next hfindings =>
      obtain ⟨s', hround, h⟩ := ok_of_bind h
      obtain ⟨runs, -, added, hadded, -⟩ := iterate_findings hround
      refine ih (hreachable.step hfindings hround) (fun finding hmem ↦ ?_) h
      rw [hadded, mem_append] at hmem
      obtain hmem | hmem := hmem
      · exact hproduced finding hmem
      · exact ⟨_, s, s', hreachable, hround, rfl, added, hadded, hmem⟩
    · obtain ⟨⟩ := h
      exact hproduced

theorem exists_produced {seeds : List Bytes} {report : CampaignReport}
    (h : runCampaignWith digests config executor comparator opts seeds = .ok report) :
    ∀ finding ∈ report.findings, ∃ input,
      Produced digests config executor comparator opts seeds finding input := by
  obtain ⟨last, hloop, h⟩ := ok_of_bind h
  obtain ⟨⟩ := h
  exact campaignLoop_produced .start (by simp [CampaignState.start]) hloop

end Campaign

end Bhf.Relational
