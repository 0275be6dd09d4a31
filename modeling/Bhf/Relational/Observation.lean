import Bhf.Lib.SortedEntries
import Bhf.Lib.Spans
import Mathlib.Data.Finset.Lattice.Lemmas
import Mathlib.Data.String.Basic

/-!
# Observations of profiles

What one profile did on one test case, with a record of which streams were collected. A stream that
was not collected leaves a default behind: no events, no edges, the status `Unknown`.
-/

namespace Bhf.Relational

inductive ProfileStatus where
  | allowed
  | denied
  | unknown
  deriving DecidableEq

/-- The `Debug` text of a status. -/
def ProfileStatus.debug : ProfileStatus → String
  | allowed => "Allowed"
  | denied => "Denied"
  | unknown => "Unknown"

inductive RunState where
  | ready
  | setupFailure
  | authFailure
  deriving DecidableEq

inductive EffectKind where
  | processExec
  | commandExec
  | networkEgress
  | libraryLoad
  | other

structure EffectEvent where
  api : String
  kind : EffectKind
  target : String

inductive SemanticVerdict where
  | clean
  | finding
  | unknown

structure SemanticHit where
  rule : String
  verdict : SemanticVerdict
  detail : String

inductive AuthResult where
  | allow
  | deny

structure AuthDecision where
  operation : String
  principal : String
  result : AuthResult

inductive Stream where
  | status
  | coverage
  | effects
  | semantic
  | auth
  deriving DecidableEq

structure Observation where
  profile : String
  runState : RunState
  status : ProfileStatus
  edges : UInt64
  responseDigest : Option String
  exitCode : Option ℤ
  events : List EffectEvent
  semanticHits : List SemanticHit
  authDecisions : List AuthDecision
  collected : Finset Stream

namespace Observation

/-- A run that failed before it could be observed. -/
def failed (profile : String) (runState : RunState) : Observation where
  profile := profile
  runState := runState
  status := .unknown
  edges := 0
  responseDigest := none
  exitCode := none
  events := []
  semanticHits := []
  authDecisions := []
  collected := ∅

def hasStream (o : Observation) (stream : Stream) : Bool :=
  stream ∈ o.collected

/-- `sort` and `dedup` of a vector of strings. -/
def sortDedup (names : List String) : List String :=
  (names.mergeSort fun a b ↦ decide (a ≤ b)).eraseReps

def targetSet (o : Observation) : List String :=
  sortDedup (o.events.map (·.target))

end Observation

/-! ### From a run -/

structure StatusMap where
  allowed : List ℤ := []
  denied : List ℤ := []
  authFailure : List ℤ := []

def StatusMap.classify (statusMap : StatusMap) (exit : ℤ) : ProfileStatus :=
  if exit ∈ statusMap.allowed then .allowed
  else if exit ∈ statusMap.denied then .denied
  else .unknown

def StatusMap.isAuthFailure (statusMap : StatusMap) (exit : ℤ) : Bool :=
  exit ∈ statusMap.authFailure

/-- The result of one profile on one test case. -/
structure ProfileRun where
  profile : String
  runState : RunState
  exitCode : Option ℤ
  response : Bytes
  coverage : Bytes
  events : Option (List EffectEvent)
  semanticHits : List SemanticHit
  authDecisions : List AuthDecision

/-- A run that came through, with no coverage bitmap. -/
def ProfileRun.ready (profile : String) (exitCode : ℤ) : ProfileRun where
  profile := profile
  runState := .ready
  exitCode := some exitCode
  response := []
  coverage := []
  events := some []
  semanticHits := []
  authDecisions := []

/-- The number of edges that were hit. -/
def popcount (bitmap : Bytes) : UInt64 :=
  UInt64.ofNat (bitmap.filter (· ≠ 0)).length

/-- The streams that were collected are those whose data was produced. -/
def collectedStreams (run : ProfileRun) : Finset Stream :=
  {.status} ∪ (if run.coverage.isEmpty then ∅ else {.coverage}) ∪
    (if run.events.isSome then {.effects} else ∅) ∪
    (if run.semanticHits.isEmpty then ∅ else {.semantic}) ∪
    (if run.authDecisions.isEmpty then ∅ else {.auth})

/-- Classify a run. The digest of the response is a parameter. -/
def Observation.fromRun (sha256Hex : Bytes → String) (run : ProfileRun)
    (statusMap : StatusMap) : Observation :=
  if run.runState = .setupFailure then failed run.profile .setupFailure
  else if run.exitCode.any statusMap.isAuthFailure then failed run.profile .authFailure
  else
    { profile := run.profile
      runState := .ready
      status := (run.exitCode.map statusMap.classify).getD .unknown
      edges := popcount run.coverage
      responseDigest := some (sha256Hex run.response)
      exitCode := run.exitCode
      events := run.events.getD []
      semanticHits := run.semanticHits
      authDecisions := run.authDecisions
      collected := collectedStreams run }

/-! ### The observations of all profiles -/

/-- The observations by profile name, in the order of the names. -/
structure Observations where
  entries : List (String × Observation)
  sorted : entries.Pairwise fun a b ↦ a.1 < b.1

namespace Observations

def get (observations : Observations) (profile : String) : Option Observation :=
  observations.entries.lookup profile

def empty : Observations where
  entries := []
  sorted := .nil

def insert (observations : Observations) (profile : String) (o : Observation) : Observations where
  entries := insertEntry profile o observations.entries
  sorted := pairwise_insertEntry profile o observations.sorted

/-- Change every observation in its place. -/
def mapValues (f : Observation → Observation) (observations : Observations) : Observations where
  entries := observations.entries.map fun entry ↦ (entry.1, f entry.2)
  sorted := List.pairwise_map.2 observations.sorted

theorem get_insert (observations : Observations) (profile profile' : String) (o : Observation) :
    (observations.insert profile o).get profile' =
      if profile' = profile then some o else observations.get profile' :=
  lookup_insertEntry profile profile' o observations.entries

theorem mem_keys_iff {observations : Observations} {profile : String} :
    profile ∈ observations.entries.map (·.1) ↔ observations.get profile ≠ none := by
  rw [get, ne_eq, List.lookup_eq_none_iff]
  simp

@[ext]
theorem ext {observations observations' : Observations}
    (h : ∀ profile, observations.get profile = observations'.get profile) :
    observations = observations' := by
  obtain ⟨entries, sorted⟩ := observations
  obtain ⟨entries', sorted'⟩ := observations'
  obtain rfl : entries = entries' := eq_of_lookup_eq sorted sorted' h
  rfl

end Observations

end Bhf.Relational
