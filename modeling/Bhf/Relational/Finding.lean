import Bhf.Relational.Predicate

/-!
# Findings

A finding records a violated relation with everything that was observed of the profiles in it. The
digests of texts and records are parameters.
-/

namespace Bhf.Relational

/-- The digests that a finding carries. -/
structure Digests where
  sha256Hex : Bytes → String
  policyHash : RelationalConfig → String
  profileHash : Profile → String
  signature : FindingKind → List String → String → Predicate → String → Option String → String

structure FindingPaths where
  testcase : String := "testcase.bin"
  finding : String := "finding.json"

structure RelationFinding where
  id : String
  signature : String
  ruleId : String
  classification : String
  kind : FindingKind
  ruleLabel : String
  profiles : List String
  relation : Predicate
  observations : Observations
  testcaseSha : String
  evidenceEvents : List EffectEvent
  policyHash : String
  profileHashes : List (String × String)
  external : Option ExternalFinding
  paths : FindingPaths

def classification : String :=
  "relational_violation"

def ruleIdForKind : FindingKind → String
  | .unexpectedAllow => "BHF-308"
  | .allowlistEscape => "BHF-309"
  | .unexpectedEquivalence => "BHF-310"
  | .unexpectedDivergence => "BHF-311"
  | .externalComparator => "BHF-312"

/-- A number in at least four digits. -/
def padded (ordinal : UInt32) : String :=
  let digits := toString ordinal
  String.ofList (List.replicate (4 - digits.length) '0') ++ digits

/-- The observations of some of the profiles. -/
def Observations.restrict (observations : Observations) (profiles : List String) : Observations :=
  profiles.foldl (fun obs name ↦
    match observations.get name with
    | some o => obs.insert name o
    | none => obs) .empty

def RelationFinding.fromViolation (digests : Digests) (ordinal : UInt32) (violation : Violation)
    (config : RelationalConfig) (observations : Observations) (testcaseSha : String) :
    RelationFinding :=
  let profiles := Observation.sortDedup violation.profiles
  let policyHash := digests.policyHash config
  let signature := digests.signature violation.kind profiles policyHash violation.predicate
    testcaseSha (violation.external.map (·.signature))
  { id := s!"F-{padded ordinal}-{String.ofList (signature.toList.take 8)}"
    signature := signature
    ruleId := ruleIdForKind violation.kind
    classification := Relational.classification
    kind := violation.kind
    ruleLabel := violation.ruleLabel
    profiles := profiles
    relation := violation.predicate
    observations := observations.restrict profiles
    testcaseSha := testcaseSha
    evidenceEvents := violation.evidence
    policyHash := policyHash
    profileHashes := profiles.foldl (fun hashes name ↦
      match config.profile name with
      | some profile => insertEntry name (digests.profileHash profile) hashes
      | none => hashes) []
    external := violation.external
    paths := {} }

end Bhf.Relational
