import Bhf.Lib.Replace
import Bhf.Relational.Finding
import Mathlib.Data.List.AList

/-!
# Scrubbing secrets from findings

The driver resolves references to secrets and replaces each resolved value by a placeholder with
the reference before a finding is kept. The values are replaced one after the other, the longest
first, so the text of a placeholder is looked through for the values that come later.

**A text that was scrubbed holds no secret**, and scrubbing it again changes nothing
(`redactText_clean`, `redactText_redactText`): a value without angle brackets does not reach across
the end of a placeholder. **But a finding is not scrubbed everywhere.** The rule of a semantic hit,
an authorization decision and the signature and classification of an external comparator are kept
as they are, so the finding is free of secrets exactly if these texts were.
-/

namespace Bhf.Relational

open List

/-- Which value each reference was resolved to. -/
structure SecretResolution where
  map : AList fun _ : String ↦ String

namespace SecretResolution

/-- The pairs with the longest value first, and by their references among those of one length. -/
def ordered (resolution : SecretResolution) : List (String × String) :=
  ((resolution.map.entries.filter fun e ↦ e.2 ≠ "").map fun e ↦ (e.1, e.2)).mergeSort fun a b ↦
    b.2.utf8ByteSize < a.2.utf8ByteSize ∨ (b.2.utf8ByteSize = a.2.utf8ByteSize ∧ a.1 ≤ b.1)

def values (resolution : SecretResolution) : List String :=
  resolution.map.entries.map (·.2)

end SecretResolution

def placeholder (reference : String) : String :=
  "<secret:" ++ reference ++ ">"

def contains (text value : String) : Bool :=
  value.toList <:+: text.toList

def replace (text value replacement : String) : String :=
  String.ofList (replaceAll value.toList replacement.toList text.toList)

/-- Replace one value if it is there. -/
def redactValue (out : String) (pair : String × String) : String :=
  if contains out pair.2 then replace out pair.2 (placeholder pair.1) else out

def redactText (text : String) (resolution : SecretResolution) : String :=
  resolution.ordered.foldl redactValue text

def redactEvents (events : List EffectEvent) (resolution : SecretResolution) : List EffectEvent :=
  events.map fun e ↦
    { e with
      api := redactText e.api resolution
      target := redactText e.target resolution }

def redactObservation (resolution : SecretResolution) (obs : Observation) : Observation :=
  { obs with
    events := redactEvents obs.events resolution
    responseDigest := obs.responseDigest.map fun d ↦ redactText d resolution
    semanticHits := obs.semanticHits.map fun hit ↦
      { hit with detail := redactText hit.detail resolution } }

def redactFinding (finding : RelationFinding) (resolution : SecretResolution) : RelationFinding :=
  { finding with
    evidenceEvents := redactEvents finding.evidenceEvents resolution
    ruleLabel := redactText finding.ruleLabel resolution
    observations := finding.observations.mapValues (redactObservation resolution)
    external := finding.external.map fun external ↦
      { external with detail := external.detail.map fun detail ↦ redactText detail resolution } }

/-! ### Texts without secrets -/

/-- A resolved value occurs in the text. -/
def Leaks (resolution : SecretResolution) (text : String) : Prop :=
  ∃ value ∈ resolution.values, value.toList <:+: text.toList

/-- Values that a placeholder can stand for. -/
structure SecretResolution.WellFormed (resolution : SecretResolution) : Prop where
  /-- None is empty. -/
  nonempty : ∀ value ∈ resolution.values, value ≠ ""
  /-- None holds an angle bracket. -/
  noBracket : ∀ value ∈ resolution.values, '<' ∉ value.toList ∧ '>' ∉ value.toList
  /-- None occurs in a placeholder. -/
  notInPlaceholder : ∀ value ∈ resolution.values, ∀ reference ∈ resolution.map.keys,
    ¬value.toList <:+: (placeholder reference).toList

section Redact

variable {resolution : SecretResolution} {value text : String} {pair : String × String}
  {finding : RelationFinding}

theorem mem_ordered (hformed : resolution.WellFormed) (h : value ∈ resolution.values) :
    ∃ reference, (reference, value) ∈ resolution.ordered := by
  obtain ⟨e, he, rfl⟩ := mem_map.1 h
  refine ⟨e.1, ?_⟩
  rw [SecretResolution.ordered, mem_mergeSort, mem_map]
  refine ⟨e, mem_filter.2 ⟨he, ?_⟩, rfl⟩
  simpa using hformed.nonempty e.2 h

theorem of_mem_ordered (h : pair ∈ resolution.ordered) :
    pair.1 ∈ resolution.map.keys ∧ pair.2 ∈ resolution.values := by
  rw [SecretResolution.ordered, mem_mergeSort, mem_map] at h
  obtain ⟨e, he, rfl⟩ := h
  have hentry := (mem_filter.1 he).1
  exact ⟨mem_map_of_mem hentry, mem_map_of_mem hentry⟩

/-- Replacing a value takes it out, and brings no other one in. -/
theorem redactValue_clean (hformed : resolution.WellFormed) (hpair : pair ∈ resolution.ordered)
    (out : String) (hvalue : value ∈ resolution.values)
    (h : value = pair.2 ∨ ¬value.toList <:+: out.toList) :
    ¬value.toList <:+: (redactValue out pair).toList := by
  have hfenced : Fenced value.toList (placeholder pair.1).toList := by
    refine ⟨⟨'<', "secret:".toList ++ pair.1.toList, '>', ?_, hformed.noBracket value hvalue⟩,
      hformed.notInPlaceholder value hvalue pair.1 (of_mem_ordered hpair).1⟩
    simp [placeholder]
  rw [redactValue]
  split
  · rw [replace, String.toList_ofList]
    obtain rfl | h := h
    · refine not_infix_replaceAll_self hfenced ?_ out.toList
      simpa using hformed.nonempty pair.2 hvalue
    · exact not_infix_replaceAll hfenced pair.2.toList h
  · next hnot =>
    obtain rfl | h := h
    · simpa [contains] using hnot
    · exact h

/-- The induction is on the pairs that are still to be replaced. -/
theorem foldl_redactValue_clean (hformed : resolution.WellFormed)
    (hvalue : value ∈ resolution.values) {pairs : List (String × String)}
    (hpairs : ∀ pair ∈ pairs, pair ∈ resolution.ordered) (out : String)
    (h : (∃ pair ∈ pairs, value = pair.2) ∨ ¬value.toList <:+: out.toList) :
    ¬value.toList <:+: (pairs.foldl redactValue out).toList := by
  induction pairs generalizing out with
  | nil => simpa using h
  | cons pair pairs ih =>
    rw [forall_mem_cons] at hpairs
    rw [foldl_cons]
    by_cases hlater : ∃ pair ∈ pairs, value = pair.2
    · exact ih hpairs.2 _ (.inl hlater)
    · refine ih hpairs.2 _ (.inr (redactValue_clean hformed hpairs.1 out hvalue ?_))
      refine h.imp_left ?_
      rintro ⟨first, hfirst, rfl⟩
      obtain rfl | hfirst := mem_cons.1 hfirst
      · rfl
      · exact absurd ⟨first, hfirst, rfl⟩ hlater

/-- **A text that was scrubbed holds no secret.** -/
theorem redactText_clean (hformed : resolution.WellFormed) (text : String) :
    ¬Leaks resolution (redactText text resolution) := by
  rintro ⟨value, hvalue, hinside⟩
  obtain ⟨reference, hmem⟩ := mem_ordered hformed hvalue
  exact foldl_redactValue_clean hformed hvalue (fun _ ↦ id) text (.inl ⟨_, hmem, rfl⟩) hinside

/-- There is nothing to do in a text without secrets. -/
theorem redactText_of_clean (h : ¬Leaks resolution text) : redactText text resolution = text := by
  have hstep : ∀ pair ∈ resolution.ordered, redactValue text pair = text := by
    intro pair hpair
    rw [redactValue, if_neg]
    intro hcontains
    exact h ⟨pair.2, (of_mem_ordered hpair).2, of_decide_eq_true hcontains⟩
  rw [redactText]
  generalize resolution.ordered = pairs at hstep
  induction pairs with
  | nil => rfl
  | cons pair pairs ih =>
    rw [forall_mem_cons] at hstep
    rw [foldl_cons, hstep.1, ih hstep.2]

/-- **Scrubbing a text again changes nothing.** -/
theorem redactText_redactText (hformed : resolution.WellFormed) (text : String) :
    redactText (redactText text resolution) resolution = redactText text resolution :=
  redactText_of_clean (redactText_clean hformed text)

/-! ### The texts of a finding -/

def EffectEvent.texts (e : EffectEvent) : List String :=
  [e.api, e.target]

def SemanticHit.texts (hit : SemanticHit) : List String :=
  [hit.rule, hit.detail]

def AuthDecision.texts (decision : AuthDecision) : List String :=
  [decision.operation, decision.principal]

/-- The texts of an observation that the target controls. -/
def Observation.texts (obs : Observation) : List String :=
  obs.events.flatMap EffectEvent.texts ++ obs.responseDigest.toList ++
    obs.semanticHits.flatMap SemanticHit.texts ++ obs.authDecisions.flatMap AuthDecision.texts

def ExternalFinding.texts (external : ExternalFinding) : List String :=
  [external.signature, external.classification] ++ external.detail.toList

/-- The texts of a finding that the target controls. -/
def RelationFinding.texts (finding : RelationFinding) : List String :=
  finding.evidenceEvents.flatMap EffectEvent.texts ++
    finding.observations.entries.flatMap (fun entry ↦ entry.2.texts) ++
    finding.external.toList.flatMap ExternalFinding.texts

/-- Those of an observation that are kept as they are. -/
def Observation.keptTexts (obs : Observation) : List String :=
  obs.semanticHits.map (·.rule) ++ obs.authDecisions.flatMap AuthDecision.texts

/-- Those of a finding that are kept as they are. -/
def RelationFinding.keptTexts (finding : RelationFinding) : List String :=
  finding.observations.entries.flatMap (fun entry ↦ entry.2.keptTexts) ++
    finding.external.toList.flatMap fun external ↦ [external.signature, external.classification]

/-- A text was scrubbed or is one of those that are kept. -/
def ScrubbedOr (resolution : SecretResolution) (kept : List String) (text : String) : Prop :=
  (∃ original, text = redactText original resolution) ∨ text ∈ kept

theorem scrubbed_redactEvents {events : List EffectEvent}
    (h : text ∈ (redactEvents events resolution).flatMap EffectEvent.texts) :
    ∃ original, text = redactText original resolution := by
  simp only [redactEvents, EffectEvent.texts, flatMap_map, mem_flatMap, mem_cons,
    not_mem_nil, or_false] at h
  obtain ⟨e, -, rfl | rfl⟩ := h
  · exact ⟨e.api, rfl⟩
  · exact ⟨e.target, rfl⟩

theorem scrubbedOr_redactObservation {obs : Observation}
    (h : text ∈ (redactObservation resolution obs).texts) :
    ScrubbedOr resolution obs.keptTexts text := by
  simp only [Observation.texts, mem_append] at h
  obtain ((h | h) | h) | h := h
  · exact .inl (scrubbed_redactEvents h)
  · obtain ⟨digest, -, rfl⟩ := Option.map_eq_some_iff.1 (Option.mem_toList.1 h)
    exact .inl ⟨digest, rfl⟩
  · simp only [redactObservation, SemanticHit.texts, flatMap_map, mem_flatMap,
      mem_cons, not_mem_nil, or_false] at h
    obtain ⟨hit, hhit, rfl | rfl⟩ := h
    · exact .inr (mem_append_left _ (mem_map_of_mem hhit))
    · exact .inl ⟨hit.detail, rfl⟩
  · exact .inr (mem_append_right _ h)

theorem scrubbedOr_redactFinding (h : text ∈ (redactFinding finding resolution).texts) :
    ScrubbedOr resolution finding.keptTexts text := by
  simp only [RelationFinding.texts, mem_append] at h
  obtain (h | h) | h := h
  · exact .inl (scrubbed_redactEvents h)
  · simp only [redactFinding, Observations.mapValues, flatMap_map, mem_flatMap] at h
    obtain ⟨entry, hentry, h⟩ := h
    refine (scrubbedOr_redactObservation h).imp_right fun hkept ↦ ?_
    exact mem_append_left _ (mem_flatMap.2 ⟨entry, hentry, hkept⟩)
  · simp only [redactFinding, Option.toList_map, flatMap_map, mem_flatMap,
      ExternalFinding.texts, mem_append] at h
    obtain ⟨external, hexternal, h | h⟩ := h
    · exact .inr (mem_append_right _ (mem_flatMap.2 ⟨external, hexternal, h⟩))
    · obtain ⟨detail, -, rfl⟩ := mem_map.1 h
      exact .inl ⟨detail, rfl⟩

theorem keptTexts_subset : finding.keptTexts ⊆ (redactFinding finding resolution).texts := by
  intro text h
  simp only [RelationFinding.texts, redactFinding, Observations.mapValues, Option.toList_map,
    flatMap_map, mem_append, mem_flatMap]
  obtain h | h := mem_append.1 h
  · obtain ⟨entry, hentry, h⟩ := mem_flatMap.1 h
    refine .inl (.inr ⟨entry, hentry, ?_⟩)
    simp only [Observation.texts, redactObservation, flatMap_map, mem_append, mem_flatMap]
    obtain h | h := mem_append.1 h
    · obtain ⟨hit, hhit, rfl⟩ := mem_map.1 h
      exact .inl (.inr ⟨hit, hhit, by simp [SemanticHit.texts]⟩)
    · exact .inr (mem_flatMap.1 h)
  · obtain ⟨external, hexternal, h⟩ := mem_flatMap.1 h
    exact .inr ⟨external, hexternal, mem_append_left _ h⟩

end Redact

/-- **What is left of the secrets in a finding.** A scrubbed finding is free of them exactly if the
rules of its semantic hits, its authorization decisions and the signature and classification of its
external comparator were; texts that are scrubbed are free of them once and for all. -/
theorem redactFinding_clean_iff (resolution : SecretResolution) (hformed : resolution.WellFormed)
    (finding : RelationFinding) :
    ((∀ text ∈ (redactFinding finding resolution).texts, ¬Leaks resolution text) ↔
      ∀ text ∈ finding.keptTexts, ¬Leaks resolution text) ∧
    ∀ text, redactText (redactText text resolution) resolution = redactText text resolution := by
  refine ⟨⟨fun h text htext ↦ h text (keptTexts_subset htext), fun h text htext ↦ ?_⟩,
    redactText_redactText hformed⟩
  obtain ⟨original, rfl⟩ | hkept := scrubbedOr_redactFinding htext
  · exact redactText_clean hformed original
  · exact h text hkept

/-! ### A secret in an authorization decision -/

def adminToken : SecretResolution where
  map := ⟨[⟨"lab:admin", "s3cr3t"⟩], by simp [List.NodupKeys]⟩

theorem adminToken_wellFormed : adminToken.WellFormed where
  nonempty := by simp [adminToken, SecretResolution.values]
  noBracket := by simp [adminToken, SecretResolution.values]
  notInPlaceholder := by
    decide +kernel

/-- The target reports a decision for the principal that it was given. -/
def decisionFor (principal : String) : RelationFinding where
  id := "F-0001-00000000"
  signature := "00000000"
  ruleId := ruleIdForKind .unexpectedAllow
  classification := classification
  kind := .unexpectedAllow
  ruleLabel := "viewer must be denied"
  profiles := ["viewer"]
  relation := { rule := "viewer must be denied", require := .statusRelation "viewer" .denied }
  observations := Observations.empty.insert "viewer"
    { profile := "viewer"
      runState := .ready
      status := .allowed
      edges := 0
      responseDigest := none
      exitCode := some 0
      events := []
      semanticHits := []
      authDecisions := [⟨"read", principal, .allow⟩]
      collected := {.status, .auth} }
  testcaseSha := ""
  evidenceEvents := []
  policyHash := ""
  profileHashes := []
  external := none
  paths := {}

/-- **The principal of a decision is kept.** -/
theorem decision_leaks :
    adminToken.WellFormed ∧
      ∃ text ∈ (redactFinding (decisionFor "s3cr3t") adminToken).texts,
        Leaks adminToken text := by
  have hkept : "s3cr3t" ∈ (decisionFor "s3cr3t").keptTexts := .tail _ (.head _)
  exact ⟨adminToken_wellFormed, "s3cr3t", keptTexts_subset hkept, "s3cr3t",
    by simp [adminToken, SecretResolution.values], infix_refl _⟩

theorem decision_clean :
    adminToken.WellFormed ∧
      ∀ text ∈ (redactFinding (decisionFor "viewer") adminToken).texts, ¬Leaks adminToken text := by
  refine ⟨adminToken_wellFormed,
    (redactFinding_clean_iff adminToken adminToken_wellFormed _).1.2 ?_⟩
  have hclean : ∀ text ∈ ["read", "viewer"], ¬"s3cr3t".toList <:+: text.toList := by
    decide +kernel
  rintro text htext ⟨value, hvalue, hinside⟩
  obtain rfl : value = "s3cr3t" := by simpa [adminToken, SecretResolution.values] using hvalue
  exact hclean text htext hinside

end Bhf.Relational
