import Mathlib.Data.List.Sort
import Mathlib.Data.Prod.Lex
import Mathlib.Data.Finset.Card
import Mathlib.Data.String.Basic
import Bhf.FuzzEngine.Typed

/-!
# Which mined tokens a dictionary keeps

The candidates of a bucket are ranked, and a greedy pass keeps each one that is no near duplicate of
one kept before, up to a cap. What it keeps is apart, ranked, and complete up to near duplicates
(`curated_retainBucket`).

**The cap is tested after a candidate was kept.** So one is kept even where the cap is zero
(`retainEntries_curated_iff`), and that is the only way past it.
-/

namespace Bhf.FuzzEngine

open List

/-! ### The greedy pass -/

section Greedy

variable {α : Type} (near : α → α → Bool) (cap : ℕ)

/-- Keep what is near to nothing kept before, until as many are kept as the cap says. -/
def retain : List α → List α → List α
  | retained, [] => retained
  | retained, candidate :: rest =>
    if retained.any (near · candidate) then retain retained rest
    else if cap ≤ (retained ++ [candidate]).length then retained ++ [candidate]
    else retain (retained ++ [candidate]) rest

variable {near cap} {retained candidates : List α} {ranked : α → α → Prop}

theorem prefix_retain : retained <+: retain near cap retained candidates := by
  fun_induction retain near cap retained candidates with
  | case1 => exact prefix_rfl
  | case2 retained candidate rest _ ih => exact ih
  | case3 => exact prefix_append _ _
  | case4 retained candidate rest _ _ ih => exact (prefix_append _ _).trans ih

theorem retain_sublist :
    (retain near cap retained candidates).Sublist (retained ++ candidates) := by
  fun_induction retain near cap retained candidates with
  | case1 => rw [append_nil]
  | case2 retained candidate rest _ ih => exact ih.trans (by simp)
  | case3 => exact List.Sublist.append_left (by simp) _
  | case4 retained candidate rest _ _ ih => simpa using ih

theorem pairwise_retain (h : retained.Pairwise fun a b ↦ near a b = false) :
    (retain near cap retained candidates).Pairwise fun a b ↦ near a b = false := by
  have hadd {retained : List α} {candidate : α} (h : retained.Pairwise fun a b ↦ near a b = false)
      (hnot : ¬ retained.any (near · candidate)) :
      (retained ++ [candidate]).Pairwise fun a b ↦ near a b = false := by
    simp only [any_eq_true, not_exists, not_and, Bool.not_eq_true] at hnot
    refine pairwise_append.mpr ⟨h, pairwise_singleton _ _, fun a ha b hb ↦ ?_⟩
    rw [mem_singleton.mp hb]
    exact hnot a ha
  fun_induction retain near cap retained candidates with
  | case1 => exact h
  | case2 retained candidate rest _ ih => exact ih h
  | case3 retained candidate rest hnot _ => exact hadd h hnot
  | case4 retained candidate rest hnot _ ih => exact ih (hadd h hnot)

theorem length_retain_le (h : retained.length < cap) :
    (retain near cap retained candidates).length ≤ cap := by
  fun_induction retain near cap retained candidates with
  | case1 => exact h.le
  | case2 retained candidate rest _ ih => exact ih h
  | case3 retained candidate rest _ hfull =>
    rw [length_append]
    exact h
  | case4 retained candidate rest _ hfull ih => exact ih (not_le.mp hfull)

/-- What is left out while there is room is near to something kept before it. -/
theorem exists_near_of_not_mem_retain (hranked : (retained ++ candidates).Pairwise ranked)
    (hroom : (retain near cap retained candidates).length < cap) {candidate : α}
    (hmem : candidate ∈ candidates) (hnot : candidate ∉ retain near cap retained candidates) :
    ∃ kept ∈ retain near cap retained candidates,
      near kept candidate ∧ ranked kept candidate := by
  fun_induction retain near cap retained candidates with
  | case1 => contradiction
  | case2 retained first rest hany ih =>
    rcases mem_cons.mp hmem with rfl | hrest
    · obtain ⟨kept, hkept, hnear⟩ := any_eq_true.mp hany
      exact ⟨kept, prefix_retain.mem hkept, hnear,
        (pairwise_append.mp hranked).2.2 kept hkept candidate mem_cons_self⟩
    · exact ih (hranked.sublist (by simp)) hroom hrest hnot
  | case3 retained first rest _ hfull => omega
  | case4 retained first rest _ _ ih =>
    rcases mem_cons.mp hmem with rfl | hrest
    · exact absurd (prefix_retain.mem (by simp)) hnot
    · exact ih (by simpa using hranked) hroom hrest hnot

end Greedy

/-! ### Candidates -/

structure DictionaryProvenance where
  sourceUnit : String
  spanStart : ℕ
  spanEnd : ℕ
  deriving DecidableEq

structure Candidate where
  bucket : DictionaryBucket
  token : Bytes
  normalized : Bytes
  occurrences : ℕ
  score : ℕ
  provenance : DictionaryProvenance

/-- A dictionary entry with what it was ranked by. -/
structure CuratedEntry extends DictionaryEntry where
  occurrences : ℕ
  score : ℕ
  provenance : DictionaryProvenance
  deriving DecidableEq

def Candidate.toEntry (c : Candidate) : CuratedEntry :=
  ⟨⟨c.bucket, c.token⟩, c.occurrences, c.score, c.provenance⟩

structure DictionaryCurationConfig where
  topKPerBucket : ℕ
  nearDuplicateJaccardPercent : ℕ

/-- The distinct windows of four bytes; the source keeps them in a sorted list. -/
def grams4 (value : Bytes) : Finset Bytes :=
  ((value.tails.filter fun tail ↦ 4 ≤ tail.length).map fun tail ↦ tail.take 4).toFinset

def jaccardPercent4gram (left right : Bytes) : ℕ :=
  if left = right then 100
  else if left.length < 4 ∨ right.length < 4 then 0
  else
    let intersection := (grams4 left ∩ grams4 right).card
    intersection * 100 / ((grams4 left).card + (grams4 right).card - intersection) % 2 ^ 8

def nearDuplicate (config : DictionaryCurationConfig) (existing candidate : Candidate) : Bool :=
  config.nearDuplicateJaccardPercent ≤ jaccardPercent4gram existing.normalized candidate.normalized

/-- The keys of the sort; the first two count downwards. -/
def Candidate.rank (c : Candidate) : ℕᵒᵈ ×ₗ ℕᵒᵈ ×ₗ String ×ₗ ℕ ×ₗ List ℕ :=
  toLex (.toDual c.score, toLex (.toDual c.occurrences, toLex (c.provenance.sourceUnit,
    toLex (c.provenance.spanStart, c.token.map UInt8.toNat))))

def ranksBefore (left right : Candidate) : Prop := left.rank ≤ right.rank

instance : DecidableRel ranksBefore := fun _ _ ↦ inferInstanceAs (Decidable (_ ≤ _))

instance : IsTrans Candidate ranksBefore := ⟨fun _ _ _ ↦ le_trans⟩

instance : Std.Total ranksBefore := ⟨fun left right ↦ le_total left.rank right.rank⟩

theorem score_le_of_ranksBefore {left right : Candidate} (h : ranksBefore left right) :
    right.score ≤ left.score := by
  rcases Prod.Lex.le_iff.mp h with hlt | ⟨heq, -⟩
  · exact (OrderDual.toDual_lt_toDual.mp hlt).le
  · exact (OrderDual.toDual_inj.mp heq).ge

/-! ### The pass over the buckets -/

def retainBucket (config : DictionaryCurationConfig) (candidates : List Candidate) :
    List Candidate :=
  retain (nearDuplicate config) config.topKPerBucket [] (candidates.insertionSort ranksBefore)

/-- The candidates come in the order of their keys, and a key starts with the bucket, so the buckets
come in their order. -/
def retainEntries (config : DictionaryCurationConfig) (aggregated : List Candidate) :
    List CuratedEntry :=
  (aggregated.map (·.bucket)).dedup.flatMap fun bucket ↦
    (retainBucket config (aggregated.filter (·.bucket = bucket))).map Candidate.toEntry

/-- What is kept of the candidates of a bucket. -/
structure Curated (config : DictionaryCurationConfig) (candidates retained : List Candidate) :
    Prop where
  /-- Nothing is invented. -/
  mem : ∀ c ∈ retained, c ∈ candidates
  /-- The bucket is not overfull. -/
  length_le : retained.length ≤ config.topKPerBucket
  /-- No two are near duplicates. -/
  apart : retained.Pairwise fun a b ↦
    jaccardPercent4gram a.normalized b.normalized < config.nearDuplicateJaccardPercent
  /-- They stand in the order of their scores. -/
  ranked : retained.Pairwise fun a b ↦ b.score ≤ a.score
  /-- A bucket with room leaves out only what a better candidate nearly duplicates. -/
  covered : retained.length < config.topKPerBucket → ∀ c ∈ candidates, c ∉ retained →
    ∃ kept ∈ retained, ranksBefore kept c ∧
      config.nearDuplicateJaccardPercent ≤ jaccardPercent4gram kept.normalized c.normalized

variable {config : DictionaryCurationConfig}

theorem mem_of_mem_retainBucket {candidates : List Candidate} {c : Candidate}
    (h : c ∈ retainBucket config candidates) : c ∈ candidates :=
  (mem_insertionSort ranksBefore).mp (retain_sublist.mem h)

theorem curated_retainBucket (hcap : 0 < config.topKPerBucket) (candidates : List Candidate) :
    Curated config candidates (retainBucket config candidates) := by
  have hsorted := pairwise_insertionSort ranksBefore candidates
  refine ⟨fun c ↦ mem_of_mem_retainBucket, length_retain_le hcap, ?_, ?_, fun hroom c hc hnot ↦ ?_⟩
  · refine (pairwise_retain List.Pairwise.nil).imp fun {a b} h ↦ ?_
    exact not_le.mp (of_decide_eq_false h)
  · exact (hsorted.sublist retain_sublist).imp score_le_of_ranksBefore
  · obtain ⟨kept, hkept, hnear, hranked⟩ := exists_near_of_not_mem_retain hsorted hroom
      ((mem_insertionSort ranksBefore).mpr hc) hnot
    exact ⟨kept, hkept, hranked, of_decide_eq_true hnear⟩

theorem flatMap_ite_eq {α β : Type} [DecidableEq α] {l : List α} (hl : l.Nodup) (a : α)
    (x : List β) : (l.flatMap fun b ↦ if b = a then x else []) = if a ∈ l then x else [] := by
  induction l with
  | nil => rfl
  | cons b l ih =>
    obtain ⟨hb, hl⟩ := nodup_cons.mp hl
    rw [flatMap_cons, ih hl]
    by_cases heq : b = a
    · subst heq
      rw [if_pos rfl, if_neg hb, if_pos mem_cons_self, append_nil]
    · rw [if_neg heq]
      simp [Ne.symm heq]

/-- Of the entries of a bucket nothing comes from the others. -/
theorem filter_retainEntries (aggregated : List Candidate) (bucket : DictionaryBucket) :
    (retainEntries config aggregated).filter (·.bucket = bucket) =
      (retainBucket config (aggregated.filter (·.bucket = bucket))).map Candidate.toEntry := by
  have hbucket {b : DictionaryBucket} {entry : CuratedEntry}
      (h : entry ∈ (retainBucket config (aggregated.filter (·.bucket = b))).map
        Candidate.toEntry) : entry.bucket = b := by
    obtain ⟨c, hc, rfl⟩ := mem_map.mp h
    exact of_decide_eq_true (mem_filter.mp (mem_of_mem_retainBucket hc)).2
  have hpart (b : DictionaryBucket) :
      ((retainBucket config (aggregated.filter (·.bucket = b))).map Candidate.toEntry).filter
        (·.bucket = bucket) = if b = bucket then
        (retainBucket config (aggregated.filter (·.bucket = bucket))).map Candidate.toEntry
      else [] := by
    split
    · next heq =>
      subst heq
      exact filter_eq_self.mpr fun entry hentry ↦ decide_eq_true (hbucket hentry)
    · next hne =>
      refine filter_eq_nil_iff.mpr fun entry hentry h ↦ hne ?_
      exact (hbucket hentry).symm.trans (of_decide_eq_true h)
  rw [retainEntries, filter_flatMap]
  simp only [hpart]
  rw [flatMap_ite_eq (nodup_dedup _)]
  split
  · rfl
  next hnone =>
  -- The bucket has no candidates, so nothing was kept of it either.
  have hempty : aggregated.filter (·.bucket = bucket) = [] := by
    refine filter_eq_nil_iff.mpr fun c hc h ↦ hnone ?_
    exact mem_dedup.mpr (mem_map.mpr ⟨c, hc, of_decide_eq_true h⟩)
  rw [hempty]
  rfl

/-- A first candidate is kept whatever the cap is. -/
theorem retainBucket_ne_nil {candidates : List Candidate} (h : candidates ≠ []) :
    retainBucket config candidates ≠ [] := by
  rw [retainBucket]
  rcases hsorted : candidates.insertionSort ranksBefore with - | ⟨first, rest⟩
  · have hlength := length_insertionSort ranksBefore candidates
    rw [hsorted] at hlength
    exact absurd (length_eq_zero_iff.mp hlength.symm) h
  · rw [retain, if_neg (by simp)]
    split
    · exact cons_ne_nil _ _
    · exact fun hnil ↦ absurd (prefix_retain.mem mem_cons_self) (hnil ▸ not_mem_nil)

/-- **Curation keeps what it should exactly if the cap is not zero**, or nothing was mined. -/
theorem retainEntries_curated_iff (config : DictionaryCurationConfig)
    (aggregated : List Candidate) :
    (∀ bucket, ∃ retained, (retainEntries config aggregated).filter (·.bucket = bucket) =
        retained.map Candidate.toEntry ∧
      Curated config (aggregated.filter (·.bucket = bucket)) retained) ↔
      0 < config.topKPerBucket ∨ aggregated = [] := by
  refine ⟨fun h ↦ ?_, fun h bucket ↦ ⟨_, filter_retainEntries aggregated bucket, ?_⟩⟩
  · by_contra hnot
    obtain ⟨hzero, hne⟩ := not_or.mp hnot
    obtain ⟨c, rest, rfl⟩ := exists_cons_of_ne_nil hne
    obtain ⟨retained, heq, hcurated⟩ := h c.bucket
    have hnil : retained = [] := length_eq_zero_iff.mp (by have := hcurated.length_le; omega)
    rw [hnil, filter_retainEntries, map_nil, map_eq_nil_iff] at heq
    exact retainBucket_ne_nil (ne_nil_of_mem (mem_filter.mpr ⟨.head _, by simp⟩)) heq
  · rcases h with hcap | rfl
    · exact curated_retainBucket hcap _
    · exact ⟨by simp [retainBucket, retain], Nat.zero_le _, .nil, .nil, fun _ _ ↦ by simp⟩

/-- One enumeration literal, as it is mined. -/
def redLiteral : Candidate :=
  ⟨.enumLiteral "Color", [82, 101, 100], [114, 101, 100], 1, 4, ⟨"Paint", 10, 13⟩⟩

theorem retainEntries_zero_cap : retainEntries ⟨0, 90⟩ [redLiteral] = [redLiteral.toEntry] := by
  decide

end Bhf.FuzzEngine
