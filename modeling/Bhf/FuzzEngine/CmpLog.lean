import Bhf.FuzzEngine.Typed

/-!
# Splices from logged comparisons

A comparison that the target made gives two operands. Where one of them occurs in the input, the
other may be put in its place: `splice_candidates` lists these places, for each entry and in both
directions, overlapping occurrences included.

The search continues one byte behind the last occurrence, so it works on ever shorter rests of the
input; that is why it ends. **It lists exactly the positions at which the source operand occurs**
(`occurrences_eq`), and a splice replaces one such occurrence (`cmplogSplice_occurrence`).
-/

namespace Bhf.FuzzEngine

open StateExcept List

structure CmpEntry where
  siteId : UInt64
  operandA : Bytes
  operandB : Bytes

structure CmpLog where
  entries : List CmpEntry

structure SpliceCandidate where
  siteId : UInt64
  offset : ℕ
  replacement : Bytes
  originalLen : ℕ

/-! ### Candidates -/

/-- The runs of `n` neighbouring bytes. -/
def windows (n : ℕ) (haystack : Bytes) : List Bytes :=
  (List.range (haystack.length + 1 - n)).map fun i ↦ (haystack.drop i).take n

def findSubslice (haystack needle : Bytes) : Option ℕ :=
  if needle.isEmpty || haystack.length < needle.length then none
  else (windows needle.length haystack).findIdx? (· == needle)

variable {pos : ℕ} {src input : Bytes}

theorem ne_nil_of_findSubslice {haystack needle : Bytes}
    (h : findSubslice haystack needle = some pos) : haystack ≠ [] := by
  rintro rfl
  rw [findSubslice] at h
  split at h
  · simp at h
  · next hfits =>
    cases needle with
    | nil | cons b needle => simp at hfits

/-- The candidates for one entry and direction in the rest of the input from `searchFrom` on. -/
def occurrences (siteId : UInt64) (src dst : Bytes) (searchFrom : ℕ) (rest : Bytes) :
    List SpliceCandidate :=
  match _h : findSubslice rest src with
  | none => []
  | some pos =>
    ⟨siteId, searchFrom + pos, dst, src.length⟩ ::
      occurrences siteId src dst (searchFrom + pos + 1) (rest.drop (pos + 1))
termination_by rest.length
decreasing_by
  have hpos := List.length_pos_of_ne_nil (ne_nil_of_findSubslice _h)
  rw [List.length_drop]
  omega

def CmpLog.spliceCandidates (log : CmpLog) (input : Bytes) : List SpliceCandidate :=
  log.entries.flatMap fun entry ↦
    [(entry.operandA, entry.operandB), (entry.operandB, entry.operandA)].flatMap fun (src, dst) ↦
      if src.isEmpty then [] else occurrences entry.siteId src dst 0 input

/-- The candidates that lie in the input and change it. -/
def cmplogSpliceCandidates (log : CmpLog) (input : Bytes) : List SpliceCandidate :=
  (log.spliceCandidates input).filter fun candidate ↦
    match checkedAdd candidate.offset candidate.originalLen with
    | none => false
    | some stop =>
      stop ≤ input.length && Span.slice ⟨candidate.offset, stop⟩ input ≠ candidate.replacement

/-! ### Splicing -/

/-- Put one candidate in place, unless the result is too long or nothing changes. -/
def spliceAt (maxLen : ℕ) (input : Bytes) (candidate : SpliceCandidate) : Gen (Option Bytes) := do
  let kept ← orGiveUp (checkedSub input.length candidate.originalLen)
  let newLen ← orGiveUp (checkedAdd kept candidate.replacement.length)
  -- a candidate that does not fit is passed over, arithmetic that fails ends the search
  if maxLen < newLen then return none
  let stop ← orGiveUp (checkedAdd candidate.offset candidate.originalLen)
  if input.length < stop then return none
  if Span.slice ⟨candidate.offset, stop⟩ input = candidate.replacement then return none
  return some (Span.overwrite ⟨candidate.offset, stop⟩ input candidate.replacement)

def cmplogSplice (maxLen : ℕ) (input : Bytes) (log : CmpLog) : Gen Bytes :=
  tryInRandomOrder (spliceAt maxLen input) (cmplogSpliceCandidates log input)

theorem yields_spliceAt (maxLen : ℕ) (input : Bytes) (candidate : SpliceCandidate) :
    Yields (spliceAt maxLen input candidate) fun o ↦ ∀ out, o = some out → out.length ≤ maxLen := by
  refine (yields_checkedSub _ _).bind fun kept hkept ↦ ?_
  refine (yields_ofOption fun _ ↦ checkedAdd_eq_some).bind fun newLen hnewLen ↦ ?_
  split
  · exact yields_pure (by simp)
  refine (yields_ofOption fun _ ↦ checkedAdd_eq_some).bind fun stop hstop ↦ ?_
  split
  · exact yields_pure (by simp)
  next hin =>
  split
  · exact yields_pure (by simp)
  refine yields_pure ?_
  rintro _ ⟨⟩
  have hfits : (Span.mk candidate.offset stop).FitsIn input.length :=
    ⟨by simp only; omega, not_lt.1 hin⟩
  have hlen : _ + _ = input.length + candidate.replacement.length := Span.length_overwrite_add hfits
  simp only [Span.len] at hlen
  omega

theorem yields_cmplogSplice (maxLen : ℕ) (input : Bytes) (log : CmpLog) :
    Yields (cmplogSplice maxLen input log) fun out ↦ out.length ≤ maxLen :=
  yields_tryInRandomOrder fun candidate _ ↦ yields_spliceAt maxLen input candidate

/-! ### The candidates are the occurrences -/

/-- The source operand stands at this position of the input. -/
def occursAt (src input : Bytes) (i : ℕ) : Bool :=
  src.isPrefixOf (input.drop i)

/-- The positions at which the source operand occurs, in increasing order. -/
def positions (src input : Bytes) : List ℕ :=
  (List.range input.length).filter (occursAt src input)

theorem length_le_of_occursAt {i : ℕ} (h : occursAt src input i) :
    src.length ≤ input.length - i := by
  rw [occursAt, isPrefixOf_iff_prefix] at h
  simpa using h.length_le

theorem occursAt_iff_take {i : ℕ} :
    occursAt src input i ↔ (input.drop i).take src.length = src := by
  rw [occursAt, isPrefixOf_iff_prefix, prefix_iff_eq_take, eq_comm]

/-- The search looks at every window in which the source operand could be. -/
theorem findSubslice_eq_findIdx? (hsrc : src ≠ []) (input : Bytes) :
    findSubslice input src =
      (List.range (input.length + 1 - src.length)).findIdx? (occursAt src input) := by
  have hwindow : ((· == src) ∘ fun i ↦ (input.drop i).take src.length) = occursAt src input := by
    funext i
    rw [Bool.eq_iff_iff, occursAt_iff_take]
    simp
  have hempty : src.isEmpty = false := by simpa using hsrc
  rw [findSubslice, hempty, windows, findIdx?_map, hwindow]
  split
  · next hshort =>
    rw [show input.length + 1 - src.length = 0 by simp at hshort; omega]
    rfl
  · rfl

theorem findSubslice_eq_none_iff (hsrc : src ≠ []) :
    findSubslice input src = none ↔ ∀ i, occursAt src input i = false := by
  rw [findSubslice_eq_findIdx? hsrc, findIdx?_eq_none_iff]
  constructor
  · intro h i
    by_contra hoccurs
    rw [Bool.not_eq_false] at hoccurs
    have hlen := length_le_of_occursAt hoccurs
    have hpos := length_pos_of_ne_nil hsrc
    have hnot := h i (mem_range.mpr (by omega))
    simp [hoccurs] at hnot
  · exact fun h i _ ↦ h i

/-- The positions from the first one on. -/
theorem positions_eq_cons (hpos : pos < input.length) (hoccurs : occursAt src input pos)
    (hfirst : ∀ i < pos, occursAt src input i = false) :
    positions src input = pos :: (positions src (input.drop (pos + 1))).map (pos + 1 + ·) := by
  obtain ⟨m, hm⟩ : ∃ m, input.length = pos + 1 + m := ⟨input.length - (pos + 1), by omega⟩
  have hbefore : (range pos).filter (occursAt src input) = [] := by
    rw [filter_eq_nil_iff]
    intro i hi
    simp [hfirst i (mem_range.mp hi)]
  have hlen : (input.drop (pos + 1)).length = m := by
    rw [length_drop]
    omega
  rw [positions, positions, hlen, hm, range_add, filter_append, range_succ,
    filter_append, hbefore, filter_map]
  simp only [filter_cons, hoccurs, if_true, filter_nil, nil_append, singleton_append]
  congr 2
  refine filter_congr fun i _ ↦ ?_
  rw [Function.comp_apply, occursAt, occursAt, drop_drop]

/-- **The search lists every occurrence**, overlapping ones included: it restarts one byte behind
the last one, and no occurrence begins at or before that. -/
theorem occurrences_eq (siteId : UInt64) (hsrc : src ≠ []) (dst : Bytes) (searchFrom : ℕ)
    (rest : Bytes) :
    occurrences siteId src dst searchFrom rest =
      (positions src rest).map fun i ↦ ⟨siteId, searchFrom + i, dst, src.length⟩ := by
  fun_induction occurrences siteId src dst searchFrom rest
  case case1 searchFrom rest hnone =>
    have hnil : positions src rest = [] := by
      rw [positions, filter_eq_nil_iff]
      intro i _
      simp [(findSubslice_eq_none_iff hsrc).mp hnone i]
    rw [hnil]
    rfl
  case case2 searchFrom rest pos hsome ih =>
    rw [findSubslice_eq_findIdx? hsrc, findIdx?_eq_some_iff_getElem] at hsome
    obtain ⟨_, hoccurs, hfirst⟩ := hsome
    simp only [getElem_range, Bool.not_eq_true] at hoccurs hfirst
    have hpos : pos < rest.length := by
      have hlen := length_le_of_occursAt hoccurs
      have := length_pos_of_ne_nil hsrc
      omega
    rw [ih, positions_eq_cons hpos hoccurs hfirst]
    simp [add_assoc]

theorem direction_eq (siteId : UInt64) (src dst input : Bytes) :
    (if src.isEmpty then [] else occurrences siteId src dst 0 input) =
      if src = [] then [] else (positions src input).map fun i ↦ ⟨siteId, i, dst, src.length⟩ := by
  simp only [List.isEmpty_iff]
  split
  · rfl
  · next hsrc => simp only [occurrences_eq siteId hsrc, zero_add]

theorem cmplogSpliceCandidates_nil (log : CmpLog) : cmplogSpliceCandidates log [] = [] := by
  simp only [cmplogSpliceCandidates, CmpLog.spliceCandidates, direction_eq]
  simp [positions]

/-- The input with one occurrence of an operand replaced by the other operand. -/
def IsSplice (log : CmpLog) (input out : Bytes) : Prop :=
  ∃ entry ∈ log.entries, ∃ src dst i,
    ((src, dst) = (entry.operandA, entry.operandB) ∨
      (src, dst) = (entry.operandB, entry.operandA)) ∧
    src ≠ [] ∧ i ∈ positions src input ∧
    out = input.take i ++ dst ++ input.drop (i + src.length)

/-- What a candidate that is put in place gives. -/
theorem yields_spliceAt_overwrite (maxLen : ℕ) (input : Bytes) (candidate : SpliceCandidate) :
    Yields (spliceAt maxLen input candidate) fun o ↦ ∀ out, o = some out →
      out = input.take candidate.offset ++ candidate.replacement ++
          input.drop (candidate.offset + candidate.originalLen) ∧
        out ≠ input := by
  refine yields_bind fun kept ↦ yields_bind fun newLen ↦ ?_
  split
  · exact yields_pure (by simp)
  refine (yields_ofOption fun _ ↦ checkedAdd_eq_some).bind fun stop hstop ↦ ?_
  split
  · exact yields_pure (by simp)
  next hin =>
  split
  · exact yields_pure (by simp)
  next hchange =>
  refine yields_pure ?_
  rintro _ ⟨⟩
  refine ⟨by rw [hstop]; rfl, fun heq ↦ hchange ?_⟩
  have hfits : (Span.mk candidate.offset stop).FitsIn input.length :=
    ⟨by simp only; omega, not_lt.1 hin⟩
  have hself := (Span.overwrite_slice_self hfits).trans heq.symm
  exact append_cancel_left (append_cancel_right hself)

/-- **Splices from logged comparisons.** The candidates are, for each entry and direction with a
source operand, the positions at which it occurs; and a splice replaces one such occurrence, changes
the input and keeps the length limit. -/
theorem cmplogSplice_occurrence (log : CmpLog) (input : Bytes) (maxLen : ℕ) :
    (log.spliceCandidates input = log.entries.flatMap fun entry ↦
      [(entry.operandA, entry.operandB), (entry.operandB, entry.operandA)].flatMap fun (src, dst) ↦
        if src = [] then []
        else (positions src input).map fun i ↦ ⟨entry.siteId, i, dst, src.length⟩) ∧
      Yields (cmplogSplice maxLen input log) fun out ↦
        IsSplice log input out ∧ out ≠ input ∧ out.length ≤ maxLen := by
  refine ⟨by simp only [CmpLog.spliceCandidates, direction_eq],
    yields_tryInRandomOrder fun candidate hcandidate ↦ ?_⟩
  have hmem := (mem_filter.mp hcandidate).1
  simp only [CmpLog.spliceCandidates, direction_eq, mem_flatMap] at hmem
  obtain ⟨entry, hentry, ⟨src, dst⟩, hdirection, hmem⟩ := hmem
  by_cases hsrc : src = []
  · simp [hsrc] at hmem
  simp only [if_neg hsrc, mem_map] at hmem
  obtain ⟨i, hi, rfl⟩ := hmem
  have hdirection : (src, dst) = (entry.operandA, entry.operandB) ∨
      (src, dst) = (entry.operandB, entry.operandA) := by simpa using hdirection
  intro state o state' hrun out hout
  have hlen := yields_spliceAt maxLen input _ state o state' hrun out hout
  obtain ⟨heq, hne⟩ := yields_spliceAt_overwrite maxLen input _ state o state' hrun out hout
  exact ⟨⟨entry, hentry, src, dst, i, hdirection, hsrc, hi, heq⟩, hne, hlen⟩

end Bhf.FuzzEngine
