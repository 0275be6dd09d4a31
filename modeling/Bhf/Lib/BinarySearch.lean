import Mathlib.Algebra.Order.Group.Nat

/-!
# Binary search

The halving search of a slice by a comparison with what is looked for: `compareAt i` says how the
entry at `i` compares with it. The loop keeps **the last entry that is not too large**
(`binarySearchLoop_spec`); when the slice is strictly sorted that entry settles the answer. The two
forms that are used say what the search returns where the entries below a position are too small
and the ones above it are too large: the position itself if it is a match
(`binarySearchBy_eq_found`), the position as the place to insert if there is none
(`binarySearchBy_eq_insertAt`).
-/

namespace Bhf

/-- What a search returns: where a match is, or where one would have to be inserted. -/
inductive SearchResult where
  | found (index : ℕ)
  | insertAt (index : ℕ)

/-- The loop of the search: `size` entries from `base` on are left. -/
def binarySearchLoop (compareAt : ℕ → Ordering) (base size : ℕ) : ℕ :=
  if 1 < size then
    binarySearchLoop compareAt
      (if compareAt (base + size / 2) = .gt then base else base + size / 2) (size - size / 2)
  else
    base
termination_by size

/-- The answer, given how the entry compares at which the loop ended. -/
def searchResultAt (base : ℕ) : Ordering → SearchResult
  | .eq => .found base
  | .lt => .insertAt (base + 1)
  | .gt => .insertAt base

/-- Search a slice of `n` entries. -/
def binarySearchBy (n : ℕ) (compareAt : ℕ → Ordering) : SearchResult :=
  if n = 0 then
    .insertAt 0
  else
    searchResultAt (binarySearchLoop compareAt 0 n) (compareAt (binarySearchLoop compareAt 0 n))

section

variable {compareAt : ℕ → Ordering} {n : ℕ}

/-- The loop ends at an entry that is not too large, or at the first one, and everything above it
is too large. -/
theorem binarySearchLoop_spec
    (sorted : ∀ i j, i < j → j < n → compareAt i = .gt → compareAt j = .gt) :
    ∀ {base size : ℕ}, 0 < size → base + size ≤ n → (base = 0 ∨ compareAt base ≠ .gt) →
      (∀ j, base + size ≤ j → j < n → compareAt j = .gt) →
      ∃ last, binarySearchLoop compareAt base size = last ∧ last < n ∧
        (last = 0 ∨ compareAt last ≠ .gt) ∧ ∀ j, last < j → j < n → compareAt j = .gt := by
  intro base size
  induction base, size using binarySearchLoop.induct compareAt with
  | case1 base size hsize ih =>
    intro _ hfits hbase habove
    rw [binarySearchLoop, if_pos hsize]
    -- The half that is kept: below the middle if that is too large, from the middle on otherwise.
    by_cases hmid : compareAt (base + size / 2) = .gt
    · rw [dif_pos hmid] at ih
      rw [if_pos hmid]
      refine ih (by omega) (by omega) hbase fun j hj hjn ↦ ?_
      rcases Nat.eq_or_lt_of_le (show base + size / 2 ≤ j by omega) with rfl | hlt
      · exact hmid
      · exact sorted _ j hlt hjn hmid
    · rw [dif_neg hmid] at ih
      rw [if_neg hmid]
      exact ih (by omega) (by omega) (.inr hmid) fun j hj hjn ↦ habove j (by omega) hjn
  | case2 base size hsize =>
    intro hpos hfits hbase habove
    rw [binarySearchLoop, if_neg hsize]
    exact ⟨base, rfl, by omega, hbase, fun j hj hjn ↦ habove j (by omega) hjn⟩

variable {i : ℕ}

/-- A slice whose entries below `i` are too small and whose other entries are too large has no
match, and `i` is the place for one. -/
theorem binarySearchBy_eq_insertAt (hi : i ≤ n) (below : ∀ j < i, compareAt j = .lt)
    (above : ∀ j, i ≤ j → j < n → compareAt j = .gt) :
    binarySearchBy n compareAt = .insertAt i := by
  have sorted : ∀ a b, a < b → b < n → compareAt a = .gt → compareAt b = .gt := by
    intro a b hab hbn ha
    have : ¬ a < i := fun h ↦ by simp [below a h] at ha
    exact above b (by omega) hbn
  by_cases hn : n = 0
  · rw [binarySearchBy, if_pos hn, show i = 0 by omega]
  · obtain ⟨last, hlast, hlt, hmax, habove⟩ := binarySearchLoop_spec sorted (pos_of_ne_zero hn)
      (by omega) (.inl rfl) fun j hj hjn ↦ absurd hjn (by omega)
    rw [binarySearchBy, if_neg hn, hlast]
    by_cases hzero : i = 0
    · obtain rfl : last = 0 := hmax.resolve_right fun h ↦ h (above last (by omega) hlt)
      rw [above 0 (by omega) hlt, hzero]
      rfl
    · -- The last entry that is not too large is the one below `i`.
      obtain rfl : last = i - 1 := by
        by_contra hne
        rcases Nat.lt_or_gt_of_ne hne with h | h
        · have := habove (i - 1) h (by omega)
          simp [below (i - 1) (by omega)] at this
        · exact hmax.elim (by omega) fun h' ↦ h' (above last (by omega) hlt)
      rw [below (i - 1) (by omega)]
      show SearchResult.insertAt (i - 1 + 1) = .insertAt i
      rw [Nat.sub_add_cancel (by omega)]

/-- A slice whose entry at `i` is a match, between entries too small and entries too large. -/
theorem binarySearchBy_eq_found (hi : i < n) (eq : compareAt i = .eq)
    (below : ∀ j < i, compareAt j = .lt) (above : ∀ j, i < j → j < n → compareAt j = .gt) :
    binarySearchBy n compareAt = .found i := by
  have sorted : ∀ a b, a < b → b < n → compareAt a = .gt → compareAt b = .gt := by
    intro a b hab hbn ha
    have : ¬ a < i := fun h ↦ by simp [below a h] at ha
    exact above b (by omega) hbn
  obtain ⟨last, hlast, hlt, hmax, habove⟩ := binarySearchLoop_spec sorted (by omega : 0 < n)
    (by omega) (.inl rfl) fun j hj hjn ↦ absurd hjn (by omega)
  obtain rfl : last = i := by
    rcases Nat.lt_trichotomy last i with h | h | h
    · simp [habove i h hi] at eq
    · exact h
    · exact hmax.elim (by omega) fun h' ↦ absurd (above last h hlt) h'
  rw [binarySearchBy, if_neg (by omega), hlast, eq]
  rfl

end

end Bhf
