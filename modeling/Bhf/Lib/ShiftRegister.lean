import Mathlib.Data.List.Basic

/-!
# Shift registers, and the detection of a single change

A shift register moves its bits by one place and, if a one falls out, adds a polynomial. **No step
loses anything** as long as the polynomial has a one in the place that the shift has cleared
(`right_injective`, `left_injective`): that bit of the result says what fell out.

A digest that runs over its input and loses nothing, neither of its state nor of the element it
takes in, differs for inputs that differ in one place (`foldl_ne_of_ne`).
-/

namespace Bhf.ShiftRegister

open Function

variable {w : ℕ}

/-- Shift towards the low end, feeding back what falls out. -/
def right (poly x : BitVec w) : BitVec w :=
  (x >>> 1) ^^^ if x.getLsbD 0 then poly else 0#w

/-- Shift towards the high end, feeding back what falls out. -/
def left (poly x : BitVec w) : BitVec w :=
  (x <<< 1) ^^^ if x.getLsbD (w - 1) then poly else 0#w

theorem right_injective {poly : BitVec w} (hw : 0 < w) (hpoly : poly.getLsbD (w - 1)) :
    Injective (right poly) := by
  have hout : ∀ x : BitVec w, (right poly x).getLsbD (w - 1) = x.getLsbD 0 := by
    intro x
    have hhigh : (x >>> 1).getLsbD (w - 1) = false := by
      rw [BitVec.getLsbD_ushiftRight]
      exact BitVec.getLsbD_of_ge x _ (by omega)
    rw [right, BitVec.getLsbD_xor, hhigh]
    rcases x.getLsbD 0
    · simp
    · simpa using hpoly
  intro x y h
  have hlow : x.getLsbD 0 = y.getLsbD 0 := by rw [← hout x, ← hout y, h]
  rw [right, right, hlow, BitVec.xor_left_inj] at h
  refine BitVec.eq_of_getLsbD_eq fun i _ ↦ ?_
  rcases i with - | i
  · exact hlow
  · have hshift := congrArg (·.getLsbD i) h
    simpa only [BitVec.getLsbD_ushiftRight, Nat.add_comm 1 i] using hshift

theorem left_injective {poly : BitVec w} (hw : 0 < w) (hpoly : poly.getLsbD 0) :
    Injective (left poly) := by
  have hout : ∀ x : BitVec w, (left poly x).getLsbD 0 = x.getLsbD (w - 1) := by
    intro x
    rw [left, BitVec.getLsbD_xor, BitVec.getLsbD_shiftLeft]
    rcases x.getLsbD (w - 1)
    · simp
    · simpa using hpoly
  intro x y h
  have hhigh : x.getLsbD (w - 1) = y.getLsbD (w - 1) := by rw [← hout x, ← hout y, h]
  rw [left, left, hhigh, BitVec.xor_left_inj] at h
  refine BitVec.eq_of_getLsbD_eq fun i hi ↦ ?_
  obtain rfl | hlt : i = w - 1 ∨ i + 1 < w := by omega
  · exact hhigh
  · have hshift := congrArg (·.getLsbD (i + 1)) h
    simp only [BitVec.getLsbD_shiftLeft, hlt] at hshift
    simpa using hshift

/-! ### Digests -/

section Digest

variable {σ α : Type*} {f : σ → α → σ}

theorem foldl_injective (hstate : ∀ a, Injective fun s ↦ f s a) (l : List α) :
    Injective fun s ↦ l.foldl f s := by
  induction l with
  | nil => exact injective_id
  | cons a l ih => exact ih.comp (hstate a)

/-- **A single change is detected.** -/
theorem foldl_ne_of_ne (hstate : ∀ a, Injective fun s ↦ f s a) (hinput : ∀ s, Injective (f s))
    (s : σ) (before after : List α) {a b : α} (h : a ≠ b) :
    (before ++ a :: after).foldl f s ≠ (before ++ b :: after).foldl f s := by
  rw [List.foldl_append, List.foldl_append]
  exact fun heq ↦ h (hinput _ (foldl_injective hstate after heq))

end Digest

end Bhf.ShiftRegister
