import Mathlib.Data.Nat.Bitwise

/-!
# Checked `usize` arithmetic and rounding to a power of two

Pointer-sized arithmetic is over 64 bits: `checkedAdd` and `checkedSub` are the operations that
return nothing instead of wrapping. `roundUp a x` is the least multiple of `a` that is at least `x`
when `a` is a power of two; the mask idiom `(x + mask) & !mask` computes it
(`land_usizeNot_eq`), and everything after that is division with remainder.
-/

namespace Bhf

/-- The number of values of a `usize`. -/
def usizeSize : ℕ :=
  2 ^ 64

/-- Addition of two `usize` values, or nothing on overflow. -/
def checkedAdd (a b : ℕ) : Option ℕ :=
  if a + b < usizeSize then some (a + b) else none

/-- Subtraction of two `usize` values, or nothing below zero. -/
def checkedSub (a b : ℕ) : Option ℕ :=
  if b ≤ a then some (a - b) else none

/-- The largest `usize`. -/
def usizeMax : ℕ :=
  usizeSize - 1

/-- The value between `lo` and `hi` that is closest to `x`, for `lo ≤ hi`. -/
def clamp (x lo hi : ℕ) : ℕ :=
  if x < lo then lo else if hi < x then hi else x

/-- The bitwise complement of a `usize`. -/
def usizeNot (a : ℕ) : ℕ :=
  usizeSize - 1 - a

variable {a b : ℕ}

theorem checkedAdd_of_lt (h : a + b < usizeSize) : checkedAdd a b = some (a + b) :=
  if_pos h

theorem checkedAdd_of_not_lt (h : ¬ a + b < usizeSize) : checkedAdd a b = none :=
  if_neg h

theorem checkedSub_of_le (h : b ≤ a) : checkedSub a b = some (a - b) :=
  if_pos h

theorem checkedAdd_eq_some {c : ℕ} (h : checkedAdd a b = some c) : a + b = c := by
  rw [checkedAdd] at h
  split at h
  · exact Option.some.inj h
  · simp at h

theorem checkedSub_eq_some {c : ℕ} (h : checkedSub a b = some c) : b + c = a := by
  rw [checkedSub] at h
  split at h
  · next hle =>
    have := Option.some.inj h
    omega
  · simp at h

/-- A power of two that is a `usize`. -/
def UsizePowTwo (a : ℕ) : Prop :=
  ∃ k < 64, a = 2 ^ k

theorem UsizePowTwo.pos (ha : UsizePowTwo a) : 0 < a := by
  obtain ⟨k, -, rfl⟩ := ha
  exact Nat.two_pow_pos k

theorem usizePowTwo_one : UsizePowTwo 1 := ⟨0, by decide, rfl⟩

theorem usizePowTwo_two : UsizePowTwo 2 := ⟨1, by decide, rfl⟩

theorem usizePowTwo_four : UsizePowTwo 4 := ⟨2, by decide, rfl⟩

theorem usizePowTwo_eight : UsizePowTwo 8 := ⟨3, by decide, rfl⟩

/-- The multiple of `a` reached from `x` by moving up less than `a`. -/
def roundUp (a x : ℕ) : ℕ :=
  (x + (a - 1)) / a * a

/-- Masking off the bits below a power of two drops the remainder by it. -/
theorem land_usizeNot_eq {x : ℕ} (hx : x < usizeSize) (ha : UsizePowTwo a) :
    x &&& usizeNot (a - 1) = x / a * a := by
  obtain ⟨k, hk, rfl⟩ := ha
  have hmask : 2 ^ k - 1 < 2 ^ 64 := by
    have := Nat.pow_le_pow_right (show 0 < 2 by decide) hk.le
    omega
  have hnot : usizeNot (2 ^ k - 1) = 2 ^ 64 - (2 ^ k - 1 + 1) := by
    simp only [usizeNot, usizeSize]
    omega
  apply Nat.eq_of_testBit_eq
  intro i
  rw [hnot, Nat.testBit_land, Nat.testBit_two_pow_sub_succ hmask, Nat.testBit_two_pow_sub_one,
    Nat.testBit_mul_two_pow, Nat.testBit_div_two_pow]
  by_cases hik : i < k
  · simp [hik]
  · have hki : k ≤ i := not_lt.mp hik
    by_cases hi : i < 64
    · simp [hik, hki, hi]
    · have hxi : x.testBit i = false :=
        Nat.testBit_lt_two_pow (lt_of_lt_of_le hx (Nat.pow_le_pow_right (by decide) (not_lt.mp hi)))
      simp [hki, hxi]

section RoundUp

variable {a : ℕ} (ha : 0 < a) (x : ℕ)

include ha

theorem le_roundUp : x ≤ roundUp a x := by
  have h := Nat.div_add_mod (x + (a - 1)) a
  have hlt := Nat.mod_lt (x + (a - 1)) ha
  rw [roundUp, mul_comm]
  omega

end RoundUp

@[simp]
theorem roundUp_one (x : ℕ) : roundUp 1 x = x := by
  simp [roundUp]

end Bhf
