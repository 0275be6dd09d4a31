import Mathlib.Data.Nat.Digits.Lemmas

/-!
# Decimal numbers with leading zeros

Numbers in file names and record ids are written in decimal with at least a given count of digits.
**Leading zeros do not change the value**, so a number is read back from what was written
(`decimalValue_paddedDecimal`), at any width.
-/

namespace Bhf

open List

/-- The value of a list of decimal digits. -/
def decimalValue (digits : List Char) : ℕ :=
  digits.foldl (fun value digit ↦ 10 * value + (digit.toNat - '0'.toNat)) 0

/-- A number with at least `width` digits. -/
def paddedDecimal (width n : ℕ) : List Char :=
  let digits := (Nat.digits 10 n).reverse.map Nat.digitChar
  List.replicate (width - digits.length) '0' ++ digits

theorem decimalValue_replicate_zero_append (k : ℕ) (digits : List Char) :
    decimalValue (List.replicate k '0' ++ digits) = decimalValue digits := by
  induction k with
  | zero => rfl
  | succ k ih => exact ih

theorem decimalValue_digits (n : ℕ) :
    decimalValue ((Nat.digits 10 n).reverse.map Nat.digitChar) = n := by
  rw [decimalValue, foldl_map, foldl_reverse]
  refine (foldr_ext _ (fun d value ↦ d + 10 * value) 0 fun d hd value ↦ ?_).trans ?_
  · rw [Nat.toNat_digitChar_of_lt_ten (Nat.digits_lt_base (by decide) hd)]
    exact (congrArg (10 * value + ·) (Nat.add_sub_cancel_left 48 d)).trans (add_comm _ _)
  · exact (Nat.ofDigits_eq_foldr 10 _).symm.trans (Nat.ofDigits_digits 10 n)

theorem decimalValue_paddedDecimal (width n : ℕ) : decimalValue (paddedDecimal width n) = n := by
  rw [paddedDecimal, decimalValue_replicate_zero_append, decimalValue_digits]

theorem isDigit_of_mem_paddedDecimal {width n : ℕ} {c : Char} (hc : c ∈ paddedDecimal width n) :
    c.isDigit := by
  rcases mem_append.mp hc with hc | hc
  · rw [eq_of_mem_replicate hc]
    rfl
  · obtain ⟨d, hd, rfl⟩ := mem_map.mp hc
    have hlt : d < 10 := Nat.digits_lt_base (by decide) (mem_reverse.mp hd)
    rw [Nat.isDigit_digitChar, decide_eq_true hlt]

theorem le_length_paddedDecimal (width n : ℕ) : width ≤ (paddedDecimal width n).length := by
  simp only [paddedDecimal, length_append, length_replicate]
  omega

theorem length_paddedDecimal_one_le {n k : ℕ} (hk : 0 < k) (hn : n < 10 ^ k) :
    (paddedDecimal 1 n).length ≤ k := by
  have hdigits := (Nat.digits_length_le_iff (by decide : 1 < 10) n).mpr hn
  simp only [paddedDecimal, length_append, length_replicate, length_map, length_reverse]
  omega

end Bhf
