import Bhf.Lib.Words
import Mathlib.Data.Finset.Card

/-!
# Inserting keys and counting the new ones

A set of keys into which a list of keys is inserted one by one, with a saturating 32-bit counter of
those that were not there yet. The set that results is the union, whatever the order and the
repetitions (`insertKeys_fst`), and the counter is the growth of the set, up to saturation
(`toNat_insertKeys_snd`).
-/

namespace Bhf

variable {κ : Type} [DecidableEq κ]

/-- `HashSet::insert`, with the counter raised when the key is new. -/
def insertKey (acc : Finset κ × UInt32) (key : κ) : Finset κ × UInt32 :=
  if key ∈ acc.1 then acc else (insert key acc.1, saturatingAdd32 acc.2 1)

def insertKeys (set : Finset κ) (keys : List κ) : Finset κ × UInt32 :=
  keys.foldl insertKey (set, 0)

theorem foldl_insertKey_fst (keys : List κ) :
    ∀ acc : Finset κ × UInt32, (keys.foldl insertKey acc).1 = acc.1 ∪ keys.toFinset := by
  induction keys with
  | nil => simp
  | cons key keys ih =>
    intro acc
    rw [List.foldl_cons, ih, List.toFinset_cons, insertKey]
    split
    · next hmem => rw [Finset.union_insert, ← Finset.insert_union, Finset.insert_eq_self.2 hmem]
    · rw [Finset.union_insert, Finset.insert_union]

/-- Counting what was there before makes the counter one number for all keys inserted so far. -/
theorem foldl_insertKey_snd (keys : List κ) :
    ∀ (acc : Finset κ × UInt32) (old : ℕ), old ≤ acc.1.card →
      acc.2.toNat = min (acc.1.card - old) (2 ^ 32 - 1) →
      (keys.foldl insertKey acc).2.toNat =
        min ((acc.1 ∪ keys.toFinset).card - old) (2 ^ 32 - 1) := by
  induction keys with
  | nil => simp
  | cons key keys ih =>
    intro acc old hold hcount
    rw [List.foldl_cons, List.toFinset_cons, Finset.union_insert, ← Finset.insert_union]
    by_cases hmem : key ∈ acc.1
    · rw [show insertKey acc key = acc from if_pos hmem, Finset.insert_eq_self.2 hmem]
      exact ih acc old hold hcount
    · rw [show insertKey acc key = (insert key acc.1, saturatingAdd32 acc.2 1) from if_neg hmem]
      have hcard := Finset.card_insert_of_notMem hmem
      have hone : (1 : UInt32).toNat = 1 := rfl
      refine ih _ old ?_ ?_
      · show old ≤ (insert key acc.1).card
        omega
      · show (saturatingAdd32 acc.2 1).toNat = min ((insert key acc.1).card - old) (2 ^ 32 - 1)
        rw [toNat_saturatingAdd32]
        omega

/-- **The keys that result are the union**, in whatever order they come. -/
theorem insertKeys_fst (set : Finset κ) (keys : List κ) :
    (insertKeys set keys).1 = set ∪ keys.toFinset :=
  foldl_insertKey_fst keys (set, 0)

theorem toNat_insertKeys_snd (set : Finset κ) (keys : List κ) :
    (insertKeys set keys).2.toNat = min ((insertKeys set keys).1.card - set.card) (2 ^ 32 - 1) := by
  rw [insertKeys_fst]
  refine foldl_insertKey_snd keys (set, 0) set.card le_rfl ?_
  show 0 = _
  simp

theorem card_le_card_insertKeys (set : Finset κ) (keys : List κ) :
    set.card ≤ (insertKeys set keys).1.card := by
  rw [insertKeys_fst]
  exact Finset.card_le_card Finset.subset_union_left

/-- **Below saturation the counter is exactly the growth of the set.** -/
theorem card_add_insertKeys_snd (set : Finset κ) {keys : List κ} (h : keys.length < 2 ^ 32) :
    set.card + (insertKeys set keys).2.toNat = (insertKeys set keys).1.card := by
  have hle := card_le_card_insertKeys set keys
  have hgrowth : (insertKeys set keys).1.card ≤ set.card + keys.length := by
    rw [insertKeys_fst]
    have := Finset.card_union_le set keys.toFinset
    have := keys.toFinset_card_le
    omega
  rw [toNat_insertKeys_snd]
  omega

/-- Keys that are all there already count for nothing. -/
theorem insertKeys_snd_of_subset {set : Finset κ} {keys : List κ} (h : keys.toFinset ⊆ set) :
    (insertKeys set keys).2 = 0 := by
  refine UInt32.toNat_inj.1 ?_
  rw [toNat_insertKeys_snd, insertKeys_fst, Finset.union_eq_left.2 h, Nat.sub_self]
  rfl

end Bhf
