import Mathlib.Data.List.AList
import Mathlib.Data.List.Induction

/-!
# Lookups in related lists and in maps

Two lists that are related element by element answer a search alike when the relation respects what
is searched for (`exists_find?_of_forall₂`). A map filled from a list of pairs holds, for each key,
the **last** value given for it (`lookup_foldl_insert`); a value given for a key that is there does
not make the map longer (`length_keys_insert`).
-/

namespace Bhf

open List

variable {α β κ : Type}

/-- Related elements are found at the same place. -/
theorem exists_find?_of_forall₂ {R : α → β → Prop} {p : α → Bool} {q : β → Bool} {as : List α}
    {bs : List β} (h : List.Forall₂ R as bs) (hpq : ∀ a b, R a b → p a = q b) {a : α}
    (ha : as.find? p = some a) : ∃ b, bs.find? q = some b ∧ R a b := by
  induction h with
  | nil => simp at ha
  | @cons a' b' as bs hab _ ih =>
    rw [find?_cons] at ha ⊢
    rw [← hpq a' b' hab]
    cases hp : p a' with
    | true =>
      obtain rfl : a' = a := by simpa [hp] using ha
      exact ⟨b', rfl, hab⟩
    | false => exact ih (by simpa [hp] using ha)

/-- Every element of the first list has a related one in the second. -/
theorem exists_mem_of_forall₂ {R : α → β → Prop} {as : List α} {bs : List β}
    (h : List.Forall₂ R as bs) {a : α} (ha : a ∈ as) : ∃ b ∈ bs, R a b := by
  induction h with
  | nil => exact absurd ha not_mem_nil
  | cons hab _ ih =>
    rcases mem_cons.mp ha with rfl | ha
    · exact ⟨_, mem_cons_self, hab⟩
    · obtain ⟨b, hb, hR⟩ := ih ha
      exact ⟨b, mem_cons_of_mem _ hb, hR⟩

/-- The last value given for a key, else what the map held before. -/
theorem lookup_foldl_insert [DecidableEq κ] (pairs : List (κ × β)) (map : AList fun _ : κ ↦ β)
    (key : κ) :
    (pairs.foldl (fun m pair ↦ m.insert pair.1 pair.2) map).lookup key =
      ((pairs.reverse.find? fun pair ↦ pair.1 == key).map Prod.snd).or (map.lookup key) := by
  induction pairs using reverseRecOn with
  | nil => simp
  | append_singleton pairs pair ih =>
    rw [foldl_append, foldl_cons, foldl_nil, reverse_append,
      reverse_singleton, singleton_append, find?_cons]
    by_cases hkey : pair.1 = key
    · subst hkey
      simp [AList.lookup_insert]
    · rw [AList.lookup_insert_ne (Ne.symm hkey), ih, beq_false_of_ne hkey]

theorem length_keys_insert [DecidableEq κ] (map : AList fun _ : κ ↦ β) (key : κ) (value : β) :
    (map.insert key value).keys.length =
      if key ∈ map then map.keys.length else map.keys.length + 1 := by
  rw [AList.keys_insert, length_cons]
  split
  · next hmem => exact length_erase_add_one (AList.mem_keys.mp hmem)
  · next hmem => rw [erase_of_not_mem fun h ↦ hmem (AList.mem_keys.mpr h)]

end Bhf
