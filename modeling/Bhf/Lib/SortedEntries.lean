import Mathlib.Order.Lattice

/-!
# Maps as sorted lists of entries

An ordered map is the list of its entries in the order of their keys. Inserting keeps the order
(`pairwise_insertEntry`) and changes what is found for one key (`lookup_insertEntry`), and **the
lookups determine the list** (`eq_of_lookup_eq`): two maps that answer alike are the same, in
whatever order their entries were inserted.
-/

namespace Bhf

open List

variable {κ β : Type*} [LinearOrder κ]

/-- Insert an entry, in the place of one with the same key. -/
def insertEntry (key : κ) (value : β) : List (κ × β) → List (κ × β)
  | [] => [(key, value)]
  | entry :: entries =>
    if key < entry.1 then (key, value) :: entry :: entries
    else if key = entry.1 then (key, value) :: entries
    else entry :: insertEntry key value entries

theorem mem_insertEntry {key : κ} {value : β} {entries : List (κ × β)} {entry : κ × β}
    (h : entry ∈ insertEntry key value entries) : entry = (key, value) ∨ entry ∈ entries := by
  induction entries with
  | nil => exact .inl (mem_singleton.1 h)
  | cons head entries ih =>
    rw [insertEntry] at h
    split_ifs at h
    · exact mem_cons.1 h
    · rw [mem_cons] at h
      exact h.imp_right (mem_cons_of_mem _)
    · rw [mem_cons] at h ⊢
      obtain rfl | h := h
      · exact .inr (.inl rfl)
      · exact (ih h).imp_right .inr

theorem pairwise_insertEntry (key : κ) (value : β) {entries : List (κ × β)}
    (h : entries.Pairwise fun a b ↦ a.1 < b.1) :
    (insertEntry key value entries).Pairwise fun a b ↦ a.1 < b.1 := by
  induction entries with
  | nil => exact pairwise_singleton _ _
  | cons head entries ih =>
    obtain ⟨hhead, htail⟩ := pairwise_cons.1 h
    rw [insertEntry]
    split_ifs with hlt heq
    · refine pairwise_cons.2 ⟨fun entry hmem ↦ ?_, h⟩
      obtain rfl | hmem := mem_cons.1 hmem
      · exact hlt
      · exact hlt.trans (hhead entry hmem)
    · refine pairwise_cons.2 ⟨fun entry hmem ↦ ?_, htail⟩
      rw [heq]
      exact hhead entry hmem
    · refine pairwise_cons.2 ⟨fun entry hmem ↦ ?_, ih htail⟩
      obtain rfl | hmem := mem_insertEntry hmem
      · exact lt_of_le_of_ne (not_lt.1 hlt) (Ne.symm heq)
      · exact hhead entry hmem

section Lookup

variable [BEq κ] [LawfulBEq κ]

omit [LinearOrder κ] in
theorem lookup_cons_of_eq {key : κ} {entry : κ × β} (h : key = entry.1)
    (entries : List (κ × β)) : (entry :: entries).lookup key = some entry.2 := by
  rw [h]
  exact lookup_cons_self

omit [LinearOrder κ] in
theorem lookup_cons_of_ne {key : κ} {entry : κ × β} (h : key ≠ entry.1)
    (entries : List (κ × β)) : (entry :: entries).lookup key = entries.lookup key := by
  rw [lookup_cons, beq_false_of_ne h]

theorem lookup_insertEntry (key key' : κ) (value : β) (entries : List (κ × β)) :
    (insertEntry key value entries).lookup key' =
      if key' = key then some value else entries.lookup key' := by
  induction entries with
  | nil =>
    rw [insertEntry]
    split_ifs with hkey
    · exact lookup_cons_of_eq hkey _
    · exact lookup_cons_of_ne hkey _
  | cons head entries ih =>
    rw [insertEntry]
    split_ifs with hlt hkey heq hkey hkey
    · exact lookup_cons_of_eq hkey _
    · exact lookup_cons_of_ne hkey _
    · exact lookup_cons_of_eq hkey _
    · rw [lookup_cons_of_ne hkey, lookup_cons_of_ne (heq ▸ hkey)]
    · rw [lookup_cons_of_ne (hkey ▸ heq), ih, if_pos hkey]
    · by_cases hhead : key' = head.1
      · rw [lookup_cons_of_eq hhead, lookup_cons_of_eq hhead]
      · rw [lookup_cons_of_ne hhead, lookup_cons_of_ne hhead, ih, if_neg hkey]

/-- What is found for a key is its only entry. -/
theorem lookup_eq_some_iff_mem {entries : List (κ × β)}
    (h : entries.Pairwise fun a b ↦ a.1 < b.1) {key : κ} {value : β} :
    entries.lookup key = some value ↔ (key, value) ∈ entries := by
  induction entries with
  | nil => simp
  | cons head entries ih =>
    obtain ⟨hhead, htail⟩ := pairwise_cons.1 h
    rw [mem_cons, ← ih htail]
    by_cases hkey : key = head.1
    · have hnone : entries.lookup key ≠ some value := fun hsome ↦
        (hhead _ ((ih htail).1 hsome)).ne hkey.symm
      rw [lookup_cons_of_eq hkey, Option.some.injEq, or_iff_left hnone, Prod.ext_iff, eq_comm]
      exact (and_iff_right hkey).symm
    · rw [lookup_cons_of_ne hkey, or_iff_right fun heq ↦ hkey (congrArg Prod.fst heq)]

/-- **The lookups determine the entries.** -/
theorem eq_of_lookup_eq {entries entries' : List (κ × β)}
    (h : entries.Pairwise fun a b ↦ a.1 < b.1) (h' : entries'.Pairwise fun a b ↦ a.1 < b.1)
    (hlookup : ∀ key, entries.lookup key = entries'.lookup key) : entries = entries' := by
  have hnodup {l : List (κ × β)} (hl : l.Pairwise fun a b ↦ a.1 < b.1) : l.Nodup :=
    hl.imp fun hlt heq ↦ hlt.ne (congrArg Prod.fst heq)
  refine ((perm_ext_iff_of_nodup (hnodup h) (hnodup h')).2 fun entry ↦ ?_).eq_of_pairwise
    (fun a b _ _ hab hba ↦ absurd hba hab.asymm) h h'
  rw [← lookup_eq_some_iff_mem h, hlookup, lookup_eq_some_iff_mem h']

end Lookup

end Bhf
