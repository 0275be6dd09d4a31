import Bhf.Lib.BinarySearch
import Bhf.Lib.Words
import Mathlib.Data.List.Basic

/-!
# Sparse line anchors

Two numberings of lines that run in step except at a few places are related by a list of anchors:
each says which line of the second numbering a line of the first one is, and **between anchors the
two count alike**. What such a list means is `resolve`: the last anchor that is not past the line,
plus the distance from it. `lookup` is the search that a program makes for it in the sorted list,
with machine words; the two agree on strictly sorted anchors (`toNat_lookup`).

A list of anchors that is built from the front is followed with two laws: an anchor that is added
past a line does not change what the line resolves to (`resolve_concat_of_lt`), and from its own
line on the new anchor decides (`resolve_concat_of_le`).
-/

namespace Bhf.LineAnchors

open List

/-- An anchor: a line of the first numbering and the line of the second one that it is. -/
abbrev Anchor :=
  UInt32 × UInt32

/-- The anchors are for ever later lines. -/
def Sorted (anchors : List Anchor) : Prop :=
  anchors.Pairwise fun a b ↦ a.1.toNat < b.1.toNat

/-- What a line resolves to: the last anchor that is not past it, and the distance from there. -/
def resolve (anchors : List Anchor) (line : ℕ) : ℕ :=
  match (anchors.filter fun a ↦ a.1.toNat ≤ line).getLast? with
  | none => line
  | some a => a.2.toNat + (line - a.1.toNat)

/-- How the anchor at an index compares with a line. -/
def compareAt (anchors : List Anchor) (line : UInt32) (i : ℕ) : Ordering :=
  match anchors[i]? with
  | some a => compare a.1.toNat line.toNat
  | none => .gt

/-- The search for a line in a list of anchors. -/
def lookup (anchors : List Anchor) (line : UInt32) : UInt32 :=
  match binarySearchBy anchors.length (compareAt anchors line) with
  | .found i => (anchors.getD i (0, 0)).2
  | .insertAt 0 => line
  | .insertAt (i + 1) =>
    let anchor := anchors.getD i (0, 0)
    saturatingAdd32 anchor.2 (saturatingSub32 line anchor.1)

/-- Anchors in the order of their lines. -/
def sortByLine (anchors : List Anchor) : List Anchor :=
  anchors.mergeSort fun a b ↦ a.1.toNat ≤ b.1.toNat

theorem Sorted.sortByLine_eq {anchors : List Anchor} (h : Sorted anchors) :
    sortByLine anchors = anchors :=
  mergeSort_of_pairwise (h.imp fun hlt ↦ by simpa using le_of_lt hlt)

/-! ### Adding an anchor -/

section

variable {anchors : List Anchor} {a : Anchor} {line : ℕ}

theorem resolve_concat_of_lt (h : line < a.1.toNat) :
    resolve (anchors ++ [a]) line = resolve anchors line := by
  rw [resolve, resolve, filter_append, filter_cons_of_neg (by simpa using h),
    filter_nil, append_nil]

theorem resolve_concat_of_le (h : a.1.toNat ≤ line) :
    resolve (anchors ++ [a]) line = a.2.toNat + (line - a.1.toNat) := by
  rw [resolve, filter_append, filter_cons_of_pos (by simpa using h), filter_nil, getLast?_concat]

theorem Sorted.concat (h : Sorted anchors) (hlast : ∀ b ∈ anchors, b.1.toNat < a.1.toNat) :
    Sorted (anchors ++ [a]) := by
  refine pairwise_append.mpr ⟨h, pairwise_singleton _ _, fun b hb c hc ↦ ?_⟩
  rw [mem_singleton.mp hc]
  exact hlast b hb

end

/-! ### The search finds what a line resolves to -/

section

variable {anchors low high : List Anchor} {line : UInt32}

/-- A line cuts sorted anchors into those not past it and those past it. -/
theorem Sorted.exists_cut (h : Sorted anchors) (line : ℕ) :
    ∃ low high, anchors = low ++ high ∧ (∀ a ∈ low, a.1.toNat ≤ line) ∧
      ∀ a ∈ high, line < a.1.toNat := by
  induction anchors with
  | nil => exact ⟨[], [], rfl, by simp, by simp⟩
  | cons a rest ih =>
    obtain ⟨hfirst, hrest⟩ := pairwise_cons.mp h
    by_cases ha : a.1.toNat ≤ line
    · obtain ⟨low, high, rfl, hlow, hhigh⟩ := ih hrest
      exact ⟨a :: low, high, rfl, forall_mem_cons.mpr ⟨ha, hlow⟩, hhigh⟩
    · refine ⟨[], a :: rest, rfl, by simp, forall_mem_cons.mpr ⟨by omega, fun b hb ↦ ?_⟩⟩
      have := hfirst b hb
      omega

theorem resolve_append_of_lt {line : ℕ} (hhigh : ∀ a ∈ high, line < a.1.toNat) :
    resolve (low ++ high) line = resolve low line := by
  have hnone : high.filter (fun a ↦ a.1.toNat ≤ line) = [] :=
    filter_eq_nil_iff.mpr fun a ha ↦ by simpa using hhigh a ha
  rw [resolve, resolve, filter_append, hnone, append_nil]

theorem compareAt_eq_gt (hhigh : ∀ a ∈ high, line.toNat < a.1.toNat) {i : ℕ}
    (hi : low.length ≤ i) : compareAt (low ++ high) line i = .gt := by
  rw [compareAt, getElem?_append_right hi]
  split
  · next a ha => exact Nat.compare_eq_gt.mpr (hhigh a (mem_of_getElem? ha))
  · rfl

theorem compareAt_eq_lt (hlow : ∀ a ∈ low, a.1.toNat < line.toNat) {i : ℕ} (hi : i < low.length) :
    compareAt (low ++ high) line i = .lt := by
  rw [compareAt, getElem?_append_left hi, getElem?_eq_getElem hi]
  exact Nat.compare_eq_lt.mpr (hlow _ (getElem_mem hi))

/-- Where no anchor is a match, the last one that is not past the line decides. -/
theorem search_between (hlow : ∀ a ∈ low, a.1.toNat < line.toNat)
    (hhigh : ∀ a ∈ high, line.toNat < a.1.toNat) :
    binarySearchBy (low ++ high).length (compareAt (low ++ high) line) = .insertAt low.length :=
  binarySearchBy_eq_insertAt (by simp) (fun _ hj ↦ compareAt_eq_lt hlow hj)
    fun _ hj _ ↦ compareAt_eq_gt hhigh hj

theorem search_at {a : Anchor} (ha : a.1.toNat = line.toNat)
    (hlow : ∀ b ∈ low, b.1.toNat < line.toNat) (hhigh : ∀ b ∈ high, line.toNat < b.1.toNat) :
    binarySearchBy (low ++ a :: high).length (compareAt (low ++ a :: high) line) =
      .found low.length := by
  refine binarySearchBy_eq_found (by simp) ?_ (fun _ hj ↦ compareAt_eq_lt hlow hj) fun j hj _ ↦ ?_
  · simp [compareAt, ha]
  · rw [append_cons]
    exact compareAt_eq_gt hhigh (by rwa [length_append])

/-- **The search finds what a line resolves to**, if that is a machine word. -/
theorem toNat_lookup (sorted : Sorted anchors) (hword : resolve anchors line.toNat < 2 ^ 32) :
    (lookup anchors line).toNat = resolve anchors line.toNat := by
  obtain ⟨low, high, rfl, hlow, hhigh⟩ := sorted.exists_cut line.toNat
  rw [resolve_append_of_lt hhigh] at hword ⊢
  rcases eq_nil_or_concat' low with rfl | ⟨pre, a, rfl⟩
  · rw [lookup, search_between (by simp) hhigh]
    rfl
  · -- The last anchor that is not past the line is a match, or the line lies past it.
    have ha : a.1.toNat ≤ line.toNat := hlow a (by simp)
    have hpre : ∀ b ∈ pre, b.1.toNat < a.1.toNat := by
      have hsorted : Sorted (pre ++ [a]) := (pairwise_append.mp sorted).1
      exact fun b hb ↦ (pairwise_append.mp hsorted).2.2 b hb a (mem_singleton_self a)
    have hget : (pre ++ [a] ++ high).getD pre.length (0, 0) = a := by simp
    rw [resolve_concat_of_le ha] at hword ⊢
    rcases Nat.eq_or_lt_of_le ha with heq | hlt
    · have hsearch := search_at heq (fun b hb ↦ lt_of_lt_of_le (hpre b hb) ha) hhigh
      rw [append_cons] at hsearch
      rw [lookup, hsearch]
      show ((pre ++ [a] ++ high).getD pre.length (0, 0)).2.toNat = _
      rw [hget]
      omega
    · have hall : ∀ b ∈ pre ++ [a], b.1.toNat < line.toNat :=
        forall_mem_append.mpr ⟨fun b hb ↦ lt_trans (hpre b hb) hlt, forall_mem_singleton.mpr hlt⟩
      rw [lookup, search_between hall hhigh, length_append]
      show (saturatingAdd32 ((pre ++ [a] ++ high).getD pre.length (0, 0)).2 (saturatingSub32 line
        ((pre ++ [a] ++ high).getD pre.length (0, 0)).1)).toNat = _
      rw [hget, toNat_saturatingAdd32, toNat_saturatingSub32]
      omega

end

end Bhf.LineAnchors
