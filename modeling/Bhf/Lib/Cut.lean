import Mathlib.Data.List.Basic

/-!
# Cutting a list after a separator

A text is cut into lines **after** each line break, not between them: every piece but the last is
closed by a separator, and there is no empty piece at the end. `cutAfter` gives each piece without
its separator and says whether it was closed.

Pieces that contain no separator, all closed but the last, are found again when what they were
written as is cut (`cutAfter_join`); only an open and empty piece at the end leaves no trace.
-/

namespace Bhf

open List

variable {α : Type} [DecidableEq α] {sep : α}

/-- The pieces of a list, each with whether a separator closes it. -/
def cutAfter (sep : α) : List α → List (List α × Bool)
  | [] => []
  | a :: rest =>
    if a = sep then
      ([], true) :: cutAfter sep rest
    else
      match cutAfter sep rest with
      | [] => [([a], false)]
      | (piece, closed) :: pieces => (a :: piece, closed) :: pieces

/-- Write pieces one after another. -/
def joinPieces (sep : α) (pieces : List (List α × Bool)) : List α :=
  pieces.flatMap fun piece ↦ piece.1 ++ if piece.2 then [sep] else []

theorem cutAfter_append_cons {piece : List α} (h : sep ∉ piece) (rest : List α) :
    cutAfter sep (piece ++ sep :: rest) = (piece, true) :: cutAfter sep rest := by
  induction piece with
  | nil => simp [cutAfter]
  | cons a piece ih =>
    obtain ⟨ha, hpiece⟩ := not_or.mp (mem_cons.not.mp h)
    rw [cons_append, cutAfter, if_neg (Ne.symm ha), ih hpiece]

theorem cutAfter_of_not_mem {piece : List α} (h : sep ∉ piece) (hne : piece ≠ []) :
    cutAfter sep piece = [(piece, false)] := by
  induction piece with
  | nil => exact absurd rfl hne
  | cons a piece ih =>
    obtain ⟨ha, hpiece⟩ := not_or.mp (mem_cons.not.mp h)
    rw [cutAfter, if_neg (Ne.symm ha)]
    cases piece with
    | nil => rfl
    | cons b piece => rw [ih hpiece (cons_ne_nil _ _)]

theorem not_mem_of_mem_cutAfter {l : List α} {piece : List α × Bool}
    (h : piece ∈ cutAfter sep l) : sep ∉ piece.1 := by
  induction l generalizing piece with
  | nil => simp [cutAfter] at h
  | cons a l ih =>
    rw [cutAfter] at h
    split at h
    · rcases mem_cons.mp h with rfl | h
      · exact not_mem_nil
      · exact ih h
    · next ha =>
      cases hcut : cutAfter sep l with
      | nil =>
        rw [hcut] at h
        rw [mem_singleton.mp h]
        simpa using Ne.symm ha
      | cons first pieces =>
        rw [hcut] at h ih
        rcases mem_cons.mp h with rfl | h
        · exact mem_cons.not.mpr (not_or.mpr ⟨Ne.symm ha, ih mem_cons_self⟩)
        · exact ih (mem_cons_of_mem _ h)

/-- Every piece but the last is closed. -/
def ClosedBeforeLast {β : Type} (pieces : List (β × Bool)) : Prop :=
  pieces.Pairwise fun piece _ ↦ piece.2 = true

theorem closedBeforeLast_cutAfter (l : List α) : ClosedBeforeLast (cutAfter sep l) := by
  induction l with
  | nil => exact .nil
  | cons a l ih =>
    rw [cutAfter]
    split
    · exact .cons (fun _ _ ↦ rfl) ih
    · cases hcut : cutAfter sep l with
      | nil => exact pairwise_singleton _ _
      | cons first pieces =>
        rw [hcut] at ih
        obtain ⟨hfirst, hpieces⟩ := pairwise_cons.mp ih
        exact .cons hfirst hpieces

/-- **What was written is found again.** -/
theorem cutAfter_join {pieces : List (List α × Bool)} (hfree : ∀ piece ∈ pieces, sep ∉ piece.1)
    (hclosed : ClosedBeforeLast pieces) : cutAfter sep (joinPieces sep pieces) <+: pieces := by
  induction pieces with
  | nil => exact prefix_rfl
  | cons piece pieces ih =>
    obtain ⟨hfirst, hrest⟩ := forall_mem_cons.mp hfree
    obtain ⟨hbefore, hafter⟩ := pairwise_cons.mp hclosed
    obtain ⟨text, closed⟩ := piece
    cases closed with
    | true =>
      have hjoin :
          joinPieces sep ((text, true) :: pieces) = text ++ sep :: joinPieces sep pieces := by
        simp [joinPieces]
      rw [hjoin, cutAfter_append_cons hfirst]
      exact cons_prefix_cons.mpr ⟨rfl, ih hrest hafter⟩
    | false =>
      -- an open piece is the last one
      cases pieces with
      | cons next pieces => exact absurd (hbefore next mem_cons_self) (by simp)
      | nil =>
        have hjoin : joinPieces sep [(text, false)] = text := by simp [joinPieces]
        have hopen : sep ∉ text := hfirst
        rw [hjoin]
        cases text with
        | nil => exact nil_prefix
        | cons a text =>
          exact (cutAfter_of_not_mem hopen (cons_ne_nil _ _)).symm ▸ prefix_rfl

end Bhf
