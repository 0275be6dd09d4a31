import Mathlib.Data.List.Forall2

/-!
# Simplifying the values of slots

A string is cut into slots, each with the gap before it, the value it holds and a list of candidates
for that value. A pass goes over the slots from left to right and writes into each the first
candidate that differs from its value and with which the whole string is still accepted; a slot
without such a candidate keeps its value.

**A pass changes nothing exactly if no slot has a candidate other than its value with which the
string is accepted** (`picks_eq_none_iff`). It does not leave such a string in general: a candidate
that is passed over because the slot holds it already says nothing about the candidates behind it.
It does where at most one candidate of a slot is accepted and a later change lets no other one in
(`Steady.settled`).
-/

namespace Bhf.Slots

open List

variable {α : Type}

structure Slot (α : Type) where
  gap : List α
  value : List α
  candidates : List (List α)

/-- The string that slots and the rest behind them make up. -/
def join : List (Slot α) → List α → List α
  | [], tail => tail
  | slot :: slots, tail => slot.gap ++ (slot.value ++ join slots tail)

def Slot.put (slot : Slot α) (pick : Option (List α)) : Slot α :=
  { slot with value := pick.getD slot.value }

/-- Write what was picked into the slots. -/
def fill (slots : List (Slot α)) (picks : List (Option (List α))) : List (Slot α) :=
  List.zipWith Slot.put slots picks

theorem fill_none (slots : List (Slot α)) : fill slots (replicate slots.length none) = slots := by
  induction slots with
  | nil => rfl
  | cons slot slots ih => exact congrArg (slot :: ·) ih

variable [DecidableEq α] (accepts : List α → Bool)

/-- The first candidate that changes the slot and with which the string is accepted. -/
def pick (before : List α) (slot : Slot α) (after : List α) : Option (List α) :=
  slot.candidates.find? fun candidate ↦
    candidate ≠ slot.value && accepts (before ++ (slot.gap ++ (candidate ++ after)))

/-- What a pass picks for each slot. -/
def picks : List α → List (Slot α) → List α → List (Option (List α))
  | _, [], _ => []
  | before, slot :: slots, tail =>
    let found := pick accepts before slot (join slots tail)
    found :: picks (before ++ (slot.gap ++ found.getD slot.value)) slots tail

/-- No slot has a candidate other than its value with which the string is accepted. -/
def Settled : List α → List (Slot α) → List α → Prop
  | _, [], _ => True
  | before, slot :: slots, tail =>
    (∀ candidate ∈ slot.candidates, candidate ≠ slot.value →
      accepts (before ++ (slot.gap ++ (candidate ++ join slots tail))) = false) ∧
    Settled (before ++ (slot.gap ++ slot.value)) slots tail

/-- Some of the slots hold candidates in place of their values. -/
def Rewritten (slots slots' : List (Slot α)) : Prop :=
  ∃ choices, List.Forall₂ (fun slot choice ↦ ∀ candidate ∈ choice, candidate ∈ slot.candidates)
    slots choices ∧ slots' = fill slots choices

/-- Whatever the slots before a slot hold, at most one of its candidates is accepted while those
behind it hold their values, and **a candidate refused then is refused with any candidates behind
it**. -/
def Steady : List α → List (Slot α) → List α → Prop
  | _, [], _ => True
  | before, slot :: slots, tail =>
    (∀ a ∈ slot.candidates, ∀ b ∈ slot.candidates,
      accepts (before ++ (slot.gap ++ (a ++ join slots tail))) →
        accepts (before ++ (slot.gap ++ (b ++ join slots tail))) → a = b) ∧
    (∀ candidate ∈ slot.candidates, ∀ slots', Rewritten slots slots' →
      accepts (before ++ (slot.gap ++ (candidate ++ join slots' tail))) →
        accepts (before ++ (slot.gap ++ (candidate ++ join slots tail)))) ∧
    ∀ value, value = slot.value ∨ value ∈ slot.candidates →
      Steady (before ++ (slot.gap ++ value)) slots tail

variable {accepts} {before after tail : List α} {slot : Slot α} {slots : List (Slot α)}

theorem pick_eq_none_iff :
    pick accepts before slot after = none ↔
      ∀ candidate ∈ slot.candidates, candidate ≠ slot.value →
        accepts (before ++ (slot.gap ++ (candidate ++ after))) = false := by
  simp [pick]

theorem of_pick_eq_some {found : List α} (h : pick accepts before slot after = some found) :
    found ∈ slot.candidates ∧ found ≠ slot.value ∧
      accepts (before ++ (slot.gap ++ (found ++ after))) := by
  have hfound := find?_some h
  rw [Bool.and_eq_true, decide_eq_true_iff] at hfound
  exact ⟨mem_of_find?_eq_some h, hfound⟩

theorem length_picks (before : List α) (slots : List (Slot α)) (tail : List α) :
    (picks accepts before slots tail).length = slots.length := by
  induction slots generalizing before with
  | nil => rfl
  | cons slot slots ih => exact congrArg (· + 1) (ih _)

/-- **A pass changes nothing exactly if the slots are settled.** -/
theorem picks_eq_none_iff :
    picks accepts before slots tail = replicate slots.length none ↔
      Settled accepts before slots tail := by
  induction slots generalizing before with
  | nil => exact iff_of_true rfl trivial
  | cons slot slots ih =>
    rw [picks, length_cons, replicate_succ, cons_eq_cons, Settled, ← pick_eq_none_iff]
    refine and_congr_right fun hnone ↦ ?_
    rw [hnone, Option.getD_none]
    exact ih

theorem countP_picks_eq_zero_iff :
    (picks accepts before slots tail).countP Option.isSome = 0 ↔
      Settled accepts before slots tail := by
  rw [← picks_eq_none_iff, countP_eq_zero, eq_replicate_iff, length_picks]
  simp

theorem forall₂_picks (before : List α) (slots : List (Slot α)) (tail : List α) :
    List.Forall₂ (fun slot found ↦ ∀ candidate ∈ found, candidate ∈ slot.candidates ∧
      candidate ≠ slot.value) slots (picks accepts before slots tail) := by
  induction slots generalizing before with
  | nil => exact .nil
  | cons slot slots ih =>
    refine .cons (fun candidate h ↦ ?_) (ih _)
    obtain ⟨hmem, hne, -⟩ := of_pick_eq_some h
    exact ⟨hmem, hne⟩

theorem rewritten_fill_picks (before : List α) (slots : List (Slot α)) (tail : List α) :
    Rewritten slots (fill slots (picks accepts before slots tail)) :=
  ⟨_, (forall₂_picks before slots tail).imp fun _ _ h candidate hc ↦ (h candidate hc).1, rfl⟩

/-- **Where candidates are steady, a pass leaves settled slots.** -/
theorem Steady.settled (h : Steady accepts before slots tail) :
    Settled accepts before (fill slots (picks accepts before slots tail)) tail := by
  induction slots generalizing before with
  | nil => trivial
  | cons slot slots ih =>
    obtain ⟨hone, hlater, hrest⟩ := h
    refine ⟨fun candidate hcandidate hne ↦ ?_, ih (hrest _ ?_)⟩
    · rw [Bool.eq_false_iff]
      intro haccepts
      have haccepts := hlater candidate hcandidate _ (rewritten_fill_picks _ _ _) haccepts
      cases hpick : pick accepts before slot (join slots tail) with
      | none =>
        simp only [Slot.put, hpick, Option.getD_none] at hne
        exact absurd (pick_eq_none_iff.1 hpick candidate hcandidate hne) (by simp [haccepts])
      | some found =>
        simp only [Slot.put, hpick, Option.getD_some] at hne
        obtain ⟨hmem, -, hfound⟩ := of_pick_eq_some hpick
        exact hne (hone candidate hcandidate found hmem haccepts hfound)
    · cases hpick : pick accepts before slot (join slots tail) with
      | none => exact .inl rfl
      | some found => exact .inr (of_pick_eq_some hpick).1

/-- A single slot is settled after a pass iff at most one candidate is accepted. -/
theorem settled_single_iff :
    Settled accepts [] (fill [slot] (picks accepts [] [slot] tail)) tail ↔
      ∀ a ∈ slot.candidates, ∀ b ∈ slot.candidates, accepts (slot.gap ++ (a ++ tail)) →
        accepts (slot.gap ++ (b ++ tail)) → a = b := by
  constructor
  · rintro ⟨h, -⟩ a ha b hb hacceptsA hacceptsB
    have heq : ∀ candidate ∈ slot.candidates, accepts (slot.gap ++ (candidate ++ tail)) →
        candidate = (pick accepts [] slot tail).getD slot.value := by
      intro candidate hcandidate haccepts
      by_contra hne
      have hrefused : accepts (slot.gap ++ (candidate ++ tail)) = false :=
        h candidate hcandidate hne
      rw [hrefused] at haccepts
      contradiction
    rw [heq a ha hacceptsA, heq b hb hacceptsB]
  · refine fun h ↦ Steady.settled ⟨h, ?_, fun _ _ ↦ trivial⟩
    rintro candidate - _ ⟨choices, -, rfl⟩ haccepts
    exact haccepts

/-- **The string stays accepted.** -/
theorem accepts_join_fill (before : List α) (h : accepts (before ++ join slots tail)) :
    accepts (before ++ join (fill slots (picks accepts before slots tail)) tail) := by
  induction slots generalizing before with
  | nil => exact h
  | cons slot slots ih =>
    have hstep : accepts (before ++ (slot.gap ++
        ((pick accepts before slot (join slots tail)).getD slot.value ++ join slots tail))) := by
      cases hpick : pick accepts before slot (join slots tail) with
      | none => exact h
      | some found => exact (of_pick_eq_some hpick).2.2
    have hrest := ih (before ++ (slot.gap ++
      (pick accepts before slot _).getD slot.value)) (by simpa using hstep)
    simpa [picks, fill, join, Slot.put] using hrest

end Bhf.Slots
