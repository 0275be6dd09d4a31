import Mathlib.Data.List.Infix

/-!
# Replacing the occurrences of a word

The occurrences of a word are replaced from left to right, and the search goes on behind each of
them. The text around an occurrence is not looked at again, so **the question is what can appear
across a seam**. Nothing can, for a word that does not hold the first and the last letter of the
replacement (`Fenced`): each of its occurrences in the new text lies within the replacement or
within a part of the old one.

So the word that was replaced is gone (`not_infix_replaceAll_self`), and no other word comes up
(`not_infix_replaceAll`).
-/

namespace Bhf

open List

variable {α : Type*} [DecidableEq α]

/-- Replace a word, after as many letters as are to be left out. The word is not empty. -/
def replaceFrom (word replacement : List α) : ℕ → List α → List α
  | _, [] => []
  | skip + 1, _ :: text => replaceFrom word replacement skip text
  | 0, c :: text =>
    if word <+: c :: text then
      replacement ++ replaceFrom word replacement (word.length - 1) text
    else
      c :: replaceFrom word replacement 0 text

/-- Replace every occurrence of a word that is not empty. -/
def replaceAll (word replacement text : List α) : List α :=
  replaceFrom word replacement 0 text

/-- The word cannot reach across either end of the replacement, and is no part of it. -/
structure Fenced (word replacement : List α) : Prop where
  /-- The ends are not in the word. -/
  ends : ∃ first middle last, replacement = first :: (middle ++ [last]) ∧
    first ∉ word ∧ last ∉ word
  /-- The word is no part of it. -/
  notInside : ¬word <:+: replacement

omit [DecidableEq α] in
/-- A word lies on one side of a letter that it does not hold. -/
theorem infix_or_infix_of_infix_append_cons {word a b : List α} {x : α} (hx : x ∉ word)
    (h : word <:+: a ++ x :: b) : word <:+: a ∨ word <:+: b := by
  obtain ⟨before, after, h⟩ := h
  rw [append_assoc, append_eq_append_iff] at h
  obtain ⟨middle, rfl, h⟩ | ⟨middle, rfl, h⟩ := h
  · -- the word starts within `a`
    obtain ⟨rest, rfl, -⟩ | ⟨rest, rfl, hrest⟩ := append_eq_append_iff.1 h
    · exact .inl ⟨before, rest, by simp⟩
    cases rest with
    | nil => exact .inl ⟨before, [], by simp⟩
    | cons y rest =>
      obtain rfl : x = y := (cons.inj hrest).1
      simp at hx
  · -- the word starts behind `a`
    cases middle with
    | nil =>
      cases word with
      | nil => exact .inl nil_infix
      | cons y word =>
        obtain rfl : x = y := (cons.inj h).1
        simp at hx
    | cons y middle =>
      obtain rfl : b = middle ++ (word ++ after) := (cons.inj h).2
      exact .inr ⟨middle, after, by simp⟩

omit [DecidableEq α] in
/-- A fenced word lies on one side of the replacement. -/
theorem Fenced.infix_or_infix {word replacement a b : List α} (hword : Fenced word replacement)
    (h : word <:+: a ++ (replacement ++ b)) : word <:+: a ∨ word <:+: b := by
  obtain ⟨⟨first, middle, last, rfl, hfirst, hlast⟩, hnot⟩ := hword
  rw [show a ++ (first :: (middle ++ [last]) ++ b) = a ++ first :: (middle ++ last :: b) by simp]
    at h
  obtain h | h := infix_or_infix_of_infix_append_cons hfirst h
  · exact .inl h
  obtain h | h := infix_or_infix_of_infix_append_cons hlast h
  · exact absurd (h.trans ⟨[first], [last], by simp⟩) hnot
  · exact .inr h

section Words

variable {word replacement : List α}

/-- The induction is on the text behind `a`, which holds the letters that were kept since the last
replacement. -/
theorem not_infix_replaceFrom (hword : Fenced word replacement) (other text : List α) :
    ∀ (a : List α) (skip : ℕ), ¬word <:+: a ++ text → (skip = 0 ∨ a = []) →
      ¬word <:+: a ++ replaceFrom other replacement skip text := by
  induction text with
  | nil =>
    intro a skip h _
    rwa [show replaceFrom other replacement skip [] = [] by cases skip <;> rfl]
  | cons c text ih =>
    intro a skip h hskip
    have htext : ¬word <:+: [] ++ text := fun hinside ↦ h (hinside.trans ⟨a ++ [c], [], by simp⟩)
    cases skip with
    | succ skip =>
      obtain rfl : a = [] := hskip.resolve_left (Nat.succ_ne_zero skip)
      exact ih [] skip htext (.inr rfl)
    | zero =>
      rw [replaceFrom]
      split
      · intro hinside
        obtain hinside | hinside := hword.infix_or_infix hinside
        · exact h (hinside.trans ⟨[], c :: text, by simp⟩)
        · exact ih [] _ htext (.inr rfl) hinside
      · rw [show a ++ c :: replaceFrom other replacement 0 text =
          a ++ [c] ++ replaceFrom other replacement 0 text by simp]
        exact ih _ 0 (by simpa using h) (.inl rfl)

/-- **No other word comes up.** -/
theorem not_infix_replaceAll (hword : Fenced word replacement) (other : List α) {text : List α}
    (h : ¬word <:+: text) : ¬word <:+: replaceAll other replacement text :=
  not_infix_replaceFrom hword other text [] 0 h (.inl rfl)

/-- As before; here the kept letters `a` hold no start of an occurrence, since each letter was
tested before it was kept. -/
theorem not_infix_replaceFrom_self (hword : Fenced word replacement) (hne : word ≠ [])
    (text : List α) :
    ∀ (a : List α) (skip : ℕ), (∀ b, b <:+ a → b ≠ [] → ¬word <+: b ++ text) →
      (skip = 0 ∨ a = []) → ¬word <:+: a ++ replaceFrom word replacement skip text := by
  have hkept : ∀ {a text : List α}, (∀ b, b <:+ a → b ≠ [] → ¬word <+: b ++ text) →
      ¬word <:+: a := by
    rintro a text h ⟨before, after, rfl⟩
    refine h (word ++ after) ⟨before, by simp⟩ (by simp [hne]) ?_
    exact ⟨after ++ text, by simp⟩
  induction text with
  | nil =>
    intro a skip h _
    rw [show replaceFrom word replacement skip [] = [] by cases skip <;> rfl, append_nil]
    exact hkept h
  | cons c text ih =>
    intro a skip h hskip
    have hfresh : ∀ b, b <:+ [] → b ≠ [] → ¬word <+: b ++ text := fun b hb hb' ↦
      absurd (suffix_nil.1 hb) hb'
    cases skip with
    | succ skip =>
      obtain rfl : a = [] := hskip.resolve_left (Nat.succ_ne_zero skip)
      exact ih [] skip hfresh (.inr rfl)
    | zero =>
      rw [replaceFrom]
      split
      · intro hinside
        obtain hinside | hinside := hword.infix_or_infix hinside
        · exact hkept h hinside
        · exact ih [] _ hfresh (.inr rfl) hinside
      · next hno =>
        rw [show a ++ c :: replaceFrom word replacement 0 text =
          a ++ [c] ++ replaceFrom word replacement 0 text by simp]
        refine ih _ 0 (fun b hb hb' ↦ ?_) (.inl rfl)
        obtain rfl | ⟨b, rfl, hsuffix⟩ := suffix_concat_iff.1 hb
        · contradiction
        rw [append_assoc, singleton_append]
        by_cases hnil : b = []
        · rw [hnil, nil_append]
          exact hno
        · exact h b hsuffix hnil

/-- **The word that was replaced is gone.** -/
theorem not_infix_replaceAll_self (hword : Fenced word replacement) (hne : word ≠ [])
    (text : List α) : ¬word <:+: replaceAll word replacement text :=
  not_infix_replaceFrom_self hword hne text [] 0
    (fun _ hb hb' ↦ absurd (suffix_nil.1 hb) hb') (.inl rfl)

end Words

end Bhf
