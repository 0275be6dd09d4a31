import Mathlib.Data.List.Basic

/-!
# What holds along a fold

A run of a system whose steps are given by a list of inputs is a left fold over that list. `Along`
says that something holds of every input and **the state it meets**. What the steps that are taken
keep is an invariant of the run (`foldl_invariant_along`), and a property that each step keeps
exactly if the step is not a bad one is kept by the run exactly if no step of it is bad
(`good_foldl_iff`). A run of fallible steps that succeeds is the run of what the steps do when they
succeed (`foldlM_eq_ok`).
-/

namespace Bhf

variable {σ α : Type*} {f : σ → α → σ} {s : σ} {l : List α} {P : σ → α → Prop}

/-- Something holds of every element of a list and the state of the fold before it. -/
def Along (f : σ → α → σ) (s : σ) (l : List α) (P : σ → α → Prop) : Prop :=
  ∀ pre a post, l = pre ++ a :: post → P (pre.foldl f s) a

theorem along_nil : Along f s [] P := by
  intro pre a post h
  simp at h

theorem along_cons {a : α} : Along f s (a :: l) P ↔ P s a ∧ Along f (f s a) l P := by
  refine ⟨fun h ↦ ⟨h [] a l rfl, fun pre b post hl ↦ h (a :: pre) b post (by rw [hl]; rfl)⟩, ?_⟩
  rintro ⟨ha, hl⟩ pre b post h
  rcases List.cons_eq_append_iff.mp h with ⟨rfl, hcons⟩ | ⟨pre', rfl, hrest⟩
  · obtain ⟨rfl, -⟩ := List.cons.inj hcons
    exact ha
  · exact hl pre' b post hrest

/-- What every step of a run keeps is an invariant of that run. -/
theorem foldl_invariant_along (inv : σ → Prop) (hstep : ∀ s a, inv s → P s a → inv (f s a)) :
    ∀ {l : List α} {s : σ}, inv s → Along f s l P → inv (l.foldl f s)
  | [], _, hs, _ => hs
  | a :: l, s, hs, hl => by
    obtain ⟨ha, hl⟩ := along_cons.mp hl
    show inv (l.foldl f (f s a))
    exact foldl_invariant_along inv hstep (hstep s a hs ha) hl

/-- **A property that each step keeps exactly if it is not a bad one** is kept by a run exactly if
none of its steps is bad. The steps may be known to meet states in which they are `ok`. -/
theorem good_foldl_iff (inv good : σ → Prop) (ok bad : σ → α → Prop)
    (hinv : ∀ s a, inv s → inv (f s a))
    (hstep : ∀ s a, inv s → ok s a → (good (f s a) ↔ good s ∧ ¬ bad s a)) :
    ∀ {l : List α} {s : σ}, inv s → Along f s l ok →
      (good (l.foldl f s) ↔ good s ∧ Along f s l fun s a ↦ ¬ bad s a)
  | [], s, _, _ => (and_iff_left along_nil).symm
  | a :: l, s, hs, hok => by
    obtain ⟨hoka, hokl⟩ := along_cons.mp hok
    rw [List.foldl_cons, good_foldl_iff inv good ok bad hinv hstep (hinv s a hs) hokl,
      hstep s a hs hoka, along_cons, and_assoc]

/-- A successful run of fallible steps, from what each step does when it succeeds. -/
theorem foldlM_eq_ok {ε : Type*} {g : σ → α → Except ε σ}
    (hstep : ∀ s a s', g s a = .ok s' → s' = f s a) :
    ∀ {l : List α} {s s' : σ}, l.foldlM g s = .ok s' → s' = l.foldl f s
  | [], s, s', h => (Except.ok.inj h).symm
  | a :: l, s, s', h => by
    rw [List.foldlM_cons] at h
    rcases ha : g s a with e | s₁
    · rw [ha] at h
      cases h
    · rw [ha] at h
      rw [List.foldl_cons, ← hstep s a s₁ ha]
      exact foldlM_eq_ok hstep h

end Bhf
