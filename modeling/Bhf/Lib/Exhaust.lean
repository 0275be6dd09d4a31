import Mathlib.Data.Prod.Lex

/-!
# Running a machine until it stops

A machine is a partial step function. If every step lowers a lexicographic measure, the machine can
be run to its end: `exhaust` is that end. It is reached by steps and no step is possible there
(`leads_exhaust_and_stopped`), and an invariant of the steps holds along the way
(`Leads.invariant`).
-/

namespace Bhf

variable {σ : Type} {next : σ → Option σ}

/-- `s'` is reached from `s` by steps of the machine. -/
def Leads (next : σ → Option σ) : σ → σ → Prop :=
  Relation.ReflTransGen fun s s' ↦ next s = some s'

/-- Every step lowers the measure `μ`. -/
def Lowers (next : σ → Option σ) (μ : σ → ℕ × ℕ) : Prop :=
  ∀ s s', next s = some s' → Prod.Lex (· < ·) (· < ·) (μ s') (μ s)

/-- Run the machine to its end. -/
def exhaust (next : σ → Option σ) (μ : σ → ℕ × ℕ) (hμ : Lowers next μ) (s : σ) : σ :=
  match _h : next s with
  | none => s
  | some s' => exhaust next μ hμ s'
termination_by μ s
decreasing_by exact hμ s s' _h

variable {μ : σ → ℕ × ℕ} {hμ : Lowers next μ} {s s' : σ}

theorem exhaust_of_next (h : next s = some s') : exhaust next μ hμ s = exhaust next μ hμ s' := by
  rw [exhaust]
  split
  · next h' => simp [h] at h'
  · next s'' h' =>
    obtain rfl : s' = s'' := Option.some.inj (h.symm.trans h')
    rfl

theorem exhaust_of_stopped (h : next s = none) : exhaust next μ hμ s = s := by
  rw [exhaust]
  split
  · rfl
  · next s'' h' => simp [h] at h'

/-- The end is reached by steps, and the machine has stopped there. -/
theorem leads_exhaust_and_stopped (hμ : Lowers next μ) (s : σ) :
    Leads next s (exhaust next μ hμ s) ∧ next (exhaust next μ hμ s) = none := by
  induction s using exhaust.induct next μ hμ with
  | case1 s h =>
    rw [exhaust_of_stopped h]
    exact ⟨Relation.ReflTransGen.refl, h⟩
  | case2 s s' h ih =>
    rw [exhaust_of_next h]
    exact ⟨Relation.ReflTransGen.head h ih.1, ih.2⟩

/-- An invariant of the steps, which may use that a state is reached, holds where they lead. -/
theorem Leads.invariant {I : σ → Prop} (h : Leads next s s') (hs : I s)
    (hstep : ∀ t t', Leads next s t → I t → next t = some t' → I t') : I s' := by
  induction h with
  | refl => exact hs
  | tail hleads hnext ih => exact hstep _ _ hleads ih hnext

end Bhf
