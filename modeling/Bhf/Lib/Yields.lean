import Bhf.Lib.StateExcept

/-!
# What a computation can return

`Yields m P` says that whatever `m` returns satisfies `P`, from any state; `m` may also stop with an
error. That is the right notion for a producer that is allowed to give up: a bound on its results
composes along sequences, alternatives and retries without a word about the state.

Loops that may be left early are `rounds`: a body tells whether to go on (`Flow`), and an invariant
of the body is an invariant of the loop.
-/

namespace Bhf

namespace StateExcept

variable {ε σ τ α β : Type} {m : StateExcept ε σ α} {f : α → StateExcept ε σ β} {P : α → Prop}
  {Q : β → Prop}

/-- Whatever the computation returns satisfies `P`. -/
def Yields (m : StateExcept ε σ α) (P : α → Prop) : Prop :=
  ∀ s a s', Runs m s a s' → P a

theorem yields_pure {a : α} (h : P a) : Yields (pure a : StateExcept ε σ α) P := by
  intro s b s' hrun
  obtain ⟨rfl, -⟩ : a = b ∧ s = s' := by simpa [Runs] using hrun
  exact h

theorem yields_throw (e : ε) : Yields (throw e : StateExcept ε σ α) P := by
  intro s b s' hrun
  simp [Runs] at hrun

theorem Yields.bind (hm : Yields m P) (hf : ∀ a, P a → Yields (f a) Q) : Yields (m >>= f) Q := by
  intro s b s'' hrun
  obtain ⟨a, s', hrunm, hrunf⟩ := runs_bind_iff.1 hrun
  exact hf a (hm s a s' hrunm) s' b s'' hrunf

/-- What the first part returns does not matter. -/
theorem yields_bind (hf : ∀ a, Yields (f a) Q) : Yields (m >>= f) Q :=
  Yields.bind (P := fun _ ↦ True) (fun _ _ _ _ ↦ trivial) fun a _ ↦ hf a

/-- What the first part settles, whatever it returns. -/
theorem Yields.first {q : Prop} (hm : Yields m fun _ ↦ q) : Yields (m >>= f) fun _ ↦ q :=
  hm.bind fun _ hq _ _ _ _ ↦ hq

theorem yields_ite {c : Prop} [Decidable c] {m₁ m₂ : StateExcept ε σ α} (h₁ : c → Yields m₁ P)
    (h₂ : ¬c → Yields m₂ P) : Yields (if c then m₁ else m₂) P := by
  split
  · next hc => exact h₁ hc
  · next hc => exact h₂ hc

theorem Yields.weaken {P' : α → Prop} (hm : Yields m P) (h : ∀ a, P a → P' a) : Yields m P' :=
  fun s a s' hrun ↦ h a (hm s a s' hrun)

theorem Yields.tryCatch {g : ε → StateExcept ε σ α} (hm : Yields m P) (hg : ∀ e, Yields (g e) P) :
    Yields (tryCatch m g) P := by
  intro s a s' hrun
  rcases runs_tryCatch_iff.1 hrun with hrun | ⟨e, s₁, -, hrun⟩
  · exact hm s a s' hrun
  · exact hg e s₁ a s' hrun

/-- Stop with `e` where there is nothing. -/
def ofOption (e : ε) : Option α → StateExcept ε σ α
  | none => throw e
  | some a => pure a

theorem yields_ofOption {e : ε} {o : Option α} (h : ∀ a, o = some a → P a) :
    Yields (ofOption e o : StateExcept ε σ α) P := by
  cases o with
  | none => exact yields_throw e
  | some a => exact yields_pure (h a rfl)

/-- Run a computation and go on without a value if it stops; the state it reached is kept. -/
def attempt (m : StateExcept ε σ α) : StateExcept ε σ (Option α) :=
  tryCatch (do return some (← m)) fun _ ↦ return none

theorem Yields.attempt (hm : Yields m P) : Yields (attempt m) fun o ↦ ∀ a, o = some a → P a := by
  refine Yields.tryCatch (hm.bind fun a ha ↦ yields_pure ?_) fun e ↦ yields_pure (by simp)
  rintro _ ⟨⟩
  exact ha

/-- A computation that may stop, tried, always returns. -/
theorem exists_runs_attempt (m : StateExcept ε σ α) (s : σ) : ∃ o s', Runs (attempt m) s o s' := by
  rcases hm : exec m s with ⟨e | a, s'⟩
  · refine ⟨none, s', runs_tryCatch_iff.2 (.inr ⟨e, s', ?_, Runs.pure none s'⟩)⟩
    exact exec_bind_of_error hm
  · exact ⟨some a, s', runs_tryCatch_iff.2 (.inl (Runs.bind hm (Runs.pure (some a) s')))⟩

/-! ### Loops that may be left early -/

/-- Go on with the next round, or leave the loop. -/
inductive Flow (τ : Type)
  | next (t : τ)
  | stop (t : τ)

def Flow.state : Flow τ → τ
  | .next t => t
  | .stop t => t

/-- Leave the loop if `last` holds. -/
def Flow.nextUnless (last : Bool) (t : τ) : Flow τ :=
  if last then .stop t else .next t

@[simp]
theorem Flow.state_nextUnless (last : Bool) (t : τ) : (Flow.nextUnless last t).state = t := by
  cases last <;> rfl

/-- At most `n` rounds. -/
def rounds (body : τ → StateExcept ε σ (Flow τ)) : ℕ → τ → StateExcept ε σ τ
  | 0, t => return t
  | n + 1, t => do
    match ← body t with
    | .next t' => rounds body n t'
    | .stop t' => return t'

/-- An invariant of the body is an invariant of the loop. -/
theorem yields_rounds {body : τ → StateExcept ε σ (Flow τ)} {I : τ → Prop}
    (hbody : ∀ t, I t → Yields (body t) fun r ↦ I r.state) (n : ℕ) (t : τ) (ht : I t) :
    Yields (rounds body n t) I := by
  induction n generalizing t with
  | zero => exact yields_pure ht
  | succ n ih =>
    refine (hbody t ht).bind fun r hr ↦ ?_
    cases r with
    | next t' => exact ih t' hr
    | stop t' => exact yields_pure hr

end StateExcept

end Bhf
