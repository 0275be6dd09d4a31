import Mathlib.Data.List.Basic

/-!
# Computations with state and errors

A computation that threads a state and may stop with an error **keeps the state it reached when it
stopped**, which is what a `&mut` receiver and an early return give. That is the order
`σ → Except ε α × σ`, not `σ → Except ε (α × σ)`: an effect performed before the error is still in
the state that is left behind.

`Runs m s a s'` says that `m` started in `s` finishes normally with `a` in `s'`; successful runs
compose (`Runs.bind`), and a counted loop runs to its end whenever each round does (`runs_times`).
-/

namespace Bhf

/-- A sequence of fallible steps succeeds when each does. -/
theorem ok_of_bind {ε α β : Type} {x : Except ε α} {f : α → Except ε β} {b : β}
    (h : (x >>= f) = .ok b) : ∃ a, x = .ok a ∧ f a = .ok b := by
  cases x with
  | error e => simp [bind, Except.bind] at h
  | ok a => exact ⟨a, rfl, h⟩

/-- A check that was passed. -/
theorem ok_of_guard {ε α : Type} {p : Prop} [Decidable p] {e : ε} {x : Except ε α} {a : α}
    (h : (if p then throw e else x) = .ok a) : ¬p ∧ x = .ok a := by
  split at h
  · contradiction
  · exact ⟨‹_›, h⟩

theorem except_mapError_eq_ok {ε ε' α : Type} {x : Except ε α} {f : ε → ε'} {a : α}
    (h : x.mapError f = .ok a) : x = .ok a := by
  cases x with
  | error e => contradiction
  | ok b => exact congrArg _ (Except.ok.inj h)

/-- Computations over a state `σ` that may stop with an error `ε`; the state survives the error. -/
def StateExcept (ε σ α : Type) : Type :=
  σ → Except ε α × σ

namespace StateExcept

variable {ε ε' σ τ α β : Type}

instance : Monad (StateExcept ε σ) where
  pure a := fun s ↦ (.ok a, s)
  bind m f := fun s ↦
    match m s with
    | (.ok a, s') => f a s'
    | (.error e, s') => (.error e, s')

instance : MonadExceptOf ε (StateExcept ε σ) where
  throw e := fun s ↦ (.error e, s)
  tryCatch m f := fun s ↦
    match m s with
    | (.ok a, s') => (.ok a, s')
    | (.error e, s') => f e s'

instance : MonadStateOf σ (StateExcept ε σ) where
  get := fun s ↦ (.ok s, s)
  set s' := fun _ ↦ (.ok ⟨⟩, s')
  modifyGet f := fun s ↦ (.ok (f s).1, (f s).2)

/-- The outcome of a computation and the state it leaves. -/
def exec (m : StateExcept ε σ α) (s : σ) : Except ε α × σ :=
  m s

@[simp]
theorem exec_pure (a : α) (s : σ) : exec (pure a : StateExcept ε σ α) s = (.ok a, s) :=
  rfl

theorem exec_bind (m : StateExcept ε σ α) (f : α → StateExcept ε σ β) (s : σ) :
    exec (m >>= f) s = match exec m s with
      | (.ok a, s') => exec (f a) s'
      | (.error e, s') => (.error e, s') :=
  rfl

@[simp]
theorem exec_throw (e : ε) (s : σ) : exec (throw e : StateExcept ε σ α) s = (.error e, s) :=
  rfl

@[simp]
theorem exec_set (s s' : σ) : exec (set s' : StateExcept ε σ PUnit) s = (.ok ⟨⟩, s') :=
  rfl

@[simp]
theorem exec_modify (f : σ → σ) (s : σ) :
    exec (modify f : StateExcept ε σ PUnit) s = (.ok ⟨⟩, f s) :=
  rfl

@[simp]
theorem exec_get_bind (f : σ → StateExcept ε σ β) (s : σ) : exec (get >>= f) s = exec (f s) s :=
  rfl

@[simp]
theorem exec_set_bind (f : PUnit → StateExcept ε σ β) (s s' : σ) :
    exec (set s' >>= f) s = exec (f ⟨⟩) s' :=
  rfl

variable {m : StateExcept ε σ α} {f : α → StateExcept ε σ β} {s s' : σ} {a : α}

/-- A sequence stops where its first part stops. -/
theorem exec_bind_of_error {e : ε} (hm : exec m s = (.error e, s')) :
    exec (m >>= f) s = (.error e, s') := by
  rw [exec_bind, hm]

/-! ### Successful runs -/

/-- Started in `s`, the computation returns `a` and leaves `s'`. -/
def Runs (m : StateExcept ε σ α) (s : σ) (a : α) (s' : σ) : Prop :=
  exec m s = (.ok a, s')

theorem Runs.pure (a : α) (s : σ) : Runs (Pure.pure a : StateExcept ε σ α) s a s :=
  rfl

theorem Runs.unique {s₁ s₂ : σ} {a₁ a₂ : α} (h₁ : Runs m s a₁ s₁) (h₂ : Runs m s a₂ s₂) :
    a₁ = a₂ ∧ s₁ = s₂ := by
  obtain ⟨ha, hs⟩ := Prod.mk.inj (h₁.symm.trans h₂)
  exact ⟨Except.ok.inj ha, hs⟩

theorem Runs.bind {s'' : σ} {b : β} (hm : Runs m s a s') (hf : Runs (f a) s' b s'') :
    Runs (m >>= f) s b s'' := by
  rw [Runs, exec_bind, hm]
  exact hf

/-- A successful run of a sequence is a successful run of each part. -/
theorem runs_bind_iff {s'' : σ} {b : β} :
    Runs (m >>= f) s b s'' ↔ ∃ a s', Runs m s a s' ∧ Runs (f a) s' b s'' := by
  refine ⟨fun h ↦ ?_, fun ⟨a, s', hm, hf⟩ ↦ hm.bind hf⟩
  rw [Runs, exec_bind] at h
  rcases hm : exec m s with ⟨_ | a, s'⟩
  · simp [hm] at h
  · exact ⟨a, s', hm, by simpa [hm, Runs] using h⟩

/-- A recovered computation succeeds by itself or through its handler, in the state it left. -/
theorem runs_tryCatch_iff {f : ε → StateExcept ε σ α} :
    Runs (tryCatch m f) s a s' ↔
      Runs m s a s' ∨ ∃ e s₁, exec m s = (.error e, s₁) ∧ Runs (f e) s₁ a s' := by
  have hexec : exec (tryCatch m f) s = match exec m s with
      | (.ok a, s') => (.ok a, s')
      | (.error e, s') => exec (f e) s' := rfl
  rw [Runs, hexec, Runs]
  rcases exec m s with ⟨_ | b, s₁⟩
  · simp [Runs]
  · simp

/-! ### Counted loops -/

/-- Run a computation `n` times and collect the values. -/
def times (m : StateExcept ε σ α) : ℕ → StateExcept ε σ (List α)
  | 0 => pure []
  | n + 1 => do
    let a ← m
    let rest ← times m n
    pure (a :: rest)

/-- A loop returns the expected values if each round returns the next one and re-establishes the
invariant for those still expected. -/
theorem runs_times {f : β → α} {I : List β → σ → Prop}
    (step : ∀ b bs s, I (b :: bs) s → ∃ s', Runs m s (f b) s' ∧ I bs s') (bs : List β) (s : σ)
    (hs : I bs s) : ∃ s', Runs (times m bs.length) s (bs.map f) s' ∧ I [] s' := by
  induction bs generalizing s with
  | nil => exact ⟨s, Runs.pure _ _, hs⟩
  | cons b bs ih =>
    obtain ⟨s₁, hrun₁, h₁⟩ := step b bs s hs
    obtain ⟨s₂, hrun₂, h₂⟩ := ih s₁ h₁
    exact ⟨s₂, hrun₁.bind (hrun₂.bind (Runs.pure _ _)), h₂⟩

/-! ### Changing the state and the error -/

/-- Run a computation on a component of a larger state. -/
def zoom (view : τ → σ) (put : σ → τ → τ) (m : StateExcept ε σ α) : StateExcept ε τ α :=
  fun t ↦ ((exec m (view t)).1, put (exec m (view t)).2 t)

/-- Rename the error of a computation. -/
def mapError (f : ε → ε') (m : StateExcept ε σ α) : StateExcept ε' σ α :=
  fun s ↦ ((exec m s).1.mapError f, (exec m s).2)

theorem exec_zoom (view : τ → σ) (put : σ → τ → τ) (m : StateExcept ε σ α) (t : τ) :
    exec (zoom view put m) t = ((exec m (view t)).1, put (exec m (view t)).2 t) :=
  rfl

theorem exec_mapError (f : ε → ε') (m : StateExcept ε σ α) (s : σ) :
    exec (mapError f m) s = ((exec m s).1.mapError f, (exec m s).2) :=
  rfl

theorem Runs.zoom {view : τ → σ} {put : σ → τ → τ} {t : τ} (h : Runs m (view t) a s') :
    Runs (zoom view put m) t a (put s' t) := by
  rw [Runs, exec_zoom, h]

theorem Runs.mapError (f : ε → ε') (h : Runs m s a s') : Runs (mapError f m) s a s' := by
  rw [Runs, exec_mapError, h]
  rfl

end StateExcept

end Bhf
