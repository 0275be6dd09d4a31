import Bhf.Lib.StateExcept

/-!
# How a computation can end

`Ends m P E` says that `m`, from any state, ends in a value that satisfies `P` or in an error that
satisfies `E`. It is a postcondition for **both exits**: along a sequence the values of the first
part are handed on, and its errors have to be accounted for at once. `Settles` is the same for a
computation without state.
-/

namespace Bhf

variable {ε ε' σ α β : Type} {P : α → Prop} {Q : β → Prop} {E : ε → Prop}
  {x : Except ε α} {f : α → Except ε β} {items : List α}

/-- A renamed value is the image of a value. -/
theorem except_map_eq_ok {f : α → β} {b : β} (h : x.map f = .ok b) : ∃ a, x = .ok a ∧ f a = b := by
  cases x with
  | error e => contradiction
  | ok a => exact ⟨a, rfl, Except.ok.inj h⟩

/-- A value that satisfies `P`, or an error that satisfies `E`. -/
def Settles (x : Except ε α) (P : α → Prop) (E : ε → Prop) : Prop :=
  match x with
  | .ok a => P a
  | .error e => E e

theorem Settles.bind (hx : Settles x P E) (hf : ∀ a, P a → Settles (f a) Q E) :
    Settles (x >>= f) Q E := by
  cases x with
  | ok a => exact hf a hx
  | error e => exact hx

theorem Settles.map {f : α → β} (hx : Settles x P E) (hf : ∀ a, P a → Q (f a)) :
    Settles (x.map f) Q E := by
  cases x with
  | ok a => exact hf a hx
  | error e => exact hx

theorem Settles.mapError {f : ε → ε'} {E' : ε' → Prop} (hx : Settles x P E)
    (hf : ∀ e, E e → E' (f e)) : Settles (x.mapError f) P E' := by
  cases x with
  | ok a => exact hx
  | error e => exact hf e hx

/-- Every value is what was asked for, and no error is excluded. -/
theorem settles_of_ok (h : ∀ a, x = .ok a → P a) : Settles x P fun _ ↦ True := by
  cases x with
  | ok a => exact h a rfl
  | error e => trivial

/-- The value, or the error where there is none. -/
def okOr (e : ε) : Option α → Except ε α
  | some a => .ok a
  | none => .error e

/-- Every element of a list gives a value: the values, in order, are those of the elements. -/
theorem settles_mapM {R : α → β → Prop} (items : List α) (h : ∀ a ∈ items, Settles (f a) (R a) E) :
    Settles (items.mapM f) (List.Forall₂ R items) E := by
  induction items with
  | nil => exact List.Forall₂.nil
  | cons a items ih =>
    rw [List.mapM_cons]
    refine (h a List.mem_cons_self).bind fun b hb ↦ ?_
    refine (ih fun a' ha' ↦ h a' (List.mem_cons_of_mem _ ha')).bind fun bs hbs ↦ ?_
    exact List.Forall₂.cons hb hbs

/-- The values of a list that all came out. -/
theorem forall₂_of_mapM_eq_ok {results : List β} (h : items.mapM f = .ok results) :
    List.Forall₂ (fun a b ↦ f a = .ok b) items results := by
  have hall : Settles (items.mapM f) (List.Forall₂ (fun a b ↦ f a = .ok b) items) _ :=
    settles_mapM items fun a _ ↦ settles_of_ok fun _ hb ↦ hb
  rwa [h] at hall

/-- A loop that came to its end got through every round. -/
theorem of_forM_eq_ok {act : α → Except ε Unit} (h : items.forM act = .ok ⟨⟩) :
    ∀ a ∈ items, act a = .ok ⟨⟩ := by
  induction items with
  | nil => exact List.forall_mem_nil _
  | cons b items ih =>
    obtain ⟨⟨⟩, hb, hrest⟩ := ok_of_bind (f := fun _ ↦ items.forM act) h
    intro a ha
    rcases List.mem_cons.mp ha with rfl | ha
    · exact hb
    · exact ih hrest a ha

namespace StateExcept

variable {m : StateExcept ε σ α} {f : α → StateExcept ε σ β}

/-- The computation ends in a value that satisfies `P` or in an error that satisfies `E`. -/
def Ends (m : StateExcept ε σ α) (P : α → Prop) (E : ε → Prop) : Prop :=
  ∀ s, Settles (exec m s).1 P E

theorem ends_pure {a : α} (h : P a) : Ends (pure a : StateExcept ε σ α) P E :=
  fun _ ↦ h

theorem ends_throw {e : ε} (h : E e) : Ends (throw e : StateExcept ε σ α) P E :=
  fun _ ↦ h

theorem Ends.bind (hm : Ends m P E) (hf : ∀ a, P a → Ends (f a) Q E) : Ends (m >>= f) Q E := by
  intro s
  have hs := hm s
  rw [exec_bind]
  rcases hexec : exec m s with ⟨_ | a, s'⟩
  · rwa [hexec] at hs
  · rw [hexec] at hs
    exact hf a hs s'

theorem Ends.mapError {g : ε → ε'} {E' : ε' → Prop} (hm : Ends m P E)
    (hg : ∀ e, E e → E' (g e)) : Ends (StateExcept.mapError g m) P E' :=
  fun s ↦ (hm s).mapError hg

/-- Nothing is known about the value, and no error is excluded. -/
theorem ends_true (m : StateExcept ε σ α) : Ends m (fun _ ↦ True) fun _ ↦ True := by
  intro s
  exact settles_of_ok fun _ _ ↦ trivial

/-- Nothing to do is done; otherwise each element is handled before the next. -/
theorem ends_forM {act : α → StateExcept ε σ Unit} (items : List α)
    (h : ∀ a ∈ items, Ends (act a) (fun _ ↦ True) E) : Ends (items.forM act) (fun _ ↦ True) E := by
  induction items with
  | nil => exact ends_pure trivial
  | cons a items ih =>
    show Ends (act a >>= fun _ ↦ items.forM act) _ E
    exact (h a List.mem_cons_self).bind fun _ _ ↦ ih fun a' ha' ↦ h a' (List.mem_cons_of_mem _ ha')

/-- The outcome of a computation without state. -/
def fromExcept (x : Except ε α) : StateExcept ε σ α :=
  fun s ↦ (x, s)

theorem ends_fromExcept {x : Except ε α} (h : Settles x P E) :
    Ends (fromExcept x : StateExcept ε σ α) P E :=
  fun _ ↦ h

end StateExcept

end Bhf
