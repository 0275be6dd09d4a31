import Mathlib.Data.DFinsupp.WellFounded

/-!
# Programs that share a state

Processes run programs against one shared state. A program is a tree of **calls**, each of them
atomic: it returns, or it makes a call and goes on with the reply (`Prog`). Between two calls of a
process the others may make any number of theirs, in any order (`Moves`, `Reaches`).

Nothing runs forever: a call leaves the process with a smaller program, so interleavings of finitely
many processes are well founded (`wellFounded_moves`).

What holds along every interleaving is proved one process at a time, by *rely and guarantee*. For
each process there is a relation that its own calls keep to (the guarantee) and one that it allows
the others (the rely). `Prog.Meets` says that a program keeps its guarantee and ends in its
postcondition, whatever the others do within the rely; **if the guarantees of the others are within
the rely of each process, every process meets its specification in every interleaving**
(`meets_of_reaches`). Who made a call is not visible in the state; where a specification has to say
it, the state is extended by a ghost that records it (`withGhost`, `Reaches.withGhost`).
-/

namespace Bhf

variable {C : Type} {R : C → Type} {α β : Type}

/-! ### Programs -/

/-- A program returns, or makes a call and goes on with the reply. -/
inductive Prog (R : C → Type) (α : Type)
  | ret (a : α)
  | call (c : C) (k : R c → Prog R α)

namespace Prog

def bind : Prog R α → (α → Prog R β) → Prog R β
  | ret a, f => f a
  | call c k, f => call c fun r ↦ (k r).bind f

instance : Monad (Prog R) where
  pure := ret
  bind := bind

/-- Make a call and return the reply. -/
def perform (c : C) : Prog R (R c) :=
  call c ret

/-- `p'` is what is left of `p` after its next call. -/
def Continues (p' p : Prog R α) : Prop :=
  ∃ (c : C) (k : R c → Prog R α) (r : R c), p = call c k ∧ p' = k r

theorem wellFounded_continues : WellFounded (Continues (R := R) (α := α)) := by
  refine ⟨fun p ↦ ?_⟩
  induction p with
  | ret a =>
    refine ⟨_, ?_⟩
    rintro p' ⟨c, k, r, h, -⟩
    cases h
  | call c k ih =>
    refine ⟨_, ?_⟩
    rintro p' ⟨c', k', r, h, rfl⟩
    cases h
    exact ih r

end Prog

/-! ### Interleavings -/

/-- Processes and the state they share. -/
structure Config (ι S : Type) (R : C → Type) (α : Type) where
  procs : ι → Prog R α
  shared : S

variable {ι S G : Type} [DecidableEq ι] {exec : ι → (c : C) → S → R c × S}

/-- Process `i` makes its next call. -/
def Config.advance (exec : ι → (c : C) → S → R c × S) (i : ι) (cfg : Config ι S R α) :
    Option (Config ι S R α) :=
  match cfg.procs i with
  | .ret _ => none
  | .call c k =>
    some ⟨Function.update cfg.procs i (k (exec i c cfg.shared).1), (exec i c cfg.shared).2⟩

/-- One of the processes makes its next call. -/
def Moves (exec : ι → (c : C) → S → R c × S) (cfg cfg' : Config ι S R α) : Prop :=
  ∃ i, cfg.advance exec i = some cfg'

/-- Some interleaving of calls leads from `cfg` to `cfg'`. -/
def Reaches (exec : ι → (c : C) → S → R c × S) : Config ι S R α → Config ι S R α → Prop :=
  Relation.ReflTransGen (Moves exec)

variable {i : ι} {cfg cfg' : Config ι S R α}

theorem Config.advance_eq_some (h : cfg.advance exec i = some cfg') :
    ∃ (c : C) (k : R c → Prog R α), cfg.procs i = .call c k ∧
      cfg' = ⟨Function.update cfg.procs i (k (exec i c cfg.shared).1),
        (exec i c cfg.shared).2⟩ := by
  rw [Config.advance] at h
  split at h
  · simp at h
  · next c k hp => exact ⟨c, k, hp, (Option.some.inj h).symm⟩

/-- The processes come to an end together: there are no endless interleavings. -/
theorem wellFounded_moves [LinearOrder ι] [Finite ι] :
    WellFounded fun cfg' cfg : Config ι S R α ↦ Moves exec cfg cfg' := by
  refine Subrelation.wf ?_ (InvImage.wf Config.procs
    (Pi.Lex.wellFounded (· < · : ι → ι → Prop) fun _ ↦
      Prog.wellFounded_continues (R := R) (α := α)))
  rintro cfg' cfg ⟨i, h⟩
  obtain ⟨c, k, hp, rfl⟩ := Config.advance_eq_some h
  refine ⟨i, fun j hj ↦ Function.update_of_ne hj.ne _ _, c, k, (exec i c cfg.shared).1, hp, ?_⟩
  exact Function.update_self ..

/-- As long as a process has not returned, there is a move. -/
theorem exists_moves (h : ∀ a, cfg.procs i ≠ .ret a) : ∃ cfg', Moves exec cfg cfg' := by
  cases hp : cfg.procs i with
  | ret a => exact absurd hp (h a)
  | call c k => exact ⟨_, i, by rw [Config.advance, hp]⟩

/-! ### One process alone -/

/-- The program and the state after `n` calls of one process that is not interrupted. -/
def Prog.alone (exec : (c : C) → S → R c × S) : ℕ → Prog R α → S → Prog R α × S
  | n + 1, .call c k, s => Prog.alone exec n (k (exec c s).1) (exec c s).2
  | _, p, s => (p, s)

theorem Prog.alone_call {act : (c : C) → S → R c × S} {n : ℕ} {c : C} {k : R c → Prog R α}
    {s s' : S} {r : R c} (hact : act c s = (r, s')) :
    (Prog.call c k).alone act (n + 1) s = (k r).alone act n s' := by
  rw [Prog.alone, hact]

theorem reaches_alone (exec : ι → (c : C) → S → R c × S) (i : ι) (n : ℕ) (procs : ι → Prog R α)
    (s : S) :
    Reaches exec ⟨procs, s⟩
      ⟨Function.update procs i ((procs i).alone (exec i) n s).1,
        ((procs i).alone (exec i) n s).2⟩ := by
  induction n generalizing procs s with
  | zero =>
    rw [Prog.alone.eq_def]
    simp only [Function.update_eq_self]
    exact Relation.ReflTransGen.refl
  | succ n ih =>
    cases hp : procs i with
    | ret a =>
      have hself : Function.update procs i (.ret a) = procs := by
        rw [← hp, Function.update_eq_self]
      rw [Prog.alone.eq_def]
      simp only [hself]
      exact Relation.ReflTransGen.refl
    | call c k =>
      have hmove : Moves exec ⟨procs, s⟩
          ⟨Function.update procs i (k (exec i c s).1), (exec i c s).2⟩ :=
        ⟨i, by simp only [Config.advance, hp]⟩
      have hrest := ih (Function.update procs i (k (exec i c s).1)) (exec i c s).2
      rw [Function.update_self, Function.update_idem] at hrest
      exact Relation.ReflTransGen.head hmove hrest

/-! ### Rely and guarantee -/

section

variable {act : (c : C) → S → R c × S} {rely guar : S → S → Prop} {post : α → S → Prop}

/-- From `s` on, the program keeps to `guar` and returns in `post`, if between its calls the state
changes within `rely` only. -/
def Prog.Meets (act : (c : C) → S → R c × S) (rely guar : S → S → Prop) (post : α → S → Prop) :
    Prog R α → S → Prop
  | .ret a, s => ∀ s', rely s s' → post a s'
  | .call c k, s => ∀ s', rely s s' →
      guar s' (act c s').2 ∧ (k (act c s').1).Meets act rely guar post (act c s').2

namespace Prog.Meets

variable {p : Prog R α} {s s' : S} {c : C}

/-- What the others may do does not spoil a specification. -/
theorem stable (htrans : ∀ s₁ s₂ s₃, rely s₁ s₂ → rely s₂ s₃ → rely s₁ s₃)
    (h : p.Meets act rely guar post s) (hs : rely s s') : p.Meets act rely guar post s' := by
  cases p with
  | ret a | call c k => exact fun s'' hs' ↦ h s'' (htrans _ _ _ hs hs')

/-- A process that may rely on more and has to guarantee less. -/
theorem mono {rely' guar' : S → S → Prop} (hrely : ∀ s s', rely' s s' → rely s s')
    (hguar : ∀ s s', guar s s' → guar' s s') (h : p.Meets act rely guar post s) :
    p.Meets act rely' guar' post s := by
  induction p generalizing s with
  | ret a => exact fun s' hs ↦ h s' (hrely _ _ hs)
  | call c k ih =>
    exact fun s' hs ↦ ⟨hguar _ _ (h s' (hrely _ _ hs)).1, ih _ (h s' (hrely _ _ hs)).2⟩

/-- One program after the other. -/
theorem bind {f : α → Prog R β} {mid : α → S → Prop} {post : β → S → Prop} (hrefl : ∀ s, rely s s)
    (hp : p.Meets act rely guar mid s) (hf : ∀ a s, mid a s → (f a).Meets act rely guar post s) :
    (p >>= f).Meets act rely guar post s := by
  induction p generalizing s with
  | ret a => exact hf a s (hp s (hrefl s))
  | call c k ih => exact fun s' hs ↦ ⟨(hp s' hs).1, ih _ (hp s' hs).2⟩

/-- One call. -/
theorem perform {f : R c → Prog R α} (h : ∀ s', rely s s' →
      guar s' (act c s').2 ∧ (f (act c s').1).Meets act rely guar post (act c s').2) :
    (Prog.perform c >>= f).Meets act rely guar post s :=
  h

/-- A call of a process that has no peers. -/
theorem call_alone {k : R c → Prog R α} {r : R c} (hact : act c s = (r, s'))
    (h : (k r).Meets act Eq (fun _ _ ↦ True) post s') :
    (Prog.call c k).Meets act Eq (fun _ _ ↦ True) post s := by
  rintro _ rfl
  rw [hact]
  exact ⟨trivial, h⟩

end Prog.Meets

end

section

variable {rely guar : ι → S → S → Prop} {post : ι → α → S → Prop}

/-- **The parallel rule.** If each process meets its specification at the start and relies on no
more than the others guarantee, it meets its specification wherever an interleaving has led. -/
theorem meets_of_reaches (hrefl : ∀ i s, rely i s s)
    (htrans : ∀ i s₁ s₂ s₃, rely i s₁ s₂ → rely i s₂ s₃ → rely i s₁ s₃)
    (hguar : ∀ i j s s', i ≠ j → guar j s s' → rely i s s') {cfg cfg' : Config ι S R α}
    (hstart : ∀ i, (cfg.procs i).Meets (exec i) (rely i) (guar i) (post i) cfg.shared)
    (h : Reaches exec cfg cfg') (i : ι) :
    (cfg'.procs i).Meets (exec i) (rely i) (guar i) (post i) cfg'.shared := by
  induction h generalizing i with
  | refl => exact hstart i
  | @tail mid _ _ hmove ih =>
    obtain ⟨j, hj⟩ := hmove
    obtain ⟨c, k, hp, rfl⟩ := Config.advance_eq_some hj
    have hown := ih j
    rw [hp] at hown
    obtain ⟨hstep, hrest⟩ := hown mid.shared (hrefl j mid.shared)
    by_cases hij : i = j
    · subst hij
      dsimp only
      rw [Function.update_self]
      exact hrest
    · dsimp only
      rw [Function.update_of_ne hij]
      exact (ih i).stable (htrans i) (hguar i j _ _ hij hstep)

/-- A process that has returned has met its postcondition. -/
theorem Prog.Meets.returned {act : (c : C) → S → R c × S} {rely guar : S → S → Prop}
    {post : α → S → Prop} {p : Prog R α} {a : α} {s : S} (hrefl : ∀ s, rely s s)
    (h : p.Meets act rely guar post s) (hp : p = .ret a) : post a s := by
  subst hp
  exact h s (hrefl s)

end

/-! ### Ghosts -/

/-- The calls with a ghost that records who made which call with which reply. -/
def withGhost (exec : ι → (c : C) → S → R c × S) (ghost : ι → (c : C) → R c → G → G) :
    ι → (c : C) → S × G → R c × S × G :=
  fun i c s ↦ ((exec i c s.1).1, (exec i c s.1).2, ghost i c (exec i c s.1).1 s.2)

/-- A ghost does not restrict the interleavings. -/
theorem Reaches.withGhost (ghost : ι → (c : C) → R c → G → G) (g : G) (h : Reaches exec cfg cfg') :
    ∃ g', Reaches (withGhost exec ghost) ⟨cfg.procs, cfg.shared, g⟩
      ⟨cfg'.procs, cfg'.shared, g'⟩ := by
  induction h with
  | refl => exact ⟨g, Relation.ReflTransGen.refl⟩
  | @tail mid _ _ hmove ih =>
    obtain ⟨g', hreaches⟩ := ih
    obtain ⟨i, hi⟩ := hmove
    obtain ⟨c, k, hp, rfl⟩ := Config.advance_eq_some hi
    refine ⟨ghost i c (exec i c mid.shared).1 g', Relation.ReflTransGen.tail hreaches ⟨i, ?_⟩⟩
    simp only [Config.advance, hp, Bhf.withGhost]

end Bhf
