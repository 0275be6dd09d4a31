import Bhf.Lib.Align
import Bhf.Lib.Yields

/-!
# Drawing from the mutation generator

`MutationRng` is a splitmix64 generator. Mutators borrow it mutably and return an `Option`, so a
mutator that gives up has still drawn: `Gen` keeps the generator when there is no value.

A result of `choose_index` is below its bound, which is all that the mutators need to know about
their draws (`yields_chooseIndex`). The three loops that take candidates in random order until one
of them works are one definition (`tryInRandomOrder`).
-/

namespace Bhf.FuzzEngine

open StateExcept

structure MutationRng where
  state : UInt64

def MutationRng.nextU64 (rng : MutationRng) : UInt64 × MutationRng :=
  let state := rng.state + 0x9e3779b97f4a7c15
  let value := (state ^^^ (state >>> 30)) * 0xbf58476d1ce4e5b9
  let value := (value ^^^ (value >>> 27)) * 0x94d049bb133111eb
  (value ^^^ (value >>> 31), ⟨state⟩)

/-- Computations that draw and may come back with nothing. -/
abbrev Gen := StateExcept Unit MutationRng

variable {α β : Type} {P : β → Prop}

/-- Come back with nothing. -/
def giveUp : Gen α :=
  throw ()

def orGiveUp (o : Option α) : Gen α :=
  ofOption () o

def giveUpIf (b : Bool) : Gen Unit :=
  if b then giveUp else return ()

theorem yields_giveUpIf (b : Bool) : Yields (giveUpIf b) fun _ ↦ b = false := by
  cases b with
  | true => exact yields_throw ()
  | false => exact yields_pure rfl

def nextU64 : Gen UInt64 := fun rng ↦
  (.ok rng.nextU64.1, rng.nextU64.2)

def nextU8 : Gen UInt8 := do
  return (← nextU64).toUInt8

def chooseIndex (len : ℕ) : Gen ℕ := do
  if len = 0 then giveUp
  else return (← nextU64).toNat % len

theorem yields_chooseIndex (len : ℕ) : Yields (chooseIndex len) (· < len) := by
  rw [chooseIndex]
  split
  · exact yields_throw ()
  · next hlen => exact yields_bind fun v ↦ yields_pure (Nat.mod_lt _ (Nat.pos_of_ne_zero hlen))

theorem yields_chooseIndex_nonempty (items : List α) :
    Yields (chooseIndex items.length) fun _ ↦ (!items.isEmpty) := by
  refine (yields_chooseIndex _).weaken fun index hindex ↦ ?_
  cases items with
  | nil => simp at hindex
  | cons a items => rfl

theorem yields_checkedSub (a b : ℕ) : Yields (orGiveUp (checkedSub a b)) fun c ↦ b + c = a :=
  yields_ofOption fun _ h ↦ checkedSub_eq_some h

/-! ### Candidates in random order -/

/-- Take the element at an index; the last one moves to its place. -/
def swapRemove (items : List α) (index : ℕ) : Option (α × List α) :=
  match items[index]?, items.getLast? with
  | some item, some last => some (item, (items.set index last).dropLast)
  | _, _ => none

/-- Take candidates at random until one of them works; `n` is the number of candidates. -/
def tryFrom (act : α → Gen (Option β)) : ℕ → List α → Gen β
  | 0, _ => giveUp
  | n + 1, items => do
    let index ← chooseIndex items.length
    let (item, rest) ← orGiveUp (swapRemove items index)
    match ← act item with
    | some result => return result
    | none => tryFrom act n rest

def tryInRandomOrder (act : α → Gen (Option β)) (items : List α) : Gen β :=
  tryFrom act items.length items

theorem mem_of_swapRemove {items rest : List α} {index : ℕ} {item : α}
    (h : swapRemove items index = some (item, rest)) : item ∈ items ∧ ∀ a ∈ rest, a ∈ items := by
  rw [swapRemove] at h
  split at h
  · next item' last hitem hlast =>
    obtain ⟨⟩ := h
    refine ⟨List.mem_of_getElem? hitem, fun a ha ↦ ?_⟩
    -- the element in the place of the one that was taken is the last one
    rcases List.mem_or_eq_of_mem_set ((List.dropLast_sublist _).subset ha) with ha | rfl
    · exact ha
    · exact List.mem_of_getLast? hlast
  · simp at h

/-- What works came from one of the candidates. -/
theorem yields_tryInRandomOrder {act : α → Gen (Option β)} {items : List α}
    (h : ∀ a ∈ items, Yields (act a) fun o ↦ ∀ b, o = some b → P b) :
    Yields (tryInRandomOrder act items) P := by
  suffices hfrom : ∀ n items, (∀ a ∈ items, Yields (act a) fun o ↦ ∀ b, o = some b → P b) →
      Yields (tryFrom act n items) P from hfrom _ _ h
  intro n
  induction n with
  | zero => exact fun _ _ ↦ yields_throw ()
  | succ n ih =>
    intro items hitems
    refine yields_bind fun index ↦ ?_
    refine (yields_ofOption fun _ ↦ mem_of_swapRemove).bind fun (item, rest) hmem ↦ ?_
    refine (hitems item hmem.1).bind fun o ho ↦ ?_
    cases o with
    | some b => exact yields_pure (ho b rfl)
    | none => exact ih rest fun a ha ↦ hitems a (hmem.2 a ha)

theorem yields_tryInRandomOrder_nonempty (act : α → Gen (Option β)) (items : List α) :
    Yields (tryInRandomOrder act items) fun _ ↦ (!items.isEmpty) := by
  cases items with
  | nil => exact yields_throw ()
  | cons a items => exact fun _ _ _ _ ↦ rfl

end Bhf.FuzzEngine
