import Mathlib.Data.List.Basic

/-!
# Ring buffers with a wrap flag

A fixed number of slots is filled from the front; at the last slot the index returns to the front
and a flag records that it has. The contents in order of arrival are then the slots from the index
on, followed by those before it.

**The contents are the last elements that were pushed**, as many as there are slots
(`holds_pushAll`).
-/

namespace Bhf

open List

structure RingBuffer (α : Type) where
  slots : List α
  next : ℕ
  wrapped : Bool

namespace RingBuffer

variable {α : Type}

/-- A ring of `n` slots in which nothing was written. -/
def empty (n : ℕ) (a : α) : RingBuffer α where
  slots := List.replicate n a
  next := 0
  wrapped := false

def push (r : RingBuffer α) (a : α) : RingBuffer α :=
  let slots := r.slots.set r.next a
  if r.next = r.slots.length - 1 then ⟨slots, 0, true⟩ else ⟨slots, r.next + 1, r.wrapped⟩

def pushAll (r : RingBuffer α) (as : List α) : RingBuffer α :=
  as.foldl push r

/-- What is in the ring, oldest first. -/
def contents (r : RingBuffer α) : List α :=
  if r.wrapped then r.slots.drop r.next ++ r.slots.take r.next else r.slots.take r.next

/-- The last `n` elements. -/
def lastOf (n : ℕ) (as : List α) : List α :=
  as.drop (as.length - n)

variable {n : ℕ}

theorem lastOf_append_singleton {as : List α} (hn : 0 < n) (h : n ≤ as.length) (a : α) :
    lastOf n (as ++ [a]) = (lastOf n as).tail ++ [a] := by
  rw [lastOf, lastOf, tail_drop, length_append, length_singleton,
    drop_append_of_le_length (by omega), Nat.sub_add_comm h]

theorem lastOf_of_length_le {as : List α} (h : as.length ≤ n) : lastOf n as = as := by
  rw [lastOf, Nat.sub_eq_zero_of_le h, drop_zero]

/-- The ring has `n` slots and holds the end of this history. -/
structure Holds (r : RingBuffer α) (n : ℕ) (history : List α) : Prop where
  /-- The number of slots. -/
  length_slots : r.slots.length = n
  /-- The next slot to write is one of them. -/
  next_lt : r.next < n
  /-- What is read is the end of the history. -/
  contents_eq : r.contents = lastOf n history
  /-- A ring that has wrapped is full. -/
  wrapped_of_le : r.wrapped = true → n ≤ history.length
  /-- One that has not is filled up to the next slot. -/
  next_of_not_wrapped : r.wrapped = false → history.length = r.next

theorem holds_empty (hn : 0 < n) (a : α) : (empty n a).Holds n [] where
  length_slots := length_replicate
  next_lt := hn
  contents_eq := by simp [contents, empty, lastOf]
  wrapped_of_le h := by contradiction
  next_of_not_wrapped _ := rfl

/-! ### Pushing

The slots are split at the index: `l` before it, the slot `x` at it and `r` behind it. -/

section Split

variable (l : List α) (a x : α) (r : List α) (wrapped : Bool)

theorem push_split :
    (⟨l ++ x :: r, l.length, wrapped⟩ : RingBuffer α).push a =
      if r = [] then ⟨l ++ [a], 0, true⟩ else ⟨l ++ a :: r, l.length + 1, wrapped⟩ := by
  rw [push]
  cases r with
  | nil => simp
  | cons y r => simp

/-- The new contents drop the slot at the index, if it was in use, and end with the new element. -/
theorem contents_push_split :
    ((⟨l ++ x :: r, l.length, wrapped⟩ : RingBuffer α).push a).contents =
      (if wrapped then r ++ l else l) ++ [a] := by
  have hsplit : l ++ a :: r = (l ++ [a]) ++ r := append_cons l a r
  have hlen : (l ++ [a]).length = l.length + 1 := by simp
  rw [push_split]
  split
  · next hr =>
    rw [hr]
    cases wrapped <;> simp [contents]
  · rw [contents, hsplit, ← hlen, take_left]
    cases wrapped <;> simp

end Split

/-- **A push appends to the history.** -/
theorem Holds.push {ring : RingBuffer α} {history : List α} (h : ring.Holds n history)
    (a : α) : (ring.push a).Holds n (history ++ [a]) := by
  obtain ⟨slots, next, wrapped⟩ := ring
  obtain ⟨hlen, hnext, hcontents, hwrapped, hfresh⟩ := h
  dsimp only at hlen hnext hwrapped hfresh
  obtain ⟨l, x, r, rfl, rfl⟩ : ∃ l x r, slots = l ++ x :: r ∧ next = l.length := by
    refine ⟨slots.take next, slots[next], slots.drop (next + 1), ?_, ?_⟩
    · rw [← drop_eq_getElem_cons (by omega), take_append_drop]
    · rw [length_take_of_le (by omega)]
  simp only [contents, drop_left, take_left] at hcontents
  rw [length_append, length_cons] at hlen
  have hlonger : (history ++ [a]).length = history.length + 1 := length_append
  have hnew : ((⟨l ++ x :: r, l.length, wrapped⟩ : RingBuffer α).push a).contents =
      lastOf n (history ++ [a]) := by
    rw [contents_push_split]
    cases wrapped with
    | true =>
      rw [lastOf_append_singleton (by omega) (hwrapped rfl), ← hcontents]
      rfl
    | false =>
      have := hfresh rfl
      rw [lastOf_of_length_le (by omega)] at hcontents
      rw [lastOf_of_length_le (by omega), ← hcontents]
      rfl
  have hcount : n ≤ history.length ∨ history.length = l.length := by
    cases wrapped with
    | true => exact .inl (hwrapped rfl)
    | false => exact .inr (hfresh rfl)
  rw [push_split] at hnew ⊢
  split at hnew
  · next hr =>
    rw [if_pos hr]
    rw [hr, length_nil] at hlen
    refine ⟨?_, ?_, hnew, fun _ ↦ by omega, fun h ↦ by contradiction⟩
    · rw [length_append]
      omega
    · show 0 < n
      omega
  · next hr =>
    have := length_pos_iff.2 hr
    rw [if_neg hr]
    refine ⟨?_, ?_, hnew, fun h ↦ ?_, fun h ↦ ?_⟩
    · rw [length_append]
      omega
    · show l.length + 1 < n
      omega
    · have := hwrapped h
      omega
    · exact hlonger.trans (congrArg (· + 1) (hfresh h))

theorem Holds.pushAll (as : List α) :
    ∀ {ring : RingBuffer α} {history : List α}, ring.Holds n history →
      (ring.pushAll as).Holds n (history ++ as) := by
  induction as with
  | nil =>
    intro ring history h
    rwa [append_nil]
  | cons a as ih =>
    intro ring history h
    rw [append_cons]
    exact ih (h.push a)

/-- **A ring holds the end of what was written to it.** -/
theorem holds_pushAll (hn : 0 < n) (a : α) (as : List α) : ((empty n a).pushAll as).Holds n as :=
  Holds.pushAll as (holds_empty hn a)

end RingBuffer

end Bhf
