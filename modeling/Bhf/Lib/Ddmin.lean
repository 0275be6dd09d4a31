import Bhf.Lib.Ends
import Bhf.Lib.Exhaust

/-!
# Delta debugging

`ddmin` shrinks a list while a test still accepts it. It cuts the list into chunks, tries to leave
one of them out, then to keep one alone, and cuts more finely if neither is accepted. The test may
fail, and a failure ends the search.

One round of the loop does one of four things (`round_cases`), from which both results follow: each
round shortens the list or cuts it more finely, so **the search ends** (`lowers_round`), and it only
gives up when the chunks are single elements, so **what it ends with is 1-minimal**
(`ddmin_spec`): without any one of its elements it is refused.
-/

namespace Bhf.Ddmin

open List Except

variable {α ε : Type}

/-! ### Chunks -/

/-- The ranges from the `i`-th on. The first `rem` of all are longer by one. -/
def rangesFrom (base rem : ℕ) : ℕ → ℕ → ℕ → List (ℕ × ℕ)
  | 0, _, _ => []
  | count + 1, i, start =>
    let stop := start + base + if i < rem then 1 else 0
    (start, stop) :: rangesFrom base rem count (i + 1) stop

/-- Cut `len` elements into `count` ranges. -/
def splitRanges (len count : ℕ) : List (ℕ × ℕ) :=
  rangesFrom (len / count) (len % count) count 0 0

def removeRange (input : List α) (range : ℕ × ℕ) : List α :=
  input.take range.1 ++ input.drop range.2

def keepRange (input : List α) (range : ℕ × ℕ) : List α :=
  (input.take range.2).drop range.1

/-- Where the `j`-th range starts. -/
def offset (len count j : ℕ) : ℕ :=
  j * (len / count) + min j (len % count)

theorem rangesFrom_eq (len count k i : ℕ) :
    rangesFrom (len / count) (len % count) k i (offset len count i) =
      (range' i k).map fun j ↦ (offset len count j, offset len count (j + 1)) := by
  induction k generalizing i with
  | zero => rfl
  | succ k ih =>
    have hstop : offset len count i + len / count + (if i < len % count then 1 else 0) =
        offset len count (i + 1) := by
      have hmul : (i + 1) * (len / count) = i * (len / count) + len / count := Nat.succ_mul _ _
      rw [offset, offset, hmul]
      split <;> omega
    rw [rangesFrom, hstop, ih, range'_succ, map_cons]

theorem splitRanges_eq (len count : ℕ) :
    splitRanges len count =
      (range' 0 count).map fun j ↦ (offset len count j, offset len count (j + 1)) := by
  have hzero : offset len count 0 = 0 := by simp [offset]
  rw [← rangesFrom_eq, hzero, splitRanges]

variable {len : ℕ} {range : ℕ × ℕ} {accepts : List α → Bool}

/-- The ranges are not empty and end within the list. -/
theorem of_mem_splitRanges {count : ℕ} (hcount : 0 < count) (hle : count ≤ len)
    (h : range ∈ splitRanges len count) : range.1 < range.2 ∧ range.2 ≤ len := by
  rw [splitRanges_eq, mem_map] at h
  obtain ⟨j, hj, rfl⟩ := h
  rw [mem_range'_1] at hj
  have hbase : 0 < len / count := Nat.div_pos hle hcount
  have hlen : count * (len / count) + len % count = len := Nat.div_add_mod len count
  have hmul : (j + 1) * (len / count) = j * (len / count) + len / count := Nat.succ_mul _ _
  have hlast : (j + 1) * (len / count) ≤ count * (len / count) :=
    Nat.mul_le_mul_right _ (by omega)
  simp only [offset]
  omega

/-- With as many ranges as elements, each holds one. -/
theorem splitRanges_self (h : 0 < len) :
    splitRanges len len = (range' 0 len).map fun j ↦ (j, j + 1) := by
  simp [splitRanges_eq, offset, Nat.div_self h]

theorem removeRange_sublist (input : List α) (h : range.1 ≤ range.2) :
    (removeRange input range).Sublist input := by
  have hdrop : (input.drop range.2).Sublist (input.drop range.1) :=
    drop_sublist_drop_left input h
  have happend := (List.Sublist.refl (input.take range.1)).append hdrop
  rwa [take_append_drop] at happend

theorem keepRange_sublist (input : List α) (range : ℕ × ℕ) :
    (keepRange input range).Sublist input :=
  (drop_sublist _ _).trans (take_sublist _ _)

theorem removeRange_succ (input : List α) (i : ℕ) :
    removeRange input (i, i + 1) = input.eraseIdx i :=
  (eraseIdx_eq_take_drop_succ input i).symm

/-! ### The search -/

variable (test : List α → Except ε Bool)

/-- The first candidate that is accepted, and how many were tried. -/
def tryCandidates : List (List α) → Except ε (Option (List α) × ℕ)
  | [] => .ok (none, 0)
  | candidate :: candidates =>
    match test candidate with
    | .error e => .error e
    | .ok true => .ok (some candidate, 1)
    | .ok false => (tryCandidates candidates).map fun found ↦ (found.1, found.2 + 1)

/-- The variables of the loop. The number of chunks is never zero. -/
structure State (α : Type) where
  current : List α
  n : ℕ
  runs : ℕ
  pos : 0 < n

/-- One round, and whether the loop goes on. -/
def round (s : State α) : Except ε (State α × Bool) :=
  if hempty : s.current = [] then .ok (s, false)
  else
    let splitCount := min s.n s.current.length
    let chunks := splitRanges s.current.length splitCount
    match tryCandidates test (chunks.map (removeRange s.current)) with
    | .error e => .error e
    | .ok (some candidate, runs) =>
      .ok (⟨candidate, max (splitCount - 1) 2, s.runs + runs, by omega⟩, true)
    | .ok (none, runs) =>
      let alone := chunks.filter fun chunk ↦ chunk.2 - chunk.1 ≠ s.current.length
      match tryCandidates test (alone.map (keepRange s.current)) with
      | .error e => .error e
      | .ok (some candidate, more) =>
        .ok (⟨candidate, 2, s.runs + runs + more, Nat.two_pos⟩, true)
      | .ok (none, more) =>
        if s.current.length ≤ splitCount then
          .ok (⟨s.current, s.n, s.runs + runs + more, s.pos⟩, false)
        else
          .ok (⟨s.current, min (splitCount * 2) s.current.length, s.runs + runs + more, by
            have := List.length_pos_iff.2 hempty
            have := s.pos
            omega⟩, true)

/-- A machine that does a round as long as the loop goes on. -/
def next : Except ε (State α × Bool) → Option (Except ε (State α × Bool))
  | .ok (s, true) => some (round test s)
  | _ => none

/-! ### What a round does -/

section Round

variable {test} {candidates : List (List α)} {runs : ℕ}

theorem of_tryCandidates_some {candidate : List α}
    (h : tryCandidates test candidates = .ok (some candidate, runs)) :
    candidate ∈ candidates ∧ test candidate = .ok true := by
  induction candidates generalizing runs with
  | nil => simp [tryCandidates] at h
  | cons head candidates ih =>
    rw [tryCandidates] at h
    split at h
    · contradiction
    · next hhead =>
      obtain rfl : head = candidate := Option.some.inj (Prod.mk.inj (ok.inj h)).1
      exact ⟨mem_cons_self, hhead⟩
    · obtain ⟨⟨found, more⟩, hfound, heq⟩ := except_map_eq_ok h
      obtain ⟨⟩ := heq
      exact (ih hfound).imp_left (mem_cons_of_mem _)

theorem of_tryCandidates_none (h : tryCandidates test candidates = .ok (none, runs)) :
    ∀ candidate ∈ candidates, test candidate = .ok false := by
  induction candidates generalizing runs with
  | nil => simp
  | cons head candidates ih =>
    rw [tryCandidates] at h
    split at h
    · contradiction
    · simp at h
    · next hhead =>
      obtain ⟨⟨found, more⟩, hfound, heq⟩ := except_map_eq_ok h
      obtain ⟨⟩ := heq
      exact forall_mem_cons.2 ⟨hhead, ih hfound⟩

/-- What comes out of a round: nothing was left to shorten, a shorter list was accepted, the list
is to be cut more finely, or it is 1-minimal. -/
inductive Outcome (test : List α → Except ε Bool) (s s' : State α) : Bool → Prop
  | empty (h : s.current = []) (h' : s'.current = []) : Outcome test s s' false
  | shorter (htest : test s'.current = .ok true) (hsub : s'.current.Sublist s.current)
      (hlt : s'.current.length < s.current.length) : Outcome test s s' true
  | finer (h : s'.current = s.current) (hlt : s.n < s'.n) (hle : s'.n ≤ s.current.length) :
      Outcome test s s' true
  | minimal (h : s'.current = s.current)
      (htest : ∀ i < s.current.length, test (s.current.eraseIdx i) = .ok false) :
      Outcome test s s' false

theorem round_cases {s s' : State α} {goesOn : Bool} (h : round test s = .ok (s', goesOn)) :
    Outcome test s s' goesOn := by
  rw [round] at h
  split at h
  · next hempty =>
    obtain ⟨⟩ := h
    exact .empty hempty hempty
  · next hempty =>
    have hlen : 0 < s.current.length := length_pos_iff.2 hempty
    have hpos := s.pos
    have hranges : ∀ chunk ∈ splitRanges s.current.length (min s.n s.current.length),
        chunk.1 < chunk.2 ∧ chunk.2 ≤ s.current.length :=
      fun chunk hchunk ↦ of_mem_splitRanges (by omega) (by omega) hchunk
    dsimp only at h
    split at h
    · contradiction
    · next candidate runs hremoved =>
      obtain ⟨⟩ := h
      obtain ⟨hmem, htest⟩ := of_tryCandidates_some hremoved
      obtain ⟨chunk, hchunk, rfl⟩ := mem_map.1 hmem
      have hchunk := hranges chunk hchunk
      refine .shorter htest (removeRange_sublist s.current hchunk.1.le) ?_
      show (removeRange s.current chunk).length < s.current.length
      rw [removeRange, length_append, length_take, length_drop]
      omega
    · next runs hremoved =>
      split at h
      · contradiction
      · next candidate more hkept =>
        obtain ⟨⟩ := h
        obtain ⟨hmem, htest⟩ := of_tryCandidates_some hkept
        obtain ⟨chunk, hchunk, rfl⟩ := mem_map.1 hmem
        obtain ⟨hchunk, hpart⟩ := mem_filter.1 hchunk
        have hchunk := hranges chunk hchunk
        have hpart := of_decide_eq_true hpart
        refine .shorter htest (keepRange_sublist s.current chunk) ?_
        show (keepRange s.current chunk).length < s.current.length
        rw [keepRange, length_drop, length_take]
        omega
      · next more hkept =>
        split at h
        · next hfine =>
          obtain ⟨⟩ := h
          refine .minimal rfl fun i hi ↦ ?_
          rw [← removeRange_succ]
          apply of_tryCandidates_none hremoved
          rw [show min s.n s.current.length = s.current.length by omega, splitRanges_self hlen]
          exact mem_map_of_mem (mem_map.2 ⟨i, mem_range'_1.2 ⟨i.zero_le, by omega⟩, rfl⟩)
        · next hcoarse =>
          obtain ⟨⟩ := h
          refine .finer rfl ?_ (min_le_right _ _)
          show s.n < min (min s.n s.current.length * 2) s.current.length
          omega

end Round

/-! ### Whole searches -/

/-- The length of the list, and how much more finely it can be cut. -/
def measure : Except ε (State α × Bool) → ℕ × ℕ
  | .ok (s, true) => (s.current.length + 1, s.current.length - s.n)
  | _ => (0, 0)

/-- **The search ends.** -/
theorem lowers_round : Lowers (next test) measure := by
  rintro (e | ⟨s, _ | _⟩) result h
  · contradiction
  · contradiction
  obtain rfl : round test s = result := Option.some.inj h
  cases hround : round test s with
  | error e => exact .left _ _ (Nat.succ_pos _)
  | ok result =>
    obtain ⟨s', goesOn⟩ := result
    cases round_cases hround with
    | empty | minimal => exact .left _ _ (Nat.succ_pos _)
    | shorter _ _ hlt => exact .left _ _ (Nat.succ_lt_succ hlt)
    | finer heq hlt hle =>
      rw [measure, measure, heq]
      exact .right _ (by omega)

/-- Shrink the input. -/
def ddmin (input : List α) : Except ε (List α × ℕ) :=
  (exhaust (next test) measure (lowers_round test) (.ok (⟨input, 2, 0, Nat.two_pos⟩, true))).map
    fun result ↦ (result.1.current, result.1.runs)

theorem tryCandidates_eq_ok (h : ∀ list, test list = .ok (accepts list))
    (candidates : List (List α)) : ∃ found, tryCandidates test candidates = .ok found := by
  induction candidates with
  | nil => exact ⟨_, rfl⟩
  | cons candidate candidates ih =>
    obtain ⟨found, hfound⟩ := ih
    rw [tryCandidates, h candidate]
    cases accepts candidate with
    | true => exact ⟨_, rfl⟩
    | false => exact ⟨_, by rw [hfound]; rfl⟩

/-- A round does not fail if the test does not. -/
theorem round_eq_ok (h : ∀ list, test list = .ok (accepts list)) (s : State α) :
    ∃ result, round test s = .ok result := by
  rw [round]
  split
  · exact ⟨_, rfl⟩
  · obtain ⟨⟨removed, runs⟩, hremoved⟩ := tryCandidates_eq_ok test h _
    obtain ⟨⟨kept, more⟩, hkept⟩ := tryCandidates_eq_ok test h
      (((splitRanges s.current.length _).filter fun chunk ↦
        chunk.2 - chunk.1 ≠ s.current.length).map _)
    dsimp only
    rw [hremoved]
    cases removed with
    | some candidate => exact ⟨_, rfl⟩
    | none =>
      rw [hkept]
      cases kept with
      | some candidate => exact ⟨_, rfl⟩
      | none =>
        dsimp only
        split
        · exact ⟨_, rfl⟩
        · exact ⟨_, rfl⟩

/-- What is known along the search: the list is a part of the input, it is accepted if the input
is, and the loop is only left with a list that is 1-minimal. -/
structure Invariant (accepts : List α → Bool) (input : List α) (s : State α) (goesOn : Bool) :
    Prop where
  sublist : s.current.Sublist input
  accepted : accepts input → accepts s.current
  minimal : goesOn = false → ∀ i < s.current.length, accepts (s.current.eraseIdx i) = false

theorem Invariant.round (h : ∀ list, test list = .ok (accepts list)) {input : List α}
    {s s' : State α} {goesOn : Bool} (hinv : Invariant accepts input s true)
    (hround : round test s = .ok (s', goesOn)) : Invariant accepts input s' goesOn := by
  have haccepts : ∀ {list : List α} {b : Bool}, test list = .ok b → accepts list = b :=
    fun htest ↦ ok.inj ((h _).symm.trans htest)
  cases round_cases hround with
  | empty hs hs' =>
    have heq : s'.current = s.current := hs'.trans hs.symm
    exact ⟨heq ▸ hinv.sublist, fun hinput ↦ heq ▸ hinv.accepted hinput, by simp [hs']⟩
  | shorter htest hsub _ =>
    exact ⟨hsub.trans hinv.sublist, fun _ ↦ haccepts htest, fun hstop ↦ by contradiction⟩
  | finer heq _ _ =>
    exact ⟨heq ▸ hinv.sublist, fun hinput ↦ heq ▸ hinv.accepted hinput,
      fun hstop ↦ by contradiction⟩
  | minimal heq htest =>
    refine ⟨heq ▸ hinv.sublist, fun hinput ↦ heq ▸ hinv.accepted hinput, fun _ i hi ↦ ?_⟩
    rw [heq] at hi ⊢
    exact haccepts (htest i hi)

/-- **The result is a part of the input, it is accepted if the input is, and it is 1-minimal.** -/
theorem ddmin_spec (h : ∀ list, test list = .ok (accepts list)) (input : List α) :
    ∃ result runs, ddmin test input = .ok (result, runs) ∧ result.Sublist input ∧
      (accepts input → accepts result) ∧
      ∀ i < result.length, accepts (result.eraseIdx i) = false := by
  obtain ⟨hleads, hstop⟩ := leads_exhaust_and_stopped (lowers_round test)
    (.ok (⟨input, 2, 0, Nat.two_pos⟩, true))
  rw [ddmin]
  generalize exhaust (next test) measure (lowers_round test) _ = last at hleads hstop
  have hinv : ∃ s goesOn, last = .ok (s, goesOn) ∧ Invariant accepts input s goesOn := by
    have hstart : Invariant accepts input ⟨input, 2, 0, Nat.two_pos⟩ true :=
      ⟨.refl _, id, fun h ↦ by contradiction⟩
    refine hleads.invariant (I := fun result ↦ ∃ s goesOn, result = .ok (s, goesOn) ∧
      Invariant accepts input s goesOn) ⟨_, _, rfl, hstart⟩ ?_
    rintro _ result - ⟨s, goesOn, rfl, hinv⟩ hnext
    cases goesOn with
    | false => contradiction
    | true =>
      obtain rfl : round test s = result := Option.some.inj hnext
      obtain ⟨⟨s', goesOn⟩, hround⟩ := round_eq_ok test h s
      exact ⟨s', goesOn, hround, hinv.round test h hround⟩
  obtain ⟨s, goesOn, rfl, hsub, haccepted, hminimal⟩ := hinv
  cases goesOn with
  | true => contradiction
  | false => exact ⟨s.current, s.runs, rfl, hsub, haccepted, hminimal rfl⟩

end Bhf.Ddmin
