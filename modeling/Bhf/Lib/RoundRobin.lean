import Mathlib.Algebra.Order.Ring.Nat

/-!
# Serving by priority, and round robin

A list of counters is served one counter at a time: the first of those whose priority no other
exceeds goes up by one. The priority is a function of the count alone.

With a priority that falls with every service this is round robin. **Only the rounds in which the
priority does not fall matter** (`balanced_iff`): the first counter then keeps its priority when it
is served, is served again at once, and is two ahead of the others.
-/

namespace Bhf.RoundRobin

open List

variable {priority : ℕ → ℕ} {n : ℕ}

/-- One service: of the counters with the highest priority, the first goes up by one. -/
inductive Serves (priority : ℕ → ℕ) : List ℕ → List ℕ → Prop
  | intro (before : List ℕ) (count : ℕ) (after : List ℕ)
      (hbefore : ∀ other ∈ before, priority other < priority count)
      (hafter : ∀ other ∈ after, priority other ≤ priority count) :
      Serves priority (before ++ count :: after) (before ++ (count + 1) :: after)

/-- No counter is more than one ahead of another. -/
def Balanced (counts : List ℕ) : Prop :=
  ∀ a ∈ counts, ∀ b ∈ counts, a ≤ b + 1

/-- Round `r` after `i` services: the first `i` counters have had their turn. -/
def stage (n r i : ℕ) : List ℕ :=
  List.replicate i (r + 1) ++ List.replicate (n - i) r

theorem stage_zero (n r : ℕ) : stage n r 0 = replicate n r := by
  simp [stage]

theorem stage_self (n r : ℕ) : stage n r n = stage n (r + 1) 0 := by
  simp [stage]

theorem mem_stage {r i count : ℕ} (h : count ∈ stage n r i) : count = r ∨ count = r + 1 := by
  obtain h | h := mem_append.1 h
  · exact .inr (eq_of_mem_replicate h)
  · exact .inl (eq_of_mem_replicate h)

theorem balanced_stage (r i : ℕ) : Balanced (stage n r i) := by
  intro a ha b hb
  have := mem_stage ha
  have := mem_stage hb
  omega

/-- The next counter in turn is served, if those that had their turn have a lower priority. -/
theorem Serves.stage_succ {r i : ℕ} {counts : List ℕ} (h : Serves priority (stage n r i) counts)
    (hi : i < n) (hfalls : i = 0 ∨ priority (r + 1) < priority r) : counts = stage n r (i + 1) := by
  have hwaiting : replicate (n - i) r = r :: replicate (n - (i + 1)) r := by
    rw [← replicate_succ, show n - (i + 1) + 1 = n - i by omega]
  generalize hstage : stage n r i = start at h
  obtain ⟨before, count, after, hbefore, hafter⟩ := h
  rw [stage, hwaiting, append_eq_append_iff] at hstage
  have hnext : before = replicate i (r + 1) ∧ count = r ∧
      after = replicate (n - (i + 1)) r := by
    obtain ⟨passed, hpassed, hrest⟩ | ⟨ahead, hahead, hrest⟩ := hstage
    · cases passed with
      | nil =>
        obtain ⟨rfl, rfl⟩ := cons.inj hrest
        exact ⟨by simpa using hpassed, rfl, rfl⟩
      | cons first passed =>
        -- A counter that waits stands before the one that is served, and has the same priority.
        obtain ⟨rfl, hbehind⟩ := cons.inj hrest
        have hcount : count = r :=
          eq_of_mem_replicate (n := n - (i + 1)) (by rw [hbehind]; simp)
        have hlower := hbefore r (by rw [hpassed]; simp)
        exact absurd hlower (hcount ▸ lt_irrefl _)
    · cases ahead with
      | nil =>
        obtain ⟨rfl, rfl⟩ := cons.inj hrest
        exact ⟨by simpa using hahead.symm, rfl, rfl⟩
      | cons first ahead =>
        -- One that had its turn is served, although the next in turn has a higher priority.
        obtain ⟨rfl, hbehind⟩ := cons.inj hrest
        have hmem : count ∈ replicate i (r + 1) := by rw [hahead]; simp
        have hcount : count = r + 1 := eq_of_mem_replicate hmem
        have hpos : i ≠ 0 := (mem_replicate.1 hmem).1
        have hle := hafter r (by rw [hbehind]; simp)
        rw [hcount] at hle
        omega
  obtain ⟨rfl, rfl, rfl⟩ := hnext
  rw [stage, replicate_succ', append_assoc]
  rfl

/-- If the priority does not fall, the first counter is served twice in a row. -/
theorem Serves.first_again {r : ℕ} {counts : List ℕ} (h : Serves priority (stage n r 1) counts)
    (hstays : priority r ≤ priority (r + 1)) : counts = (r + 2) :: replicate (n - 1) r := by
  generalize hstage : stage n r 1 = start at h
  obtain ⟨before, count, after, hbefore, hafter⟩ := h
  cases before with
  | nil =>
    obtain ⟨rfl, rfl⟩ := cons.inj hstage
    rfl
  | cons head before =>
    obtain ⟨rfl, hrest⟩ := cons.inj hstage
    have hcount : count = r :=
      eq_of_mem_replicate (n := n - 1) (by
        rw [show replicate (n - 1) r = before ++ count :: after from hrest]
        simp)
    have hlower := hbefore (r + 1) mem_cons_self
    rw [hcount] at hlower
    omega

/-! ### Runs -/

section Run

variable {c : ℕ → List ℕ} (hstart : c 0 = List.replicate n 0)
  (hserves : ∀ j, (∀ count ∈ c j, count ≤ priority 0 + 1) → Serves priority (c j) (c (j + 1)))

theorem add_priority_le {r : ℕ} (hfalls : ∀ t < r, priority (t + 1) < priority t) :
    r + priority r ≤ priority 0 := by
  induction r with
  | zero => omega
  | succ r ih =>
    have := ih fun t ht ↦ hfalls t (by omega)
    have := hfalls r (by omega)
    omega

include hserves in
/-- In a round that is reached, the counts are small enough for another service. -/
theorem serves_stage {r i j : ℕ} (hfalls : ∀ t < r, priority (t + 1) < priority t)
    (h : c j = stage n r i) : Serves priority (stage n r i) (c (j + 1)) := by
  rw [← h]
  refine hserves j fun count hcount ↦ ?_
  have := mem_stage (h ▸ hcount)
  have := add_priority_le hfalls
  omega

include hserves in
theorem run_succ {r i : ℕ} (hfalls : ∀ t < r, priority (t + 1) < priority t)
    (h : c (n * r + i) = stage n r i) (hi : i < n) (hturn : i = 0 ∨ priority (r + 1) < priority r) :
    c (n * r + (i + 1)) = stage n r (i + 1) :=
  (serves_stage hserves hfalls h).stage_succ hi hturn

include hstart hserves in
/-- **Round by round**, as long as the priority falls. -/
theorem run_eq_stage {r i : ℕ} (hi : i ≤ n) (hfalls : ∀ t < r, priority (t + 1) < priority t)
    (hturn : i ≤ 1 ∨ priority (r + 1) < priority r) : c (n * r + i) = stage n r i := by
  induction r generalizing i with
  | zero =>
    induction i with
    | zero => rw [stage_zero]; exact hstart
    | succ i ih =>
      exact run_succ hserves hfalls (ih (by omega) (by omega)) hi (by omega)
  | succ r ihr =>
    induction i with
    | zero =>
      have hlast := ihr le_rfl (fun t ht ↦ hfalls t (by omega)) (.inr (hfalls r (by omega)))
      rw [← stage_self, ← hlast]
      rfl
    | succ i ih =>
      exact run_succ hserves hfalls (ih (by omega) (by omega)) hi (by omega)

include hstart hserves in
/-- **A run of `k` services is balanced throughout iff the priority falls in every round that gets
as far as its second service.** -/
theorem balanced_iff (hn : 2 ≤ n) (k : ℕ) :
    (∀ j ≤ k, Balanced (c j)) ↔ ∀ r, n * r + 1 < k → priority (r + 1) < priority r := by
  constructor
  · intro hbalanced r
    -- The first round in which the priority does not fall ends the balance at its second service.
    induction r using Nat.strong_induction_on with
    | _ r ih =>
      intro hround
      by_contra hstays
      have hfalls : ∀ t < r, priority (t + 1) < priority t := fun t ht ↦
        ih t ht (lt_of_le_of_lt (by gcongr) hround)
      have hfirst : c (n * r + 1) = stage n r 1 :=
        run_eq_stage hstart hserves (by omega) hfalls (.inl le_rfl)
      have hagain : c (n * r + 2) = (r + 2) :: replicate (n - 1) r :=
        (serves_stage hserves hfalls hfirst).first_again (Nat.le_of_not_lt hstays)
      have hle := hbalanced (n * r + 2) (by omega) (r + 2) (by rw [hagain]; simp) r
        (by rw [hagain]; simp; omega)
      omega
  · intro hfalls j hj
    have hsplit : n * (j / n) + j % n = j := Nat.div_add_mod j n
    have hmod : j % n < n := Nat.mod_lt j (by omega)
    rw [← hsplit, run_eq_stage hstart hserves (le_of_lt hmod)]
    · exact balanced_stage _ _
    · intro t ht
      refine hfalls t ?_
      have hle : n * (t + 1) ≤ n * (j / n) := Nat.mul_le_mul_left n ht
      rw [Nat.mul_add] at hle
      omega
    · by_cases hturn : j % n ≤ 1
      · exact .inl hturn
      · exact .inr (hfalls _ (by omega))

end Run

end Bhf.RoundRobin
