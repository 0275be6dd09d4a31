import Bhf.FuzzEngine.Scheduler
import Bhf.Lib.RoundRobin

/-!
# Seeds of equal energy

Seeds with the same feedback have the same energy, so their priority scores differ only by how often
they were selected, and the scan takes the first of the best (`selectNext_first`): ids never fall
along the queue, not even where the counter of ids saturates.

The queue is then served by the priority `energy * 1024 / (count + 1)`. **It is served round-robin
exactly up to the first round in which this quotient, rounded down, does not fall**
(`roundRobin_iff`). Every energy has such a round: once the count exceeds `energy * 1024` all scores
are zero.
-/

namespace Bhf.FuzzEngine.PowerScheduler

open List

variable {s : PowerScheduler}

/-! ### The first of the best -/

/-- Ids never fall along the queue. -/
structure Ordered (s : PowerScheduler) : Prop where
  /-- In the order of the queue. -/
  pairwise : s.counts.Pairwise fun a b ↦ a.1.raw ≤ b.1.raw
  /-- The next id is above all. -/
  le_nextId : ∀ count ∈ s.counts, count.1.raw ≤ s.nextId

theorem le_saturatingAdd64 (a b : UInt64) : a ≤ saturatingAdd64 a b := by
  have := a.toNat_lt
  rw [UInt64.le_iff_toNat_le, toNat_saturatingAdd64]
  omega

theorem Ordered.step (h : s.Ordered) (op : Op) : (s.step op).Ordered := by
  obtain ⟨-, -, -, -, hnext, hcounts⟩ | ⟨-, -, -, -, hnext, hcounts⟩ |
    ⟨-, -, l, seed, r, hseeds, -, -, -, hnext, hseeds'⟩ := s.step_cases op
  · have hle : s.nextId ≤ (s.step op).nextId := hnext ▸ le_saturatingAdd64 _ _
    constructor
    · rw [hcounts, pairwise_append]
      exact ⟨h.pairwise, pairwise_singleton _ _, by simpa using h.le_nextId⟩
    · intro count hcount
      rw [hcounts, mem_append, mem_singleton] at hcount
      obtain hcount | rfl := hcount
      · exact UInt64.le_trans (h.le_nextId count hcount) hle
      · exact hle
  · exact ⟨hcounts ▸ h.pairwise, fun count hcount ↦ hnext ▸ h.le_nextId count (hcounts ▸ hcount)⟩
  · have hids : (s.step op).counts.map (·.1.raw) = s.counts.map (·.1.raw) := by
      rw [counts, counts, hseeds, hseeds']
      simp
    constructor
    · have := h.pairwise
      rw [← pairwise_map (f := fun count : SeedId × UInt64 ↦ count.1.raw)] at this ⊢
      rwa [hids]
    · intro count hcount
      have hmem := mem_map_of_mem (f := fun count : SeedId × UInt64 ↦ count.1.raw) hcount
      rw [hids] at hmem
      obtain ⟨count', hcount', heq⟩ := mem_map.1 hmem
      rw [hnext, ← heq]
      exact h.le_nextId count' hcount'

theorem Ordered.run (ops : List Op) : ∀ {s : PowerScheduler}, s.Ordered → (s.run ops).Ordered := by
  induction ops with
  | nil => exact fun h ↦ h
  | cons op ops ih => exact fun h ↦ ih (h.step op)

/-- What the scan has found in the seeds it has passed: the first of the best. -/
def FirstBest (config : PowerScheduleConfig) (done : List SeedEntry) : Option Best → Prop
  | none => done = []
  | some best => ∃ l seed r, done = l ++ seed :: r ∧ l.length = best.index ∧
      seed.priorityScore config = best.score ∧ seed.id = best.id ∧
      (∀ other ∈ l, other.priorityScore config < best.score) ∧
      ∀ other ∈ r, other.priorityScore config ≤ best.score

variable {config : PowerScheduleConfig} {seed : SeedEntry}

theorem firstBest_scanSeed {done : List SeedEntry} {best : Option Best}
    (h : FirstBest config done best) (hids : ∀ other ∈ done, other.id.raw ≤ seed.id.raw) :
    FirstBest config (done ++ [seed]) (scanSeed config best (seed, done.length)) := by
  cases best with
  | none =>
    obtain rfl : done = [] := h
    exact ⟨[], seed, [], rfl, rfl, rfl, rfl, by simp, by simp⟩
  | some best =>
    obtain ⟨l, kept, r, rfl, hl, hscore, hid, hbefore, hafter⟩ := h
    dsimp only [scanSeed]
    split
    · next hbetter =>
      have hlt : best.score < seed.priorityScore config := by
        obtain hlt | ⟨-, hlower⟩ := hbetter
        · exact hlt
        · -- An equal score would need a lower id, but ids do not fall.
          exact absurd hlower (UInt64.not_lt.2 (hid ▸ hids kept (by simp)))
      refine ⟨l ++ kept :: r, seed, [], rfl, rfl, rfl, rfl, fun other hother ↦ ?_, by simp⟩
      simp only [mem_append, mem_cons] at hother
      obtain hother | rfl | hother := hother
      · exact UInt64.lt_trans (hbefore other hother) hlt
      · rw [hscore]
        exact hlt
      · exact UInt64.lt_of_le_of_lt (hafter other hother) hlt
    · next hworse =>
      refine ⟨l, kept, r ++ [seed], by simp, hl, hscore, hid, hbefore,
        forall_mem_append.2 ⟨hafter, forall_mem_singleton.2 ?_⟩⟩
      exact UInt64.not_lt.1 fun hlt ↦ hworse (.inl hlt)

theorem firstBest_foldl {seeds : List SeedEntry}
    (hids : seeds.Pairwise fun a b ↦ a.id.raw ≤ b.id.raw) :
    FirstBest config seeds (seeds.zipIdx.foldl (scanSeed config) none) := by
  induction seeds using reverseRecOn with
  | nil => rfl
  | append_singleton seeds seed ih =>
    obtain ⟨hids, -, hlast⟩ := pairwise_append.1 hids
    rw [zipIdx_append]
    simpa using firstBest_scanSeed (ih hids) fun other h ↦ hlast other h seed mem_cons_self

/-- **A selection takes the first of the best seeds** and counts it. -/
theorem Ordered.selectNext_first (h : s.Ordered) (hseeds : s.seeds ≠ []) :
    ∃ l seed r, s.seeds = l ++ seed :: r ∧
      (∀ other ∈ l, other.priorityScore s.config < seed.priorityScore s.config) ∧
      (∀ other ∈ r, other.priorityScore s.config ≤ seed.priorityScore s.config) ∧
      s.step .selectNext = { s with
        seeds := l ++ { seed with selections := saturatingAdd64 seed.selections 1 } :: r } := by
  have hids : s.seeds.Pairwise fun a b ↦ a.id.raw ≤ b.id.raw := by
    simpa [counts, pairwise_map] using h.pairwise
  have hscan : FirstBest s.config s.seeds _ := firstBest_foldl hids
  rw [PowerScheduler.step, selectNext, bestSeedIndex]
  cases hbest : s.seeds.zipIdx.foldl (scanSeed s.config) none with
  | none =>
    rw [hbest] at hscan
    exact absurd hscan hseeds
  | some best =>
    rw [hbest] at hscan
    obtain ⟨l, seed, r, hsplit, hl, hscore, -, hbefore, hafter⟩ := hscan
    refine ⟨l, seed, r, hsplit, hscore ▸ hbefore, hscore ▸ hafter, ?_⟩
    simp [hsplit, ← hl, modify_append_cons]

/-! ### Equal feedback -/

/-- The energy of a seed, which depends on its feedback only. -/
def energyOf (config : PowerScheduleConfig) (feedback : ScheduleFeedback) : ℕ :=
  (SeedEntry.energy ⟨⟨0⟩, [], feedback, 0⟩ config).toNat

/-- The score of a seed with this feedback and count. -/
def scoreOf (config : PowerScheduleConfig) (feedback : ScheduleFeedback) (count : ℕ) : ℕ :=
  energyOf config feedback * 1024 / (count + 1)

/-- How often each seed was selected. -/
def selectionCounts (s : PowerScheduler) : List ℕ :=
  s.seeds.map (·.selections.toNat)

/-- All seeds have this feedback. -/
def SameFeedback (s : PowerScheduler) (feedback : ScheduleFeedback) : Prop :=
  ∀ seed ∈ s.seeds, seed.feedback = feedback

variable {feedback : ScheduleFeedback}

theorem scoreOf_zero_lt (config : PowerScheduleConfig) (feedback : ScheduleFeedback) :
    scoreOf config feedback 0 < 2 ^ 42 := by
  have := (SeedEntry.energy ⟨⟨0⟩, [], feedback, 0⟩ config).toNat_lt
  rw [scoreOf, energyOf]
  omega

theorem SameFeedback.selectNext (h : s.SameFeedback feedback) (hordered : s.Ordered) :
    (s.step .selectNext).SameFeedback feedback := by
  by_cases hseeds : s.seeds = []
  · obtain ⟨-, hnone⟩ | ⟨l, seed, r, hsplit, -⟩ := s.selectNext_cases
    · rwa [PowerScheduler.step, hnone]
    · simp [hseeds] at hsplit
  · obtain ⟨l, seed, r, hsplit, -, -, hstep⟩ := hordered.selectNext_first hseeds
    intro other hother
    rw [hstep] at hother
    rw [SameFeedback, hsplit] at h
    simp only [mem_append, mem_cons] at h hother
    obtain hother | rfl | hother := hother
    · exact h other (.inl hother)
    · exact h seed (.inr (.inl rfl))
    · exact h other (.inr (.inr hother))

/-- **A selection serves the counts** by their scores, while no count is about to saturate. -/
theorem SameFeedback.serves (h : s.SameFeedback feedback) (hordered : s.Ordered)
    (hseeds : s.seeds ≠ [])
    (hcounts : ∀ count ∈ s.selectionCounts, count ≤ scoreOf s.config feedback 0 + 1) :
    RoundRobin.Serves (scoreOf s.config feedback) s.selectionCounts
      (s.step .selectNext).selectionCounts := by
  have hbound := scoreOf_zero_lt s.config feedback
  have hscore : ∀ seed ∈ s.seeds, seed.selections.toNat + 1 < 2 ^ 64 ∧
      (seed.priorityScore s.config).toNat = scoreOf s.config feedback seed.selections.toNat := by
    intro seed hseed
    have hcount := hcounts _ (mem_map_of_mem hseed)
    have hlt : seed.selections.toNat + 1 < 2 ^ 64 := by omega
    refine ⟨hlt, ?_⟩
    rw [toNat_priorityScore, scoreOf, min_eq_left (by omega), ← h seed hseed]
    rfl
  obtain ⟨l, seed, r, hsplit, hbefore, hafter, hstep⟩ := hordered.selectNext_first hseeds
  obtain ⟨hlt, hseed⟩ := hscore seed (by simp [hsplit])
  have hsucc : (saturatingAdd64 seed.selections 1).toNat = seed.selections.toNat + 1 := by
    have hone : (1 : UInt64).toNat = 1 := rfl
    rw [toNat_saturatingAdd64, hone, min_eq_left (by omega)]
  rw [selectionCounts, selectionCounts, hstep, hsplit, map_append, map_cons,
    map_append, map_cons, hsucc]
  refine .intro _ _ _ (forall_mem_map.2 fun other hother ↦ ?_)
    (forall_mem_map.2 fun other hother ↦ ?_)
  all_goals rw [← hseed, ← (hscore other (by simp [hsplit, hother])).2]
  · exact UInt64.lt_iff_toNat_lt.1 (hbefore other hother)
  · exact UInt64.le_iff_toNat_le.1 (hafter other hother)

/-! ### Consecutive selections -/

/-- The scheduler after `j` selections. -/
def selectTimes (s : PowerScheduler) : ℕ → PowerScheduler
  | 0 => s
  | j + 1 => (s.selectTimes j).step .selectNext

/-- Without a selection every count stays zero. -/
theorem unselected_run (ops : List Op) :
    ∀ {s : PowerScheduler}, (∀ count ∈ s.counts, count.2 = 0) → ops.countP Op.isSelect = 0 →
      ∀ count ∈ (s.run ops).counts, count.2 = 0 := by
  induction ops with
  | nil => exact fun h _ ↦ h
  | cons op ops ih =>
    intro s h hselects
    rw [countP_cons] at hselects
    have hop : op.isSelect = false := by
      rw [Bool.eq_false_iff]
      intro hop
      rw [hop, if_pos rfl] at hselects
      omega
    refine ih ?_ (by omega)
    obtain ⟨-, -, -, -, -, hcounts⟩ | ⟨-, -, -, -, -, hcounts⟩ | ⟨-, hselect, -⟩ :=
      s.step_cases op
    · rw [hcounts]
      simpa [or_imp] using h
    · rwa [hcounts]
    · rw [hop] at hselect
      contradiction

/-- What selections leave as it is. -/
structure Alike (s : PowerScheduler) (config : PowerScheduleConfig) (feedback : ScheduleFeedback)
    (n : ℕ) : Prop where
  /-- The configuration. -/
  config_eq : s.config = config
  /-- The order of the ids. -/
  ordered : s.Ordered
  /-- The feedback of the seeds. -/
  sameFeedback : s.SameFeedback feedback
  /-- Their number. -/
  length_eq : s.seeds.length = n

theorem Alike.selectTimes {n : ℕ} (h : s.Alike config feedback n) (j : ℕ) :
    (s.selectTimes j).Alike config feedback n := by
  induction j with
  | zero => exact h
  | succ j ih =>
    exact ⟨(step_config _ _).trans ih.config_eq, ih.ordered.step _,
      ih.sameFeedback.selectNext ih.ordered, (length_seeds_step _ rfl).trans ih.length_eq⟩

/-- **Seeds of equal feedback are served round-robin in `k` consecutive selections iff there are
fewer than two of them or the score falls in every round the selections reach.** -/
theorem roundRobin_iff (config : PowerScheduleConfig) (ops : List Op)
    (hselects : ops.countP Op.isSelect = 0) (feedback : ScheduleFeedback)
    (hfeedback : ∀ seed ∈ ((new config).run ops).seeds, seed.feedback = feedback) (k : ℕ) :
    (∀ j ≤ k, ∀ a ∈ (((new config).run ops).selectTimes j).seeds,
      ∀ b ∈ (((new config).run ops).selectTimes j).seeds,
        a.selections.toNat ≤ b.selections.toNat + 1) ↔
    (((new config).run ops).seeds.length ≤ 1 ∨
      ∀ r, ((new config).run ops).seeds.length * r + 1 < k →
        scoreOf config feedback (r + 1) < scoreOf config feedback r) := by
  have hordered : ((new config).run ops).Ordered :=
    Ordered.run ops ⟨List.Pairwise.nil, by simp [counts, new]⟩
  have hzero : ∀ count ∈ ((new config).run ops).counts, count.2 = 0 :=
    unselected_run ops (by simp [counts, new]) hselects
  have hconfig : ((new config).run ops).config = config := run_config ops _
  generalize (new config).run ops = s at *
  have halike : ∀ j, (s.selectTimes j).Alike config feedback s.seeds.length :=
    Alike.selectTimes ⟨hconfig, hordered, hfeedback, rfl⟩
  by_cases hone : s.seeds.length ≤ 1
  · refine iff_of_true (fun j _ a ha b hb ↦ ?_) (.inl hone)
    have hlen : (s.selectTimes j).seeds.length ≤ 1 := (halike j).length_eq ▸ hone
    obtain ⟨seed, hseed⟩ := length_eq_one_iff.1 (le_antisymm hlen (length_pos_of_mem ha))
    rw [hseed, mem_singleton] at ha hb
    rw [ha, hb]
    omega
  · rw [or_iff_right hone]
    have hstart : s.selectionCounts = replicate s.seeds.length 0 := by
      refine eq_replicate_iff.2 ⟨by simp [selectionCounts], fun count hcount ↦ ?_⟩
      obtain ⟨seed, hseed, rfl⟩ := mem_map.1 hcount
      have hcount := hzero _ (mem_map_of_mem hseed)
      dsimp only at hcount
      rw [hcount]
      rfl
    have hserves : ∀ j,
        (∀ count ∈ (s.selectTimes j).selectionCounts, count ≤ scoreOf config feedback 0 + 1) →
        RoundRobin.Serves (scoreOf config feedback) (s.selectTimes j).selectionCounts
          (s.selectTimes (j + 1)).selectionCounts := by
      intro j hcounts
      obtain ⟨rfl, hord, hsame, hlen⟩ := halike j
      have hseeds : (s.selectTimes j).seeds ≠ [] := by
        rw [← length_pos_iff]
        omega
      exact hsame.serves hord hseeds hcounts
    have hbalanced := RoundRobin.balanced_iff
      (c := fun j ↦ (s.selectTimes j).selectionCounts) hstart hserves (by omega) k
    simpa only [RoundRobin.Balanced, selectionCounts, forall_mem_map] using hbalanced

/-- Two seeds of energy one are served in turn in 75 selections. -/
theorem roundRobin_two_seeds :
    ((new {}).run [.insert [0], .insert [1]]).seeds.length = 2 ∧
      ∀ j ≤ 75, ∀ a ∈ (((new {}).run [.insert [0], .insert [1]]).selectTimes j).seeds,
        ∀ b ∈ (((new {}).run [.insert [0], .insert [1]]).selectTimes j).seeds,
          a.selections.toNat ≤ b.selections.toNat + 1 := by
  refine ⟨rfl, (roundRobin_iff {} [.insert [0], .insert [1]] rfl {} (by decide) 75).2 (.inr ?_)⟩
  have hrounds : ∀ r < 37, scoreOf {} {} (r + 1) < scoreOf {} {} r := by decide +kernel
  intro r hr
  change 2 * r + 1 < 75 at hr
  exact hrounds r (by omega)

/-- With 38 and with 39 selections the score is 26 (`1024 / 38` and `1024 / 39`, rounded down), so
the 76th selection takes the first seed again. -/
theorem first_seed_two_ahead :
    ¬ ∀ a ∈ (((new {}).run [.insert [0], .insert [1]]).selectTimes 76).seeds,
      ∀ b ∈ (((new {}).run [.insert [0], .insert [1]]).selectTimes 76).seeds,
        a.selections.toNat ≤ b.selections.toNat + 1 := by
  decide +kernel

end Bhf.FuzzEngine.PowerScheduler
