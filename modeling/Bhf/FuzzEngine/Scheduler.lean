import Bhf.Lib.Words
import Mathlib.Algebra.Order.BigOperators.Group.List
import Mathlib.Data.List.Induction
import Mathlib.Data.List.Nodup
import Mathlib.Algebra.Ring.Nat

/-!
# The power scheduler

`PowerScheduler` hands out the seed with the highest priority score, the energy of the seed divided
by how often it was selected already; among equal scores the lowest id wins. Energy grows with
feedback, up to the configured maximum.

**The score of a seed that was never selected is at least 1024, and that of a seed that was selected
as often as the energy can be large is below 1024** (`le_priorityScore_of_unselected`,
`priorityScore_lt`). So as long as one seed waits, only seeds below that count are handed out, and
each such call uses up one of finitely many turns (`spent`). Neither saturation nor feedback between
the calls changes this: the two bounds hold for every feedback.
-/

namespace Bhf.FuzzEngine

open List

structure SeedId where
  raw : UInt64
  deriving DecidableEq

structure ScheduleFeedback where
  newExceptionSignatures : UInt32 := 0
  newBreadcrumbBits : UInt32 := 0
  deriving DecidableEq

def ScheduleFeedback.accumulate (self feedback : ScheduleFeedback) : ScheduleFeedback where
  newExceptionSignatures :=
    saturatingAdd32 self.newExceptionSignatures feedback.newExceptionSignatures
  newBreadcrumbBits := saturatingAdd32 self.newBreadcrumbBits feedback.newBreadcrumbBits

structure PowerScheduleConfig where
  baseEnergy : UInt32 := 1
  maxEnergy : UInt32 := 64
  exceptionSignatureBonus : UInt32 := 16
  breadcrumbBitBonus : UInt32 := 1

structure ScheduledSeed where
  id : SeedId
  bytes : Bytes
  energy : UInt32
  priorityScore : UInt64

structure SeedEntry where
  id : SeedId
  bytes : Bytes
  feedback : ScheduleFeedback
  selections : UInt64
  deriving DecidableEq

def SeedEntry.energy (seed : SeedEntry) (config : PowerScheduleConfig) : UInt32 :=
  let raw := saturatingAdd32
    (saturatingAdd32 config.baseEnergy
      (saturatingMul32 config.exceptionSignatureBonus seed.feedback.newExceptionSignatures))
    (saturatingMul32 config.breadcrumbBitBonus seed.feedback.newBreadcrumbBits)
  min (max raw 1) (max config.maxEnergy 1)

def SeedEntry.priorityScore (seed : SeedEntry) (config : PowerScheduleConfig) : UInt64 :=
  saturatingMul64 (seed.energy config).toUInt64 1024 / saturatingAdd64 seed.selections 1

structure PowerScheduler where
  config : PowerScheduleConfig
  nextId : UInt64
  seeds : List SeedEntry

namespace PowerScheduler

def new (config : PowerScheduleConfig) : PowerScheduler where
  config := config
  nextId := 0
  seeds := []

def insertWithFeedback (self : PowerScheduler) (bytes : Bytes) (feedback : ScheduleFeedback) :
    SeedId × PowerScheduler :=
  let id : SeedId := ⟨self.nextId⟩
  (id, { self with
    nextId := saturatingAdd64 self.nextId 1
    seeds := self.seeds ++ [⟨id, bytes, feedback, 0⟩] })

def insert (self : PowerScheduler) (bytes : Bytes) : SeedId × PowerScheduler :=
  self.insertWithFeedback bytes {}

def recordFeedback (self : PowerScheduler) (id : SeedId) (feedback : ScheduleFeedback) :
    Bool × PowerScheduler :=
  match self.seeds.findIdx? (·.id = id) with
  | none => (false, self)
  | some index =>
    (true, { self with
      seeds := self.seeds.modify index fun seed ↦
        { seed with feedback := seed.feedback.accumulate feedback } })

/-- The three variables of the scan: the best index so far with its score and id. -/
structure Best where
  index : ℕ
  score : UInt64
  id : SeedId

def scanSeed (config : PowerScheduleConfig) (best : Option Best) (item : SeedEntry × ℕ) :
    Option Best :=
  let score := item.1.priorityScore config
  match best with
  | none => some ⟨item.2, score, item.1.id⟩
  | some best =>
    if score > best.score ∨ (score = best.score ∧ item.1.id.raw < best.id.raw) then
      some ⟨item.2, score, item.1.id⟩
    else some best

def bestSeedIndex (self : PowerScheduler) : Option ℕ :=
  (self.seeds.zipIdx.foldl (scanSeed self.config) none).map (·.index)

def selectNext (self : PowerScheduler) : Option ScheduledSeed × PowerScheduler :=
  match self.bestSeedIndex with
  | none => (none, self)
  | some index =>
    match self.seeds[index]? with
    | none => (none, self)
    | some seed =>
      (some ⟨seed.id, seed.bytes, seed.energy self.config, seed.priorityScore self.config⟩,
        { self with
          seeds := self.seeds.modify index fun seed ↦
            { seed with selections := saturatingAdd64 seed.selections 1 } })

end PowerScheduler

/-! ### Bounds on the score -/

section Score

variable (seed : SeedEntry) (config : PowerScheduleConfig)

/-- The largest energy a configuration allows. -/
def PowerScheduleConfig.energyCap : ℕ :=
  max config.maxEnergy.toNat 1

theorem toNat_min_max_one (raw cap : UInt32) :
    (min (max raw 1) (max cap 1)).toNat = min (max raw.toNat 1) (max cap.toNat 1) := by
  have hmax (a b : UInt32) : (max a b).toNat = max a.toNat b.toNat := by
    show (if a ≤ b then b else a).toNat = _
    rw [apply_ite UInt32.toNat]
    rfl
  have hmin (a b : UInt32) : (min a b).toNat = min a.toNat b.toNat := by
    show (if a ≤ b then a else b).toNat = _
    rw [apply_ite UInt32.toNat]
    rfl
  rw [hmin, hmax, hmax]
  rfl

theorem one_le_energy : 1 ≤ (seed.energy config).toNat := by
  rw [SeedEntry.energy, toNat_min_max_one]
  omega

theorem energy_le : (seed.energy config).toNat ≤ config.energyCap := by
  rw [SeedEntry.energy, toNat_min_max_one]
  exact min_le_right _ _

theorem energyCap_lt : config.energyCap < 2 ^ 32 := by
  have := config.maxEnergy.toNat_lt
  rw [PowerScheduleConfig.energyCap]
  omega

/-- The product with 1024 never saturates: the energy is a 32-bit word. -/
theorem toNat_priorityScore :
    (seed.priorityScore config).toNat =
      (seed.energy config).toNat * 1024 / min (seed.selections.toNat + 1) (2 ^ 64 - 1) := by
  have henergy := (seed.energy config).toNat_lt
  have h1024 : (1024 : UInt64).toNat = 1024 := rfl
  have hone : (1 : UInt64).toNat = 1 := rfl
  have hproduct : min ((seed.energy config).toNat * 1024) (2 ^ 64 - 1) =
      (seed.energy config).toNat * 1024 := by
    omega
  rw [SeedEntry.priorityScore, UInt64.toNat_div, toNat_saturatingMul64, toNat_saturatingAdd64,
    UInt32.toNat_toUInt64, h1024, hone, hproduct]

theorem le_priorityScore_of_unselected (h : seed.selections = 0) :
    1024 ≤ (seed.priorityScore config).toNat := by
  have henergy := one_le_energy seed config
  rw [toNat_priorityScore, h]
  show 1024 ≤ (seed.energy config).toNat * 1024 / 1
  omega

/-- A seed selected as often as the energy can be large has a score below that of every seed that
was never selected: its quotient is below 1024 before it is rounded down. -/
theorem priorityScore_lt (h : config.energyCap ≤ seed.selections.toNat) :
    (seed.priorityScore config).toNat < 1024 := by
  have henergy := energy_le seed config
  have hcap := energyCap_lt config
  rw [toNat_priorityScore]
  refine Nat.div_lt_of_lt_mul ?_
  omega

end Score

/-! ### What the operations do -/

namespace PowerScheduler

variable (s : PowerScheduler)

/-- What the scan has found in the seeds it has passed. -/
def Scanned (config : PowerScheduleConfig) (done : List SeedEntry) : Option Best → Prop
  | none => done = []
  | some best => ∃ l seed r, done = l ++ seed :: r ∧ l.length = best.index ∧
      seed.priorityScore config = best.score ∧
      ∀ other ∈ done, other.priorityScore config ≤ best.score

theorem scanned_scanSeed {config : PowerScheduleConfig} {done : List SeedEntry}
    {best : Option Best} (h : Scanned config done best) (seed : SeedEntry) :
    Scanned config (done ++ [seed]) (scanSeed config best (seed, done.length)) := by
  cases best with
  | none =>
    obtain rfl : done = [] := h
    exact ⟨[], seed, [], rfl, rfl, rfl, by simp⟩
  | some best =>
    obtain ⟨l, kept, r, rfl, hl, hscore, hmax⟩ := h
    dsimp only [scanSeed]
    split
    · next hbetter =>
      have hle : best.score ≤ seed.priorityScore config := by
        obtain hlt | ⟨heq, -⟩ := hbetter
        · exact UInt64.le_of_lt hlt
        · exact heq ▸ UInt64.le_refl _
      exact ⟨l ++ kept :: r, seed, [], rfl, rfl, rfl, forall_mem_append.2
        ⟨fun other h ↦ UInt64.le_trans (hmax other h) hle,
          forall_mem_singleton.2 (UInt64.le_refl _)⟩⟩
    · next hworse =>
      refine ⟨l, kept, r ++ [seed], by simp, hl, hscore,
        forall_mem_append.2 ⟨hmax, forall_mem_singleton.2 ?_⟩⟩
      exact UInt64.not_lt.1 fun hlt ↦ hworse (.inl hlt)

theorem scanned_foldl (config : PowerScheduleConfig) (seeds : List SeedEntry) :
    Scanned config seeds (seeds.zipIdx.foldl (scanSeed config) none) := by
  induction seeds using reverseRecOn with
  | nil => rfl
  | append_singleton seeds seed ih =>
    rw [zipIdx_append]
    simpa using scanned_scanSeed ih seed

theorem modify_append_cons {α : Type} (f : α → α) (l : List α) (a : α) (r : List α) :
    (l ++ a :: r).modify l.length f = l ++ f a :: r := by
  induction l with
  | nil => simp
  | cons b l ih => simp [ih]

/-- **Everything a selection can do**: nothing on an empty queue, otherwise it counts one selection
for a seed whose score no other seed exceeds. -/
theorem selectNext_cases :
    (s.seeds = [] ∧ s.selectNext = (none, s)) ∨
    ∃ l seed r, s.seeds = l ++ seed :: r ∧
      (∀ other ∈ s.seeds, other.priorityScore s.config ≤ seed.priorityScore s.config) ∧
      s.selectNext =
        (some ⟨seed.id, seed.bytes, seed.energy s.config, seed.priorityScore s.config⟩,
          { s with
            seeds := l ++
              { seed with selections := saturatingAdd64 seed.selections 1 } :: r }) := by
  have hscan := scanned_foldl s.config s.seeds
  rw [selectNext, bestSeedIndex]
  cases hbest : s.seeds.zipIdx.foldl (scanSeed s.config) none with
  | none =>
    rw [hbest] at hscan
    exact .inl ⟨hscan, rfl⟩
  | some best =>
    rw [hbest] at hscan
    obtain ⟨l, seed, r, hseeds, hl, hscore, hmax⟩ := hscan
    refine .inr ⟨l, seed, r, hseeds, ?_, ?_⟩
    · rw [hscore]
      exact hmax
    · simp [hseeds, ← hl, modify_append_cons]

theorem map_modify_of_eq {α β : Type} (f : α → β) (g : α → α) (h : ∀ a, f (g a) = f a) :
    ∀ (l : List α) (i : ℕ), (l.modify i g).map f = l.map f := by
  intro l
  induction l with
  | nil => simp
  | cons a l ih =>
    intro i
    cases i with
    | zero => simp [h]
    | succ i => simp [ih]

/-! ### Runs -/

inductive Op where
  | insert (bytes : Bytes)
  | insertWithFeedback (bytes : Bytes) (feedback : ScheduleFeedback)
  | recordFeedback (id : SeedId) (feedback : ScheduleFeedback)
  | selectNext

def step (s : PowerScheduler) : Op → PowerScheduler
  | .insert bytes => (s.insert bytes).2
  | .insertWithFeedback bytes feedback => (s.insertWithFeedback bytes feedback).2
  | .recordFeedback id feedback => (s.recordFeedback id feedback).2
  | .selectNext => s.selectNext.2

/-- The seed an operation hands out. -/
def handsOut (s : PowerScheduler) : Op → Option SeedId
  | .selectNext => s.selectNext.1.map (·.id)
  | _ => none

def run : PowerScheduler → List Op → PowerScheduler
  | s, [] => s
  | s, op :: ops => run (s.step op) ops

/-- The seeds handed out by a run, in order. -/
def handedOut : PowerScheduler → List Op → List SeedId
  | _, [] => []
  | s, op :: ops => (s.handsOut op).toList ++ handedOut (s.step op) ops

def Op.isInsert : Op → Bool
  | .insert _ => true
  | .insertWithFeedback _ _ => true
  | _ => false

def Op.isSelect : Op → Bool
  | .selectNext => true
  | _ => false

/-- The ids and selection counts, all that a step is judged by below. -/
def counts : List (SeedId × UInt64) :=
  s.seeds.map fun seed ↦ (seed.id, seed.selections)

/-- **Everything a step can do** to ids and selection counts. -/
theorem step_cases (op : Op) :
    (op.isInsert ∧ op.isSelect = false ∧ s.handsOut op = none ∧
      (s.step op).config = s.config ∧
      (s.step op).nextId = saturatingAdd64 s.nextId 1 ∧
      (s.step op).counts = s.counts ++ [(⟨s.nextId⟩, 0)]) ∨
    (op.isInsert = false ∧ s.handsOut op = none ∧ (op.isSelect → s.seeds = []) ∧
      (s.step op).config = s.config ∧ (s.step op).nextId = s.nextId ∧
      (s.step op).counts = s.counts) ∨
    (op.isInsert = false ∧ op.isSelect ∧ ∃ l seed r, s.seeds = l ++ seed :: r ∧
      (∀ other ∈ s.seeds, other.priorityScore s.config ≤ seed.priorityScore s.config) ∧
      s.handsOut op = some seed.id ∧
      (s.step op).config = s.config ∧ (s.step op).nextId = s.nextId ∧
      (s.step op).seeds =
        l ++ { seed with selections := saturatingAdd64 seed.selections 1 } :: r) := by
  cases op with
  | insert bytes | insertWithFeedback bytes feedback =>
    exact .inl ⟨rfl, rfl, rfl, rfl, rfl, map_append ..⟩
  | recordFeedback id feedback =>
    refine .inr (.inl ⟨rfl, rfl, by simp [Op.isSelect], ?_⟩)
    rw [step, recordFeedback]
    split
    · exact ⟨rfl, rfl, rfl⟩
    · refine ⟨rfl, rfl, ?_⟩
      apply map_modify_of_eq
      exact fun _ ↦ rfl
  | selectNext =>
    obtain ⟨hempty, hselect⟩ | ⟨l, seed, r, hseeds, hmax, hselect⟩ := s.selectNext_cases
    · refine .inr (.inl ⟨rfl, ?_, fun _ ↦ hempty, ?_⟩)
      · rw [handsOut, hselect]
        rfl
      · rw [step, hselect]
        exact ⟨rfl, rfl, rfl⟩
    · refine .inr (.inr ⟨rfl, rfl, l, seed, r, hseeds, hmax, ?_, ?_⟩)
      · rw [handsOut, hselect]
        rfl
      · rw [step, hselect]
        exact ⟨rfl, rfl, rfl⟩

/-! ### Ids -/

/-- The ids count the insertions. -/
def Numbered : Prop :=
  s.counts.map (·.1.raw.toNat) = List.range s.nextId.toNat

variable {s}

theorem Numbered.nodup (h : s.Numbered) : (s.seeds.map (·.id)).Nodup := by
  have hrange : (s.seeds.map fun seed ↦ seed.id.raw.toNat).Nodup := by
    have heq : s.seeds.map (fun seed ↦ seed.id.raw.toNat) = range s.nextId.toNat := by
      rw [← h, counts, map_map]
      rfl
    rw [heq]
    exact nodup_range
  rw [show (fun seed : SeedEntry ↦ seed.id.raw.toNat) = (·.raw.toNat) ∘ SeedEntry.id from rfl,
    ← map_map] at hrange
  exact List.Nodup.of_map _ hrange

theorem Numbered.step (h : s.Numbered) (hid : s.nextId.toNat < 2 ^ 64 - 1) (op : Op) :
    (s.step op).Numbered ∧
      (s.step op).nextId.toNat = s.nextId.toNat + if op.isInsert then 1 else 0 := by
  obtain ⟨hop, -, -, -, hnext, hcounts⟩ | ⟨hop, -, -, -, hnext, hcounts⟩ |
    ⟨hop, -, l, seed, r, hseeds, -, -, -, hnext, hseeds'⟩ := s.step_cases op
  · have hone : (1 : UInt64).toNat = 1 := rfl
    have hnat : (s.step op).nextId.toNat = s.nextId.toNat + 1 := by
      rw [hnext, toNat_saturatingAdd64]
      omega
    refine ⟨?_, by rw [hnat, if_pos hop]⟩
    rw [Numbered, hcounts, hnat, map_append, h, range_succ]
    rfl
  · rw [hop, Numbered, hnext, hcounts]
    exact ⟨h, rfl⟩
  · rw [hop, Numbered, hnext, ← h, counts, counts, hseeds, hseeds']
    exact ⟨by simp, rfl⟩

theorem Numbered.run (ops : List Op) :
    ∀ {s : PowerScheduler}, s.Numbered → s.nextId.toNat + ops.countP Op.isInsert < 2 ^ 64 - 1 →
      (s.run ops).Numbered := by
  induction ops with
  | nil => exact fun h _ ↦ h
  | cons op ops ih =>
    intro s h hinserts
    rw [countP_cons] at hinserts
    obtain ⟨hstep, hnext⟩ := h.step (by omega) op
    exact ih hstep (by omega)

/-! ### Waiting seeds -/

/-- Some seed was never selected. -/
def Waiting (s : PowerScheduler) : Prop :=
  ∃ seed ∈ s.seeds, seed.selections = 0

/-- While a seed waits, the best score belongs to a seed that has turns left. -/
theorem Waiting.selections_lt (h : s.Waiting) {seed : SeedEntry}
    (hmax : ∀ other ∈ s.seeds, other.priorityScore s.config ≤ seed.priorityScore s.config) :
    seed.selections.toNat < s.config.energyCap := by
  obtain ⟨waiting, hmem, hzero⟩ := h
  have hle := UInt64.le_iff_toNat_le.1 (hmax waiting hmem)
  have hge := le_priorityScore_of_unselected waiting s.config hzero
  by_contra hcap
  have hlt := priorityScore_lt seed s.config (Nat.le_of_not_lt hcap)
  omega

/-- The turns that were used up, of the `energyCap` many that each seed has. -/
def spent (s : PowerScheduler) : ℕ :=
  (s.counts.map fun count ↦ min count.2.toNat s.config.energyCap).sum

theorem spent_le (s : PowerScheduler) : s.spent ≤ s.seeds.length * s.config.energyCap := by
  have hturns : ∀ turns ∈ s.counts.map fun count ↦ min count.2.toNat s.config.energyCap,
      turns ≤ s.config.energyCap := by
    intro turns hmem
    obtain ⟨count, -, rfl⟩ := mem_map.1 hmem
    exact min_le_right _ _
  have hsum : s.spent ≤ (s.counts.map _).length * s.config.energyCap :=
    sum_le_card_nsmul _ _ hturns
  rwa [length_map, counts, length_map] at hsum

theorem step_config (s : PowerScheduler) (op : Op) : (s.step op).config = s.config := by
  obtain h | h | ⟨-, -, -, -, -, -, -, -, h, -⟩ := s.step_cases op
  · exact h.2.2.2.1
  · exact h.2.2.2.1
  · exact h

variable {op : Op} {id : SeedId}

/-- **A selection made while a seed waits uses up one turn**, and the other operations that insert
nothing use up none. -/
theorem Waiting.spent_step (h : s.Waiting) (hop : op.isInsert = false) :
    (s.step op).spent = s.spent + if op.isSelect then 1 else 0 := by
  rw [spent, spent, step_config]
  obtain ⟨hinsert, -⟩ | ⟨-, -, hempty, -, -, hcounts⟩ |
    ⟨-, hselect, l, seed, r, hseeds, hmax, -, -, -, hseeds'⟩ := s.step_cases op
  · rw [hop] at hinsert
    contradiction
  · have hselect : op.isSelect = false := by
      obtain ⟨seed, hmem, -⟩ := h
      rw [Bool.eq_false_iff]
      intro hselect
      rw [hempty hselect] at hmem
      exact not_mem_nil hmem
    rw [hcounts, hselect]
    rfl
  · have hlt := h.selections_lt hmax
    have hcap := energyCap_lt s.config
    have hone : (1 : UInt64).toNat = 1 := rfl
    have hturn : min (saturatingAdd64 seed.selections 1).toNat s.config.energyCap =
        min seed.selections.toNat s.config.energyCap + 1 := by
      rw [toNat_saturatingAdd64]
      omega
    rw [counts, counts, hseeds, hseeds', hselect, if_pos rfl]
    simp only [map_append, map_cons, sum_append, sum_cons]
    omega

/-- The seed with this id was never selected. -/
def WaitsFor (s : PowerScheduler) (id : SeedId) : Prop :=
  (id, (0 : UInt64)) ∈ s.counts

theorem WaitsFor.waiting (h : s.WaitsFor id) : s.Waiting := by
  obtain ⟨seed, hmem, heq⟩ := mem_map.1 h
  exact ⟨seed, hmem, (Prod.ext_iff.1 heq).2⟩

theorem WaitsFor.step (h : s.WaitsFor id)
    (hout : s.handsOut op ≠ some id) : (s.step op).WaitsFor id := by
  obtain ⟨-, -, -, -, -, hcounts⟩ | ⟨-, -, -, -, -, hcounts⟩ |
    ⟨-, -, l, seed, r, hseeds, -, hout', -, -, hseeds'⟩ := s.step_cases op
  · rw [WaitsFor, hcounts]
    exact mem_append_left _ h
  · rw [WaitsFor, hcounts]
    exact h
  · have hne : id ≠ seed.id := fun heq ↦ hout (heq ▸ hout')
    rw [WaitsFor, counts, hseeds, map_append, map_cons, mem_append, mem_cons] at h
    rw [WaitsFor, counts, hseeds', map_append, map_cons, mem_append, mem_cons]
    obtain h | h | h := h
    · exact .inl h
    · exact absurd (Prod.ext_iff.1 h).1 hne
    · exact .inr (.inr h)

theorem length_seeds_step (s : PowerScheduler) (hop : op.isInsert = false) :
    (s.step op).seeds.length = s.seeds.length := by
  obtain ⟨hinsert, -⟩ | ⟨-, -, -, -, -, hcounts⟩ |
    ⟨-, -, l, seed, r, hseeds, -, -, -, -, hseeds'⟩ := s.step_cases op
  · rw [hop] at hinsert
    contradiction
  · simpa [counts] using congrArg length hcounts
  · rw [hseeds, hseeds']
    simp

/-- **A seed that is passed over has seen every selection use up a turn.** -/
theorem WaitsFor.spent_run (ops : List Op) :
    ∀ {s : PowerScheduler}, s.WaitsFor id → ops.countP Op.isInsert = 0 →
      id ∉ s.handedOut ops →
      s.spent + ops.countP Op.isSelect ≤ s.seeds.length * s.config.energyCap := by
  induction ops with
  | nil => exact fun {s} _ _ _ ↦ s.spent_le
  | cons op ops ih =>
    intro s h hinserts hout
    rw [countP_cons] at hinserts
    have hop : op.isInsert = false := by
      rw [Bool.eq_false_iff]
      intro hop
      rw [hop, if_pos rfl] at hinserts
      omega
    rw [handedOut, mem_append, not_or] at hout
    have hstep := h.step fun heq ↦ hout.1 (heq ▸ mem_singleton_self id)
    have hrun := ih hstep (by omega) hout.2
    rw [h.waiting.spent_step hop, s.length_seeds_step hop, s.step_config op] at hrun
    rw [countP_cons]
    omega

theorem run_config (ops : List Op) : ∀ s : PowerScheduler, (s.run ops).config = s.config := by
  induction ops with
  | nil => exact fun _ ↦ rfl
  | cons op ops ih => exact fun s ↦ (ih _).trans (s.step_config op)

/-- **A seed that was never selected is not overtaken for long.** After any operations with fewer
than `2 ^ 64 - 1` insertions the ids are distinct; while a seed waits, no seed that has used up its
turns is handed out; and without further insertions every waiting seed is handed out within
`n * M + 1` selections, whatever feedback comes in between. -/
theorem never_selected_not_overtaken (config : PowerScheduleConfig) (ops : List Op)
    (hinserts : ops.countP Op.isInsert < 2 ^ 64 - 1) :
    (((new config).run ops).seeds.map (·.id)).Nodup ∧
    ((∃ seed ∈ ((new config).run ops).seeds, seed.selections = 0) →
      ∀ selected, ((new config).run ops).selectNext.1 = some selected →
        ∀ seed ∈ ((new config).run ops).seeds, seed.id = selected.id →
          seed.selections.toNat < max config.maxEnergy.toNat 1) ∧
    (∀ further : List Op, further.countP Op.isInsert = 0 →
      ((new config).run ops).seeds.length * max config.maxEnergy.toNat 1 + 1 ≤
        further.countP Op.isSelect →
      ∀ seed ∈ ((new config).run ops).seeds, seed.selections = 0 →
        seed.id ∈ ((new config).run ops).handedOut further) := by
  have hnodup : (((new config).run ops).seeds.map (·.id)).Nodup := by
    refine (Numbered.run ops (s := new config) rfl ?_).nodup
    rw [show (new config).nextId.toNat = 0 from rfl]
    omega
  have hcap : max config.maxEnergy.toNat 1 = ((new config).run ops).config.energyCap := by
    rw [run_config]
    rfl
  generalize (new config).run ops = s at hnodup hcap ⊢
  rw [hcap]
  refine ⟨hnodup, fun hwaiting selected hselected seed hmem hid ↦ ?_,
    fun further hfurther hselects seed hmem hzero ↦ ?_⟩
  · obtain ⟨-, hnone⟩ | ⟨l, best, r, hseeds, hmax, hsome⟩ := s.selectNext_cases
    · rw [hnone] at hselected
      contradiction
    · rw [hsome] at hselected
      obtain ⟨⟩ := hselected
      have hbest : best ∈ s.seeds := by
        rw [hseeds]
        simp
      rw [inj_on_of_nodup_map hnodup hmem hbest hid]
      exact Waiting.selections_lt hwaiting hmax
  · by_contra hout
    have hwaits : s.WaitsFor seed.id := by
      refine mem_map.2 ⟨seed, hmem, ?_⟩
      rw [hzero]
    have hspent := hwaits.spent_run further hfurther hout
    omega

/-- Two seeds of energy one: the second has its turn within three selections. -/
theorem second_seed_handed_out :
    (⟨1⟩ : SeedId) ∈ ((new { maxEnergy := 1 }).run [.insert [0], .insert [1]]).handedOut
        [.selectNext, .recordFeedback ⟨0⟩ ⟨7, 0⟩, .selectNext, .selectNext] :=
  (never_selected_not_overtaken { maxEnergy := 1 } [.insert [0], .insert [1]] (by decide)).2.2
    [.selectNext, .recordFeedback ⟨0⟩ ⟨7, 0⟩, .selectNext, .selectNext] (by decide)
    (by decide +kernel) ⟨⟨1⟩, [1], {}, 0⟩ (by decide +kernel) rfl

end PowerScheduler

end Bhf.FuzzEngine
