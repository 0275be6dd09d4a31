import Bhf.ContinuousDaemon.Jobs
import Mathlib.Order.Lattice.Nat

/-!
# When the results of a project are rebuilt

The jobs that finish between two records of a project are counted in an open bracket. `takeDue`
takes the brackets that are due, carries running jobs over into a fresh one, and forgets projects
that have rested. Over any history whose times do not decrease and in which no job finishes that has
not started, every finished job is recorded once, and two records of a project keep their distance,
**although the first may be forgotten in between**: a project is forgotten only when the interval
has passed, and the next bracket is opened later than that (`Tracks.rested`).

A map of projects is the function that gives each directory its project, and the default one to a
directory that is not in the map. A hash map lists its entries in no particular order, so the
brackets that are taken are given by directory.
-/

namespace Bhf.ContinuousDaemon.ResultsRefresh

open List

/-- In nanoseconds. -/
@[irreducible]
def rebuildInterval : ℕ := 60 * 10 ^ 9

@[irreducible]
def busyRebuildInterval : ℕ := 300 * 10 ^ 9

inductive JobOutcome
  | finished (state : JobState)
  | interrupted

structure Pending where
  opened : ℕ
  finished : ℕ := 0
  failed : Bool := false
  interrupted : Bool := false

def Pending.jobFinished (outcome : JobOutcome) (pending : Pending) : Pending :=
  let pending := { pending with finished := pending.finished + 1 }
  match outcome with
  | .finished .complete => pending
  | .finished _ => { pending with failed := true }
  | .interrupted => { pending with interrupted := true }

structure Project where
  running : ℕ := 0
  pending : Option Pending := none
  lastRebuild : Option ℕ := none

/-- What the loop of `takeDue` makes of one project. -/
structure Visit where
  taken : Option Pending := none
  next : WithTop ℕ := ⊤
  project : Project

namespace Project

def jobStarted (now : ℕ) (entry : Project) : Project :=
  { entry with
    running := entry.running + 1
    pending := some (entry.pending.getD { opened := now }) }

def jobFinished (outcome : JobOutcome) (entry : Project) : Project :=
  { entry with
    running := entry.running - 1
    pending := entry.pending.map (·.jobFinished outcome) }

def busy (project : Project) (queued : Bool) : Bool :=
  0 < project.running || queued

variable (clockEnd now : ℕ) (queued : Bool) (project : Project)

/-- `Instant::checked_add` on a clock that ends at `clockEnd`. -/
def checkedAdd (instant interval : ℕ) : Option ℕ :=
  if instant + interval ≤ clockEnd then some (instant + interval) else none

def dueAt (pending : Pending) : Option ℕ :=
  if project.busy queued then
    checkedAdd clockEnd (project.lastRebuild.getD pending.opened) busyRebuildInterval
  else
    match project.lastRebuild with
    | none => some now
    | some rebuilt => checkedAdd clockEnd rebuilt rebuildInterval

/-- The bracket of a project, if it has finished jobs, and when it is due. -/
def outstanding : Option (Pending × ℕ) :=
  match project.pending with
  | none => none
  | some pending =>
    if pending.finished = 0 then none
    -- an interval past the end of the clock never comes due
    else (dueAt clockEnd now queued project pending).map (pending, ·)

/-- A project whose bracket was taken. -/
def rebuilt : Project :=
  { project with
    pending := if 0 < project.running then some { opened := now } else none
    lastRebuild := some now }

def visit : Visit :=
  match outstanding clockEnd now queued project with
  | none => { project }
  | some (pending, dueAt) =>
    if now < dueAt then { next := dueAt, project }
    else { taken := some pending, project := rebuilt now project }

def idleRested : Bool :=
  match project.lastRebuild with
  | none => true
  | some rebuilt => rebuildInterval ≤ now - rebuilt

def retained : Bool :=
  0 < project.running || project.pending.isSome || !idleRested now project

/-- What the map holds for the project when `takeDue` is over. -/
def rest : Project :=
  if retained now project then project else {}

variable {clockEnd now queued project} {pending : Pending} {instant : ℕ}

theorem outstanding_eq_some :
    outstanding clockEnd now queued project = some (pending, instant) ↔
      project.pending = some pending ∧ pending.finished ≠ 0 ∧
        dueAt clockEnd now queued project pending = some instant := by
  unfold outstanding
  cases project.pending with
  | none => simp
  | some pending' =>
    simp only [Option.some.injEq]
    split <;> simp <;> grind

/-- A bracket that is not due now falls due at the same time whenever one looks. -/
theorem outstanding_congr
    (h : ∀ pending, outstanding clockEnd now queued project ≠ some (pending, now)) (t : ℕ) :
    outstanding clockEnd t queued project = outstanding clockEnd now queued project := by
  unfold outstanding dueAt at h ⊢
  grind

end Project

structure Projects (Dir : Type) where
  dirs : Finset Dir
  get : Dir → Project
  absent : ∀ dir ∉ dirs, get dir = {}

structure Due (Dir : Type) where
  brackets : Dir → Option Pending
  next : WithTop ℕ

variable {Dir : Type} [DecidableEq Dir]

namespace Projects

variable (self : Projects Dir)

def modify (dir : Dir) (f : Project → Project) : Projects Dir where
  dirs := insert dir self.dirs
  get := Function.update self.get dir (f (self.get dir))
  absent dir' h := by
    rw [Finset.mem_insert, not_or] at h
    rw [Function.update_of_ne h.1, self.absent dir' h.2]

def jobStarted (dir : Dir) (now : ℕ) : Projects Dir :=
  self.modify dir (·.jobStarted now)

def jobFinished (dir : Dir) (outcome : JobOutcome) : Projects Dir :=
  if dir ∈ self.dirs then self.modify dir (·.jobFinished outcome) else self

def takeDue (clockEnd now : ℕ) (queued : Finset Dir) : Due Dir × Projects Dir :=
  let visit dir := (self.get dir).visit clockEnd now (dir ∈ queued)
  (⟨fun dir ↦ (visit dir).taken, self.dirs.inf fun dir ↦ (visit dir).next⟩,
    { dirs := self.dirs.filter fun dir ↦ (visit dir).project.retained now
      get := fun dir ↦ (visit dir).project.rest now
      absent := fun dir h ↦ by
        rw [Project.rest]
        split
        · next hkept =>
          have hdir : dir ∉ self.dirs := fun hdir ↦ h (Finset.mem_filter.2 ⟨hdir, hkept⟩)
          simp only [visit, self.absent dir hdir]
          rfl
        · rfl })

/-- The brackets with finished jobs, whatever the time. The map is drained. -/
def takeAll (dir : Dir) : Option Pending :=
  (self.get dir).pending.filter (0 < ·.finished)

theorem get_jobFinished (dir : Dir) (outcome : JobOutcome) :
    (self.jobFinished dir outcome).get =
      Function.update self.get dir ((self.get dir).jobFinished outcome) := by
  rw [jobFinished]
  split
  · rfl
  · next habsent =>
    rw [self.absent dir habsent]
    exact (Function.update_eq_self_iff.2 (self.absent dir habsent).symm).symm

end Projects

/-! ### Histories -/

inductive Op (Dir : Type)
  | jobStarted (dir : Dir) (now : ℕ)
  | jobFinished (dir : Dir) (outcome : JobOutcome)
  | takeDue (now : ℕ) (queued : Finset Dir)

/-- A bracket that was taken, at which time, and whether its project was busy then. -/
structure Record where
  now : ℕ
  busy : Bool
  pending : Pending

/-- The two distances. -/
def Spaced (a b : Record) : Prop :=
  a.now + rebuildInterval ≤ b.now ∧ (b.busy → a.now + busyRebuildInterval ≤ b.now)

structure Session (Dir : Type) where
  projects : Projects Dir
  records : Dir → List Record

variable (clockEnd : ℕ)

def Session.step (s : Session Dir) : Op Dir → Session Dir
  | .jobStarted dir now => { s with projects := s.projects.jobStarted dir now }
  | .jobFinished dir outcome => { s with projects := s.projects.jobFinished dir outcome }
  | .takeDue now queued =>
    let (due, projects) := s.projects.takeDue clockEnd now queued
    ⟨projects, fun dir ↦ s.records dir ++ ((due.brackets dir).map
      (⟨now, (s.projects.get dir).busy (dir ∈ queued), ·⟩)).toList⟩

def run (ops : List (Op Dir)) : Session Dir :=
  ops.foldl (Session.step clockEnd) ⟨⟨∅, fun _ ↦ {}, fun _ _ ↦ rfl⟩, fun _ ↦ []⟩

def Op.time : Op Dir → Option ℕ
  | .jobStarted _ now | .takeDue now _ => some now
  | .jobFinished .. => none

def started (dir : Dir) (ops : List (Op Dir)) : ℕ :=
  ops.countP fun | .jobStarted dir' _ => dir' = dir | _ => false

def finished (dir : Dir) (ops : List (Op Dir)) : ℕ :=
  ops.countP fun | .jobFinished dir' _ => dir' = dir | _ => false

/-- A history that can happen. -/
structure Legal (ops : List (Op Dir)) : Prop where
  /-- Time does not run backwards. -/
  times : (ops.filterMap Op.time).Pairwise (· ≤ ·)
  /-- No job finishes that has not started. -/
  fair : ∀ dir, ∀ past, past <+: ops → finished dir past ≤ started dir past

/-- What a project and its records say about the history. -/
structure Tracks (dir : Dir) (ops : List (Op Dir)) (project : Project) (records : List Record) :
    Prop where
  running : project.running + finished dir ops = started dir ops
  bracketed : 0 < project.running → project.pending.isSome
  recorded : (records.map (·.pending.finished)).sum + (project.pending.map (·.finished)).getD 0 =
    finished dir ops
  spaced : records.Pairwise Spaced
  before : ∀ rebuilt, project.lastRebuild = some rebuilt → ∀ r ∈ records, r.now ≤ rebuilt
  rested : project.lastRebuild = none → ∀ r ∈ records,
    (∃ t ∈ ops.filterMap Op.time, r.now + rebuildInterval ≤ t) ∧
      ∀ pending, project.pending = some pending → r.now + rebuildInterval ≤ pending.opened

namespace Tracks

variable {dir : Dir} {ops : List (Op Dir)} {project : Project} {records : List Record} {op : Op Dir}
  {now : ℕ} (h : Tracks dir ops project records)

include h

/-- An operation that is not about the project. -/
theorem other (hstarted : started dir (ops ++ [op]) = started dir ops)
    (hfinished : finished dir (ops ++ [op]) = finished dir ops) :
    Tracks dir (ops ++ [op]) project records :=
  { h with
    running := by rw [hstarted, hfinished, h.running]
    recorded := by rw [hfinished, h.recorded]
    rested := fun hnone r hr ↦ by
      obtain ⟨⟨t, ht, hle⟩, hopened⟩ := h.rested hnone r hr
      exact ⟨⟨t, filterMap_append ▸ mem_append_left _ ht, hle⟩, hopened⟩ }

theorem jobStarted (hnow : ∀ t ∈ ops.filterMap Op.time, t ≤ now) :
    Tracks dir (ops ++ [.jobStarted dir now]) (project.jobStarted now) records where
  running := by
    have := h.running
    simp [Project.jobStarted, started, finished] at this ⊢
    omega
  bracketed _ := rfl
  recorded := by
    have := h.recorded
    cases hpending : project.pending <;> simp_all [Project.jobStarted, finished]
  spaced := h.spaced
  before := h.before
  rested hnone r hr := by
    obtain ⟨⟨t, ht, hle⟩, hopened⟩ := h.rested hnone r hr
    refine ⟨⟨t, filterMap_append ▸ mem_append_left _ ht, hle⟩, ?_⟩
    rintro _ ⟨⟩
    cases hpending : project.pending with
    | none => exact hle.trans (hnow t ht)
    | some pending => exact hopened pending hpending

theorem jobFinished {outcome : JobOutcome} (hfair : finished dir ops < started dir ops) :
    Tracks dir (ops ++ [.jobFinished dir outcome]) (project.jobFinished outcome) records := by
  have hrunning := h.running
  have hrecorded := h.recorded
  obtain ⟨pending, hpending⟩ := Option.isSome_iff_exists.1 (h.bracketed (by omega))
  have hcount : finished dir (ops ++ [.jobFinished dir outcome]) = finished dir ops + 1 := by
    simp [finished]
  have hstarted : started dir (ops ++ [.jobFinished dir outcome]) = started dir ops := by
    simp [started]
  have hpending' : (project.jobFinished outcome).pending = some (pending.jobFinished outcome) := by
    rw [Project.jobFinished, hpending, Option.map_some]
  have hkept : (pending.jobFinished outcome).finished = pending.finished + 1 ∧
      (pending.jobFinished outcome).opened = pending.opened := by
    rcases outcome with (_ | _ | _ | _) | _ <;> exact ⟨rfl, rfl⟩
  rw [hpending, Option.map_some, Option.getD_some] at hrecorded
  refine ⟨?_, fun _ ↦ by rw [hpending']; rfl, ?_, h.spaced, h.before, fun hnone r hr ↦ ?_⟩
  · show project.running - 1 + _ = _
    omega
  · rw [hpending', Option.map_some, Option.getD_some]
    omega
  · obtain ⟨⟨t, ht, hle⟩, hopened⟩ := h.rested hnone r hr
    refine ⟨⟨t, filterMap_append ▸ mem_append_left _ ht, hle⟩, fun pending' h' ↦ ?_⟩
    obtain rfl := Option.some.inj (hpending'.symm.trans h')
    rw [hkept.2]
    exact hopened pending hpending

/-- A project is forgotten only after the interval. -/
theorem rest (hnow : now ∈ ops.filterMap Op.time) : Tracks dir ops (project.rest now) records := by
  rw [Project.rest]
  split
  · exact h
  · next hforgotten =>
    obtain ⟨⟨hrunning, hpending⟩, hrested⟩ : (project.running = 0 ∧ project.pending = none) ∧
        project.idleRested now := by
      simpa [Project.retained] using hforgotten
    have hcount := h.running
    have hrecorded := h.recorded
    rw [hrunning] at hcount
    rw [hpending] at hrecorded
    refine ⟨hcount, fun hpos ↦ absurd hpos (lt_irrefl 0), hrecorded, h.spaced, fun _ ↦ by simp,
      fun _ r hr ↦ ⟨?_, fun _ ↦ by simp⟩⟩
    rw [Project.idleRested] at hrested
    split at hrested
    · next hnone => exact (h.rested hnone r hr).1
    · next rebuilt hrebuilt =>
      have := h.before rebuilt hrebuilt r hr
      have : rebuildInterval ≤ now - rebuilt := of_decide_eq_true hrested
      have : rebuildInterval ≠ 0 := by simp [rebuildInterval]
      exact ⟨now, hnow, by omega⟩

/-- A bracket that is due keeps its distance from the records. -/
theorem spaced_of_dueAt (hnow : ∀ t ∈ ops.filterMap Op.time, t ≤ now) {queued : Bool}
    {pending : Pending} (hpending : project.pending = some pending) {dueAt : ℕ}
    (hdue : project.dueAt clockEnd now queued pending = some dueAt) (hle : dueAt ≤ now) :
    ∀ r ∈ records, Spaced r ⟨now, project.busy queued, pending⟩ := by
  intro r hr
  have hlt : rebuildInterval < busyRebuildInterval := by
    simp [rebuildInterval, busyRebuildInterval]
  have hbefore := h.before
  have hrested := h.rested
  show r.now + rebuildInterval ≤ now ∧ (project.busy queued → r.now + busyRebuildInterval ≤ now)
  unfold Project.dueAt Project.checkedAdd at hdue
  generalize rebuildInterval = short, busyRebuildInterval = long at *
  -- the interval counts from the last rebuild, or from an opening later than the rest after it
  cases hlast : project.lastRebuild with
  | none =>
    obtain ⟨⟨t, ht, htr⟩, hopened⟩ := hrested hlast r hr
    have := hnow t ht
    have := hopened pending hpending
    grind
  | some rebuilt =>
    have := hbefore rebuilt hlast r hr
    grind

theorem takeDue (hnow : ∀ t ∈ ops.filterMap Op.time, t ≤ now) (queued : Finset Dir) :
    Tracks dir (ops ++ [.takeDue now queued])
      ((project.visit clockEnd now (dir ∈ queued)).project.rest now)
      (records ++ ((project.visit clockEnd now (dir ∈ queued)).taken.map
        (⟨now, project.busy (dir ∈ queued), ·⟩)).toList) := by
  have hother : Tracks dir (ops ++ [.takeDue now queued]) project records :=
    h.other (by simp [started]) (by simp [finished])
  refine Tracks.rest ?_ (by simp [Op.time])
  rw [Project.visit]
  split
  · simpa using hother
  next pending dueAt houtstanding =>
  split
  · simpa using hother
  · next hle =>
    obtain ⟨hpending, -, hdue⟩ := Project.outstanding_eq_some.1 houtstanding
    have hspaced := h.spaced_of_dueAt clockEnd hnow hpending hdue (Nat.not_lt.1 hle)
    have hrecorded := hother.recorded
    simp only [hpending, Option.map_some, Option.getD_some, Option.toList_some] at hrecorded ⊢
    refine ⟨hother.running, fun hpos ↦ ?_, ?_, ?_, ?_, fun hnone ↦ ?_⟩
    · simp_all [Project.rebuilt]
    · rw [Project.rebuilt]
      split <;> simp <;> omega
    · exact pairwise_append.2 ⟨h.spaced, pairwise_singleton _ _, fun r hr _ hlast ↦
        mem_singleton.1 hlast ▸ hspaced r hr⟩
    · rintro _ ⟨⟩ r hr
      rcases mem_append.1 hr with hr | hr
      · exact (Nat.le_add_right _ _).trans (hspaced r hr).1
      · rw [mem_singleton.1 hr]
    · simp [Project.rebuilt] at hnone

end Tracks

theorem Legal.tracks {ops : List (Op Dir)} (h : Legal ops) (dir : Dir) :
    Tracks dir ops ((run clockEnd ops).projects.get dir) ((run clockEnd ops).records dir) := by
  induction ops using reverseRecOn with
  | nil => exact ⟨rfl, by simp [run], rfl, .nil, by simp [run], by simp [run]⟩
  | append_singleton ops op ih =>
    obtain ⟨htimes, hfair⟩ := h
    rw [filterMap_append, pairwise_append] at htimes
    have ih := ih ⟨htimes.1, fun dir past hpast ↦ hfair dir past (hpast.trans (prefix_append _ _))⟩
    have hlast {now : ℕ} (hop : op.time = some now) : ∀ t ∈ ops.filterMap Op.time, t ≤ now :=
      fun t ht ↦ htimes.2.2 t ht now (by simp [hop])
    rw [run, foldl_append]
    cases op with
    | takeDue now queued => exact ih.takeDue clockEnd (hlast rfl) queued
    | jobStarted dir' now =>
      show Tracks _ _ (Function.update (run clockEnd ops).projects.get dir' _ dir) _
      obtain rfl | hne := eq_or_ne dir dir'
      · rw [Function.update_self]
        exact ih.jobStarted (hlast rfl)
      · rw [Function.update_of_ne hne]
        exact ih.other (by simp [started, hne.symm]) (by simp [finished])
    | jobFinished dir' outcome =>
      show Tracks _ _ (((run clockEnd ops).projects.jobFinished dir' outcome).get dir) _
      rw [Projects.get_jobFinished]
      obtain rfl | hne := eq_or_ne dir dir'
      · rw [Function.update_self]
        refine ih.jobFinished ?_
        have := hfair dir _ (prefix_refl _)
        simp [started, finished] at this ⊢
        omega
      · rw [Function.update_of_ne hne]
        exact ih.other (by simp [started]) (by simp [finished, hne.symm])

/-! ### When to look again -/

theorem taken_rest_iff (queued : Bool) (project : Project) (now t : ℕ) :
    (((project.visit clockEnd now queued).project.rest now).visit clockEnd t queued).taken.isSome ↔
      (project.visit clockEnd now queued).next ≤ t := by
  have hnever (p : Project) (h : p.outstanding clockEnd t queued = none) :
      ((p.rest now).visit clockEnd t queued).taken = none := by
    have hrest : (p.rest now).outstanding clockEnd t queued = none := by
      rw [Project.rest]
      split
      · exact h
      · rfl
    rw [Project.visit, hrest]
  rw [Project.visit.eq_def clockEnd now]
  split
  · next hnone =>
    have hagain := (Project.outstanding_congr (by simp [hnone]) t).trans hnone
    simp [hnever project hagain]
  next pending dueAt hsome =>
  obtain ⟨hpending, -, -⟩ := Project.outstanding_eq_some.1 hsome
  split
  · next hlt =>
    have hagain := (Project.outstanding_congr (by simp [hsome, hlt.ne']) t).trans hsome
    have hrest : project.rest now = project := by simp [Project.rest, Project.retained, hpending]
    rw [hrest, Project.visit, hagain]
    dsimp only
    split <;> simp_all
  · have hagain : (project.rebuilt now).outstanding clockEnd t queued = none := by
      rw [Project.outstanding, Project.rebuilt]
      split <;> grind
    simp [hnever _ hagain]

theorem next_le_iff (self : Projects Dir) (queued : Finset Dir) (now t : ℕ) :
    (∃ dir, (((self.takeDue clockEnd now queued).2.takeDue clockEnd t queued).1.brackets
      dir).isSome) ↔ (self.takeDue clockEnd now queued).1.next ≤ t := by
  have h (dir : Dir) := taken_rest_iff clockEnd (dir ∈ queued) (self.get dir) now t
  refine (exists_congr h).trans ((Finset.inf_le_iff (WithTop.coe_lt_top t)).trans ?_).symm
  refine exists_congr fun dir ↦ and_iff_right_of_imp fun hle ↦ ?_
  by_contra hdir
  simp only [self.absent dir hdir] at hle
  exact absurd hle (WithTop.not_top_le_coe t)

/-- What the refresh owes a project after a history. -/
structure Exact (s : Session Dir) (ops : List (Op Dir)) (dir : Dir) : Prop where
  /-- A running job has its bracket. -/
  bracketed : 0 < (s.projects.get dir).running → (s.projects.get dir).pending.isSome
  /-- Every finished job is in one bracket. -/
  recorded : ((s.records dir).map (·.pending.finished)).sum +
    ((s.projects.takeAll dir).map (·.finished)).getD 0 = finished dir ops
  /-- The records keep their distances. -/
  spaced : (s.records dir).Pairwise Spaced
  /-- The next time to look is the first at which a bracket that was left behind is taken. -/
  next : ∀ (queued : Finset Dir) (now t : ℕ),
    (∃ dir, (((s.projects.takeDue clockEnd now queued).2.takeDue clockEnd t queued).1.brackets
      dir).isSome) ↔ (s.projects.takeDue clockEnd now queued).1.next ≤ t

/-- **Results refresh.** Nothing is lost or recorded twice, and the spacing is kept. -/
theorem exact_of_legal (ops : List (Op Dir)) (h : Legal ops) (dir : Dir) :
    Exact clockEnd (run clockEnd ops) ops dir := by
  have htracks := h.tracks clockEnd dir
  refine ⟨htracks.bracketed, ?_, htracks.spaced, next_le_iff clockEnd _⟩
  rw [← htracks.recorded, Projects.takeAll]
  cases ((run clockEnd ops).projects.get dir).pending with
  | none => rfl
  | some pending => cases hcount : pending.finished <;> simp [Option.filter, hcount]

/-- Two jobs, of which one is running when the other is recorded. -/
theorem exact_of_legal_carried :
    let ops : List (Op Unit) := [.jobStarted () 0, .jobStarted () 5, .jobFinished () .interrupted,
      .takeDue (400 * 10 ^ 9) ∅]
    Legal ops ∧ Exact (10 ^ 15) (run (10 ^ 15) ops) ops () ∧
      ((run (10 ^ 15) ops).records ()).map (·.pending.finished) = [1] := by
  intro ops
  have hlegal : Legal ops := by
    refine ⟨by simp [ops, Op.time, filterMap_cons], fun dir past hpast ↦ ?_⟩
    have hall : ∀ past ∈ ops.inits, finished () past ≤ started () past := by decide
    exact hall past ((mem_inits _ _).2 hpast)
  exact ⟨hlegal, exact_of_legal _ ops hlegal (), by decide +kernel⟩

end Bhf.ContinuousDaemon.ResultsRefresh
