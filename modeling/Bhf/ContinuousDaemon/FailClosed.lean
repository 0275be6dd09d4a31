import Bhf.ContinuousDaemon.Invariant

/-!
# The scheduler fails closed

`FailClosed` says what a scheduler guarantees at every point of every run, whatever the file system
does and wherever the process crashes:

* a job is handed out after a snapshot in which it runs was written successfully, and once;
* a failed write is the last write, after it nothing is acknowledged or handed out, and the recorded
  fault is this one and stays;
* no id is issued twice, over all lifetimes;
* what is on disk recovers every acknowledged job (`Recovers`).

**A job is requeued unless a snapshot in which it ended was installed** (`settledIds`). That is less
than the jobs whose end was not reported as durable: a write may fail after it has installed its
snapshot, and the process may stop before the report. The scheduler does not write again in that
case, and the record of the end stays on disk.
-/

namespace Bhf.ContinuousDaemon

open List FuzzJob

variable {cfg : DaemonConfig} {clock : Clock} {w w' : World} {inner : InnerState}
  {disk : Option Bytes} {events : List Event} {jobs : List FuzzJob}

/-! ### What a restart recovers -/

/-- The ids of the jobs that ended in a snapshot that was installed. -/
def settledIds (events : List Event) : List (List Char) :=
  (events.filterMap Event.installs).flatMap fun jobs ↦
    (jobs.filter fun job ↦ ¬job.state.Unfinished).map FuzzJob.jobId

/-- The ids of the jobs whose end was reported as durable. -/
def durableIds (events : List Event) : List (List Char) :=
  events.filterMap fun
    | .finished jobId state true => if state.Unfinished then none else some jobId
    | _ => none

structure Recovers (events : List Event) (inner : InnerState) : Prop where
  /-- Every acknowledged job is there. -/
  present : ∀ jobId ∈ acknowledgedIds events, jobId ∈ inner.seen.map FuzzJob.jobId
  /-- Each job is there once. -/
  unique : (inner.seen.map FuzzJob.jobId).Nodup
  /-- Those that have not ended wait again. -/
  requeued : ((acknowledgedIds events).filter (· ∉ settledIds events)).Sublist
    (inner.queue.map FuzzJob.jobId)
  /-- None waits twice. -/
  once : (inner.queue.map FuzzJob.jobId).Nodup
  /-- Ids that were issued are not issued again. -/
  fresh : ∀ jobId ∈ issuedIds events, ∃ number < inner.nextId, jobNumber jobId = some number

theorem acknowledgedIds_sublist_issuedIds (events : List Event) :
    (acknowledgedIds events).Sublist (issuedIds events) := by
  induction events with
  | nil => exact List.Sublist.refl _
  | cons event events ih =>
    cases event with
    | acknowledged jobId => exact ih.cons_cons jobId
    | uncertain jobId => exact ih.cons jobId
    | _ => exact ih

/-- The jobs that are requeued are those that have not ended. -/
theorem map_jobId_filter_requeue (jobs : List FuzzJob) :
    ((jobs.map requeue).filter (·.state = .queued)).map jobId =
      (jobs.filter (·.state.Unfinished)).map jobId := by
  induction jobs with
  | nil => rfl
  | cons job jobs ih =>
    rw [map_cons, filter_cons, filter_cons]
    by_cases hstate : job.state.Unfinished
    · rw [if_pos (decide_eq_true ((requeue_state_eq_queued_iff job).mpr hstate)),
        if_pos (decide_eq_true hstate), map_cons, map_cons, ih, jobId_requeue]
    · rw [if_neg (by simpa using mt (requeue_state_eq_queued_iff job).mp hstate),
        if_neg (by simpa using hstate), ih]

theorem map_jobId_requeue (jobs : List FuzzJob) :
    (jobs.map requeue).map jobId = jobs.map jobId := by
  rw [map_map]
  exact map_congr_left fun job _ ↦ jobId_requeue job

/-- What is restored from the snapshot on disk are its jobs, requeued. -/
theorem Kept.seen_eq (h : Kept cfg disk events jobs)
    (hstart : startWithResourceLimits cfg clock disk = .ok inner) :
    inner.seen = jobs.map requeue := by
  obtain ⟨bytes, hbytes, rfl⟩ := h.bytes
  obtain ⟨nextId, hretained⟩ := h.retained
  rw [h.starts, restore] at hstart
  split at hstart
  · contradiction
  rw [splitOn_snapshotBytes hbytes] at hstart
  refine (seen_of_restoreLines (fun job hjob ↦ ?_) hstart).trans (nil_append _)
  obtain ⟨reserved, -, hreserved⟩ := (hretained.admissible job hjob).record
  obtain ⟨line, hline, -⟩ := length_encode_lt_reserved hreserved
  rw [hline]
  rfl

theorem Restored.nodup_queue (h : Restored cfg inner) : (inner.queue.map jobId).Nodup := by
  rw [h.queue_eq]
  exact h.retained.nodup_ids.sublist (filter_sublist.map _)

/-- Every issued id comes back, in the same order. -/
theorem Stored.issued_sublist (h : Stored cfg disk events)
    (hstart : startWithResourceLimits cfg clock disk = .ok inner) :
    (issuedIds events).Sublist (inner.seen.map jobId) := by
  cases hlast : lastInstalled events with
  | none =>
    rw [h.nothing hlast]
    exact nil_sublist _
  | some jobs =>
    have hkept := h.snapshot jobs hlast
    rw [hkept.seen_eq hstart, map_jobId_requeue]
    exact hkept.issued

theorem Stored.recovers (h : Stored cfg disk events)
    (hstart : startWithResourceLimits cfg clock disk = .ok inner) : Recovers events inner := by
  have hrestored := restored_of_start hstart
  have hids := h.issued_sublist hstart
  have hacknowledged := acknowledgedIds_sublist_issuedIds events
  refine ⟨fun jobId hmem ↦ (hacknowledged.trans hids).subset hmem, hrestored.retained.nodup_ids, ?_,
    hrestored.nodup_queue, fun jobId hmem ↦ ?_⟩
  · cases hlast : lastInstalled events with
    | none =>
      have hnil : acknowledgedIds events = [] :=
        sublist_nil.mp (h.nothing hlast ▸ hacknowledged)
      rw [hnil]
      exact nil_sublist _
    | some jobs =>
      have hkept := h.snapshot jobs hlast
      -- An acknowledged id that is not settled is that of a job that has not ended.
      have hpending : ((jobs.map FuzzJob.jobId).filter (· ∉ settledIds events)).Sublist
          ((jobs.filter (·.state.Unfinished)).map FuzzJob.jobId) := by
        rw [filter_map]
        refine List.Sublist.map _ ?_
        have heq : jobs.filter ((decide <| · ∉ settledIds events) ∘ FuzzJob.jobId) =
            (jobs.filter (·.state.Unfinished)).filter
              ((decide <| · ∉ settledIds events) ∘ FuzzJob.jobId) := by
          rw [filter_filter]
          refine filter_congr fun job hjob ↦ ?_
          by_cases hsettled : job.jobId ∈ settledIds events
          · simp [hsettled]
          · have hunfinished : job.state.Unfinished := by
              by_contra hended
              refine hsettled (mem_flatMap.mpr ⟨jobs, mem_of_getLast? hlast, ?_⟩)
              exact mem_map.mpr ⟨job, mem_filter.mpr ⟨hjob, decide_eq_true hended⟩, rfl⟩
            simp [hunfinished]
        rw [heq]
        exact filter_sublist
      rw [hrestored.queue_eq, hkept.seen_eq hstart, map_jobId_filter_requeue]
      exact ((hacknowledged.trans hkept.issued).filter _).trans hpending
  · obtain ⟨job, hjob, rfl⟩ := mem_map.mp (hids.subset hmem)
    exact hrestored.retained.numbered job hjob

/-! ### Along every run -/

/-- The invariant of a world. -/
structure Consistent (cfg : DaemonConfig) (w : World) : Prop where
  /-- Between runs the disk has what was promised. -/
  stopped : w.inner = none → w.log = [] ∧ Stored cfg w.disk w.past
  /-- A running scheduler keeps its invariant. -/
  live : ∀ inner, w.inner = some inner → Live cfg w.past ⟨inner, w.disk, w.log⟩

/-- No operation reports a write. -/
theorem installs_of_exec {op : Op} {store after : Store} {reported : List Event} {event : Event}
    (h : op.exec cfg store = (reported, after)) (hmem : event ∈ reported) :
    event.installs = none := by
  cases op with
  | submit clock projectDir harnessId timeBudget outcome =>
    obtain ⟨⟩ := h
    rw [submitReport.eq_def] at hmem
    split at hmem
    iterate 2 · exact mem_singleton.mp hmem ▸ rfl
    · exact absurd hmem not_mem_nil
  | claim outcome =>
    obtain ⟨⟩ := h
    obtain ⟨job, -, rfl⟩ := mem_map.mp hmem
    rfl
  | finish jobId result outcome =>
    obtain ⟨⟩ := h
    obtain rfl := mem_singleton.mp hmem
    rfl
  | requestShutdown =>
    obtain ⟨⟩ := h
    exact absurd hmem not_mem_nil

theorem live_of_start (hstored : Stored cfg disk events)
    (hstart : startWithResourceLimits cfg clock disk = .ok inner) :
    Live cfg events ⟨inner, disk, []⟩ := by
  have hrestored := restored_of_start hstart
  have hissued := hstored.issued_sublist hstart
  exact {
    starts := getsToRestore_of_start hstart
    stored := (append_nil events).symm ▸ hstored
    handed_nodup := nodup_nil
    handed_running := fun before jobId after heq ↦ by simp at heq
    sound := fun _ ↦ {
      retained := hrestored.retained
      reserved_eq := hrestored.reserved_eq
      issued := (append_nil events).symm ▸ hissued
      nodup := hrestored.nodup_queue
      mem_seen := by
        intro jobId hmem
        obtain ⟨job, hjob, rfl⟩ := mem_map.mp hmem
        have hseen : job ∈ inner.seen := by
          have hqueue : job ∈ inner.queue := hjob
          rw [hrestored.queue_eq] at hqueue
          exact mem_of_mem_filter hqueue
        exact mem_map_of_mem hseen
      calm := fun _ _ ↦ not_mem_nil }
    failed := fun fault hsome ↦ by
      exact absurd (hrestored.storageFault_eq.symm.trans hsome) (Option.some_ne_none fault).symm }

theorem consistent_step (h : Consistent cfg w) (hstep : Step cfg w w') : Consistent cfg w' := by
  cases hstep with
  | start hstopped hstart =>
    obtain ⟨hlog, hstored⟩ := h.stopped hstopped
    refine ⟨fun hnone ↦ absurd hnone (Option.some_ne_none _), fun inner heq ↦ ?_⟩
    obtain ⟨⟩ := heq
    show Live cfg w.past ⟨_, w.disk, w.log⟩
    rw [hlog]
    exact live_of_start hstored hstart
  | perform hinner henabled hexec =>
    refine ⟨fun hnone ↦ absurd hnone (Option.some_ne_none _), fun inner heq ↦ ?_⟩
    obtain ⟨⟩ := heq
    exact live_exec (h.live _ hinner) hexec
  | crash hinner henabled hexec =>
    refine ⟨fun _ ↦ ⟨rfl, ?_⟩, fun inner heq ↦ nomatch heq⟩
    have hstored := (live_exec (h.live _ hinner) hexec).stored
    rw [← append_assoc] at hstored
    exact hstored.of_append fun event hmem ↦ installs_of_exec hexec hmem

theorem consistent_of_reaches (h : Reaches cfg disk w) : Consistent cfg w := by
  induction h with
  | refl => exact ⟨fun _ ↦ ⟨rfl, stored_nil⟩, fun inner heq ↦ nomatch heq⟩
  | tail _ hstep ih => exact consistent_step ih hstep

/-! ### Fail-closed scheduling -/

structure FailClosed (cfg : DaemonConfig) (w : World) : Prop where
  /-- A job is stored as running before it is handed out. -/
  handed_running : HandedAfterRunning w.log
  /-- No job is handed out twice. -/
  handed_once : (handedIds w.log).Nodup
  /-- A write that failed is the last one, and nothing is acknowledged or handed out after it. -/
  silent : ∀ before jobs failure after, w.log = before ++ .persisted jobs (some failure) :: after →
    ∀ event ∈ after, event.Quiet
  /-- The fault that is recorded is the first failure. -/
  recorded : ∀ before jobs failure after inner,
    w.log = before ++ .persisted jobs (some failure) :: after → w.inner = some inner →
    ∃ phase jobId, inner.storageFault = some (.ofFailure phase jobId failure)
  /-- No operation changes the fault or the disk after it. -/
  latched : ∀ inner fault, w.inner = some inner → inner.storageFault = some fault →
    ∀ (op : Op) reported after, op.exec cfg ⟨inner, w.disk, w.log⟩ = (reported, after) →
      after.inner.storageFault = some fault ∧ after.disk = w.disk
  /-- No id is issued twice. -/
  issued_once : (issuedIds w.history).Nodup
  /-- A start on this disk recovers what was acknowledged. -/
  recovers : ∀ clock inner, startWithResourceLimits cfg clock w.disk = .ok inner →
    Recovers w.history inner

/-- The first failure is where the log says it is. -/
theorem Live.split_log {past : List Event} {store : Store} (h : Live cfg past store)
    {before after : List Event} {failure : PersistFailure}
    (hlog : store.log = before ++ .persisted jobs (some failure) :: after) :
    (∀ event ∈ after, event.Quiet) ∧
      ∃ phase jobId, store.inner.storageFault = some (.ofFailure phase jobId failure) := by
  cases hfault : store.inner.storageFault with
  | none =>
    refine absurd ?_ ((h.sound hfault).calm jobs failure)
    rw [hlog]
    simp
  | some fault =>
    obtain ⟨before', jobs', failure', phase, jobId, after', hlog', hbefore, hafter, rfl⟩ :=
      (h.failed fault hfault).last
    have hnotBefore : Event.persisted jobs (some failure) ∉ before' := hbefore jobs failure
    have hnotAfter : Event.persisted jobs (some failure) ∉ after' :=
      fun hmem ↦ hafter _ hmem
    obtain ⟨-, heq, rfl⟩ := (append_cons_inj_of_notMem hnotBefore hnotAfter).mp
      (hlog'.symm.trans hlog)
    obtain ⟨⟩ := heq
    exact ⟨hafter, phase, jobId, rfl⟩

theorem Stored.nodup_issuedIds (h : Stored cfg disk events) : (issuedIds events).Nodup := by
  cases hlast : lastInstalled events with
  | none =>
    rw [h.nothing hlast]
    exact nodup_nil
  | some jobs =>
    have hkept := h.snapshot jobs hlast
    obtain ⟨nextId, hretained⟩ := hkept.retained
    exact hretained.nodup_ids.sublist hkept.issued

theorem Consistent.stored (h : Consistent cfg w) : Stored cfg w.disk w.history := by
  cases hinner : w.inner with
  | none =>
    obtain ⟨hlog, hstored⟩ := h.stopped hinner
    rw [World.history, hlog, append_nil]
    exact hstored
  | some inner => exact (h.live inner hinner).stored

/-- **The scheduler fails closed.** -/
theorem failClosed_of_reaches (h : Reaches cfg disk w) : FailClosed cfg w := by
  have hconsistent := consistent_of_reaches h
  cases hinner : w.inner with
  | none =>
    obtain ⟨hlog, -⟩ := hconsistent.stopped hinner
    have hnot : ∀ before event after, w.log ≠ before ++ event :: after := by
      intro before event after heq
      simp [hlog] at heq
    exact {
      handed_running := fun before jobId after heq ↦ absurd heq (hnot _ _ _)
      handed_once := hlog ▸ nodup_nil
      silent := fun before jobs failure after heq ↦ absurd heq (hnot _ _ _)
      recorded := fun before jobs failure after inner heq ↦ absurd heq (hnot _ _ _)
      latched := fun inner fault heq ↦ absurd (hinner.symm.trans heq) (Option.some_ne_none _).symm
      issued_once := hconsistent.stored.nodup_issuedIds
      recovers := fun clock inner hstart ↦ hconsistent.stored.recovers hstart }
  | some inner =>
    have hlive := hconsistent.live inner hinner
    exact {
      handed_running := hlive.handed_running
      handed_once := hlive.handed_nodup
      silent := fun before jobs failure after heq ↦ (hlive.split_log heq).1
      recorded := by
        intro before jobs failure after inner' heq hinner'
        obtain ⟨⟩ := hinner.symm.trans hinner'
        exact (hlive.split_log heq).2
      latched := by
        intro inner' fault hinner' hfault op reported after hexec
        obtain ⟨⟩ := hinner.symm.trans hinner'
        obtain ⟨hdisk, -, hfault', -, -⟩ :=
          exec_of_fault hfault (hlive.failed fault hfault).shutdown_eq hexec
        exact ⟨hfault', hdisk⟩
      issued_once := hconsistent.stored.nodup_issuedIds
      recovers := fun clock inner hstart ↦ hconsistent.stored.recovers hstart }

/-- The job `J-000000` is admitted and handed out; the write of its end installs the snapshot and
fails to sync the directory. -/
def endedWorld : World :=
  ((sampleStart.after sampleConfig (sampleSubmit [0x68])).after sampleConfig (.claim none)).after
    sampleConfig (.finish (formatJobId 0) .succeeded (some ⟨⟨"Other", some 5⟩, true⟩))

theorem reaches_endedWorld : Reaches sampleConfig none endedWorld := by
  refine ((reaches_sampleStart.tail (step_after rfl (by trivial))).tail
    (step_after rfl (by trivial))).tail (step_after rfl ⟨?_, ?_, fun heq ↦ nomatch heq⟩)
  · decide +kernel
  · intro state durable
    cases state <;> cases durable <;> decide +kernel

theorem failClosed_endedWorld :
    FailClosed sampleConfig endedWorld ∧ .handed (formatJobId 0) ∈ endedWorld.log :=
  ⟨failClosed_of_reaches reaches_endedWorld, by decide +kernel⟩

/-- The end of an acknowledged job was not reported as durable, and the job is not in the queue
after a crash: its end is on disk. -/
theorem ended_job_not_requeued :
    ∃ w inner, Reaches sampleConfig none w ∧
      startWithResourceLimits sampleConfig (fun _ ↦ true) w.disk = .ok inner ∧
      formatJobId 0 ∈ acknowledgedIds w.history ∧ formatJobId 0 ∉ durableIds w.history ∧
      formatJobId 0 ∉ inner.queue.map FuzzJob.jobId := by
  refine ⟨_, ⟨[], [⟨formatJobId 0, [0x70], [0x68], 0, .complete⟩], false, 1, 25, none⟩,
    reaches_endedWorld.tail (step_crash rfl), ?_, ?_, ?_, ?_⟩
  · decide +kernel
  · decide +kernel
  · decide +kernel
  · decide +kernel

end Bhf.ContinuousDaemon
