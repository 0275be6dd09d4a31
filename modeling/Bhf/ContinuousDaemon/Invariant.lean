import Bhf.ContinuousDaemon.Effects

/-!
# What holds along every run

Two things are kept along every interleaving of operations, failures, crashes and restarts.

**The disk** (`Stored`): the last snapshot that was installed is on disk, its jobs are retained, and
every id that was acknowledged or reported as uncertain is in it, in the order of submission.

**The scheduler that runs** (`Live`): while no write has failed, memory has the same ids and is
retained as well, and no job is both in the queue and handed out (`Sound`). Once a write has failed,
it is the last one (`Failed`).

A successful write keeps both if the jobs that are written do (`Live.commit`), and so does a failed
one, which has nothing more to keep in memory (`Live.fail`); `live_exec` goes through the outcomes
of the operations.
-/

namespace Bhf.ContinuousDaemon

open List FuzzJob Option

variable {cfg : DaemonConfig} {clock : Clock} {store after : Store} {past : List Event}
  {jobs : List FuzzJob} {failed outcome : Option PersistFailure} {reported events : List Event}
  {event : Event} {jobId : List Char} {state : JobState} {disk : Option Bytes}

/-! ### Histories -/

theorem issuedIds_append (a b : List Event) : issuedIds (a ++ b) = issuedIds a ++ issuedIds b :=
  filterMap_append

theorem handedIds_append (a b : List Event) : handedIds (a ++ b) = handedIds a ++ handedIds b :=
  filterMap_append

theorem mem_handedIds : jobId ∈ handedIds events ↔ .handed jobId ∈ events := by
  rw [handedIds, mem_filterMap]
  constructor
  · rintro ⟨event, hmem, heq⟩
    cases event with
    | handed id => exact some.inj heq ▸ hmem
    | _ => contradiction
  · exact fun hmem ↦ ⟨_, hmem, rfl⟩

theorem lastInstalled_append_of_installs_eq_none (a : List Event)
    (h : ∀ event ∈ events, event.installs = none) :
    lastInstalled (a ++ events) = lastInstalled a := by
  rw [lastInstalled, filterMap_append, filterMap_eq_nil_iff.mpr h, append_nil]
  rfl

/-! ### The disk -/

/-- A scheduler with this configuration gets as far as reading the snapshot. -/
def GetsToRestore (cfg : DaemonConfig) : Prop :=
  ∀ clock bytes, startWithResourceLimits cfg clock (some bytes) = restore cfg clock bytes

variable {inner : InnerState} {job : FuzzJob} {reserved : ℕ}

theorem getsToRestore_of_start (h : startWithResourceLimits cfg clock disk = .ok inner) :
    GetsToRestore cfg := by
  obtain ⟨hvalid, h⟩ := ok_of_guard h
  obtain ⟨hworkers, h⟩ := ok_of_guard h
  obtain ⟨hpoll, -⟩ := ok_of_guard h
  intro clock' bytes
  unfold startWithResourceLimits
  rw [if_neg hvalid, if_neg hworkers, if_neg hpoll]

/-- The snapshot on disk has every id that was issued. -/
structure Kept (cfg : DaemonConfig) (disk : Option Bytes) (events : List Event)
    (jobs : List FuzzJob) : Prop where
  /-- A start gets as far as the snapshot. -/
  starts : GetsToRestore cfg
  /-- The snapshot is on disk. -/
  bytes : ∃ bytes, snapshotBytes cfg.codec jobs = some bytes ∧ disk = some bytes
  /-- Its jobs pass the checks. -/
  retained : ∃ nextId, Retained cfg jobs nextId
  /-- They have every id that was issued. -/
  issued : (issuedIds events).Sublist (jobs.map FuzzJob.jobId)

structure Stored (cfg : DaemonConfig) (disk : Option Bytes) (events : List Event) :
    Prop where
  nothing : lastInstalled events = none → issuedIds events = []
  snapshot : ∀ jobs, lastInstalled events = some jobs → Kept cfg disk events jobs

theorem stored_nil : Stored cfg disk [] :=
  ⟨fun _ ↦ rfl, fun _ h ↦ nomatch h⟩

/-- What was only reported can be forgotten. -/
theorem Stored.of_append (h : Stored cfg disk (past ++ events))
    (hevents : ∀ event ∈ events, event.installs = none) : Stored cfg disk past := by
  have hlast := lastInstalled_append_of_installs_eq_none past hevents
  refine ⟨fun hnone ↦ ?_, fun jobs hjobs ↦ ?_⟩
  · have hissued := h.nothing (hlast.trans hnone)
    rw [issuedIds_append] at hissued
    exact (append_eq_nil_iff.mp hissued).1
  · have hkept := h.snapshot jobs (hlast.trans hjobs)
    have hissued := hkept.issued
    rw [issuedIds_append] at hissued
    exact ⟨hkept.starts, hkept.bytes, hkept.retained, (sublist_append_left _ _).trans hissued⟩

/-- Reports that issue no id leave everything as it is. -/
theorem Stored.append (h : Stored cfg disk past)
    (hevents : ∀ event ∈ events, event.installs = none) (hissued : issuedIds events = []) :
    Stored cfg disk (past ++ events) := by
  have hlast := lastInstalled_append_of_installs_eq_none past hevents
  have hsame : issuedIds (past ++ events) = issuedIds past := by
    rw [issuedIds_append, hissued, append_nil]
  refine ⟨fun hnone ↦ ?_, fun jobs hjobs ↦ ?_⟩
  · rw [hsame]
    exact h.nothing (hlast.symm.trans hnone)
  · have hkept := h.snapshot jobs (hlast.symm.trans hjobs)
    exact ⟨hkept.starts, hkept.bytes, hkept.retained, hsame ▸ hkept.issued⟩

/-- A write of retained jobs, and what is reported after it. An id may be issued if the snapshot
with it was installed. -/
theorem Stored.wrote (h : Stored cfg store.disk (past ++ store.log)) (hstarts : GetsToRestore cfg)
    (hwrote : Wrote cfg.codec jobs failed store after)
    (hretained : ∃ nextId, Retained cfg jobs nextId)
    (hreported : ∀ event ∈ reported, event.installs = none)
    (hinstalled : (Event.persisted jobs failed).installs = some jobs →
      (issuedIds (past ++ store.log) ++ issuedIds reported).Sublist (jobs.map FuzzJob.jobId))
    (hkept : (Event.persisted jobs failed).installs = none → issuedIds reported = []) :
    Stored cfg after.disk (past ++ (after.log ++ reported)) := by
  have hlog : past ++ (after.log ++ reported) =
      past ++ store.log ++ [.persisted jobs failed] ++ reported := by
    rw [hwrote.log_eq]
    simp
  have hissued : issuedIds (past ++ store.log ++ [.persisted jobs failed] ++ reported) =
      issuedIds (past ++ store.log) ++ issuedIds reported := by
    rw [issuedIds_append, issuedIds_append _ [_], append_assoc]
    rfl
  rw [hlog]
  cases hinstalls : (Event.persisted jobs failed).installs with
  | none =>
    have hquiet : ∀ event ∈ [Event.persisted jobs failed] ++ reported, event.installs = none :=
      forall_mem_append.mpr ⟨forall_mem_singleton.mpr hinstalls, hreported⟩
    rw [hwrote.kept hinstalls, append_assoc]
    refine h.append hquiet ?_
    rw [issuedIds_append, hkept hinstalls]
    rfl
  | some written =>
    obtain rfl : written = jobs := by
      rw [installs_persisted] at hinstalls
      split at hinstalls
      · exact (some.inj hinstalls).symm
      · contradiction
    have hlast : lastInstalled (past ++ store.log ++ [.persisted written failed] ++ reported) =
        some written := by
      rw [lastInstalled_append_of_installs_eq_none _ hreported, lastInstalled, filterMap_append,
        filterMap_cons_some hinstalls, filterMap_nil, getLast?_concat]
    refine ⟨fun hnone ↦ ?_, fun jobs hjobs ↦ ?_⟩
    · exact absurd (hlast.symm.trans hnone) (some_ne_none written)
    · obtain ⟨⟩ := hlast.symm.trans hjobs
      exact ⟨hstarts, hwrote.installed hinstalls, hretained, hissued ▸ hinstalled hinstalls⟩

/-! ### The scheduler that runs -/

/-- Before a job is handed out, a snapshot in which it runs is durable. -/
def HandedAfterRunning (log : List Event) : Prop :=
  ∀ before jobId after, log = before ++ .handed jobId :: after →
    ∃ jobs, .persisted jobs none ∈ before ∧ ∃ job ∈ jobs, job.jobId = jobId ∧ job.state = .running

theorem HandedAfterRunning.append {log : List Event} (h : HandedAfterRunning log)
    (hevents : ∀ jobId, .handed jobId ∈ events → ∃ jobs, .persisted jobs none ∈ log ∧
      ∃ job ∈ jobs, job.jobId = jobId ∧ job.state = .running) :
    HandedAfterRunning (log ++ events) := by
  intro before jobId after heq
  rcases append_eq_append_iff.mp heq with ⟨middle, rfl, hright⟩ | ⟨middle, hleft, hright⟩
  · obtain ⟨jobs, hmem, hjob⟩ := hevents jobId (hright ▸ by simp)
    exact ⟨jobs, mem_append_left _ hmem, hjob⟩
  · cases middle with
    | nil =>
      rw [append_nil] at hleft
      rw [nil_append] at hright
      obtain ⟨jobs, hmem, hjob⟩ := hevents jobId (hright ▸ mem_cons_self)
      exact ⟨jobs, hleft ▸ hmem, hjob⟩
    | cons first middle =>
      obtain ⟨rfl, -⟩ := cons.inj hright
      exact h before jobId middle hleft

/-- While no write has failed. -/
structure Sound (cfg : DaemonConfig) (past : List Event) (store : Store) : Prop where
  /-- The jobs pass the checks of a start. -/
  retained : Retained cfg store.inner.seen store.inner.nextId
  /-- The room reserved is the room they take. -/
  reserved_eq : store.inner.snapshotBytesReserved =
    (store.inner.seen.map (recordBytes cfg.codec)).sum
  /-- They have every id that was issued. -/
  issued : (issuedIds (past ++ store.log)).Sublist (store.inner.seen.map FuzzJob.jobId)
  /-- No job is both handed out and waiting. -/
  nodup : (handedIds store.log ++ store.inner.queue.map FuzzJob.jobId).Nodup
  /-- All of these are known. -/
  mem_seen : ∀ jobId ∈ handedIds store.log ++ store.inner.queue.map FuzzJob.jobId,
    jobId ∈ store.inner.seen.map FuzzJob.jobId
  /-- No write has failed. -/
  calm : ∀ jobs failure, .persisted jobs (some failure) ∉ store.log

/-- After a write has failed. -/
structure Failed (store : Store) (fault : StorageFault) : Prop where
  /-- Nothing more is accepted. -/
  shutdown_eq : store.inner.shutdown = true
  /-- One write has failed, and none was tried since. -/
  last : ∃ before jobs failure phase jobId after,
    store.log = before ++ .persisted jobs (some failure) :: after ∧
    (∀ jobs failure, .persisted jobs (some failure) ∉ before) ∧ (∀ event ∈ after, event.Quiet) ∧
    fault = .ofFailure phase jobId failure

structure Live (cfg : DaemonConfig) (past : List Event) (store : Store) : Prop where
  /-- A start gets as far as the snapshot. -/
  starts : GetsToRestore cfg
  /-- The disk has what was promised. -/
  stored : Stored cfg store.disk (past ++ store.log)
  /-- No job was handed out twice. -/
  handed_nodup : (handedIds store.log).Nodup
  /-- A job was stored as running before. -/
  handed_running : HandedAfterRunning store.log
  /-- While no write has failed. -/
  sound : store.inner.storageFault = none → Sound cfg past store
  /-- After one has. -/
  failed : ∀ fault, store.inner.storageFault = some fault → Failed store fault

/-- A scheduler that accepts work has not seen a failure. -/
theorem Live.storageFault_eq_none (h : Live cfg past store)
    (hrunning : store.inner.shutdown = false) : store.inner.storageFault = none := by
  cases hfault : store.inner.storageFault with
  | none => rfl
  | some fault =>
    have hshutdown := (h.failed fault hfault).shutdown_eq
    rw [hrunning] at hshutdown
    contradiction

/-- A write that succeeds, and what is reported after it. -/
theorem Live.commit (h : Live cfg past store) (hfault : store.inner.storageFault = none)
    (hwrote : Wrote cfg.codec jobs none store after) (hjobs : after.inner.seen = jobs)
    (hretained : Retained cfg jobs after.inner.nextId)
    (hreserved : after.inner.snapshotBytesReserved = (jobs.map (recordBytes cfg.codec)).sum)
    (hfault' : after.inner.storageFault = none)
    (hevent : ∀ jobs failed, event ≠ .persisted jobs failed)
    (hissued : (issuedIds (past ++ store.log) ++ issuedIds [event]).Sublist
      (jobs.map FuzzJob.jobId))
    (hnodup : (handedIds store.log ++ handedIds [event] ++
      after.inner.queue.map FuzzJob.jobId).Nodup)
    (hmem : ∀ jobId ∈ handedIds store.log ++ handedIds [event] ++
      after.inner.queue.map FuzzJob.jobId, jobId ∈ jobs.map FuzzJob.jobId)
    (hrunning : ∀ jobId, event = .handed jobId →
      ∃ job ∈ jobs, job.jobId = jobId ∧ job.state = .running) :
    Live cfg past ⟨after.inner, after.disk, after.log ++ [event]⟩ := by
  have hinstalls : ∀ e ∈ [event], e.installs = none := by
    intro e he
    obtain rfl := mem_singleton.mp he
    cases e with
    | persisted jobs failed => exact absurd rfl (hevent jobs failed)
    | acknowledged _ => rfl
    | uncertain _ => rfl
    | handed _ => rfl
    | finished _ _ _ => rfl
  have hhanded : handedIds (after.log ++ [event]) = handedIds store.log ++ handedIds [event] := by
    rw [hwrote.log_eq, handedIds_append, handedIds_append _ [.persisted _ _]]
    exact congrArg (· ++ _) (append_nil _)
  have hstored := h.stored.wrote h.starts hwrote ⟨_, hretained⟩ hinstalls (fun _ ↦ hissued)
    fun hnone ↦ nomatch hnone
  have hissuedIds : issuedIds (past ++ (after.log ++ [event])) =
      issuedIds (past ++ store.log) ++ issuedIds [event] := by
    rw [hwrote.log_eq, issuedIds_append, issuedIds_append _ [event], issuedIds_append store.log,
      issuedIds_append, append_assoc, append_assoc]
    rfl
  exact {
    starts := h.starts
    stored := hstored
    handed_nodup := hhanded ▸ (nodup_append.mp hnodup).1
    handed_running := by
      have hlog : HandedAfterRunning after.log := by
        rw [hwrote.log_eq]
        refine h.handed_running.append fun jobId hmem ↦ ?_
        exact absurd (mem_singleton.mp hmem) (by simp)
      refine hlog.append fun jobId hmem ↦ ?_
      refine ⟨jobs, ?_, hrunning jobId (mem_singleton.mp hmem).symm⟩
      rw [hwrote.log_eq]
      exact mem_append_right _ (mem_singleton_self _)
    sound := fun _ ↦ {
      retained := hjobs ▸ hretained
      reserved_eq := hjobs ▸ hreserved
      issued := by
        rw [hissuedIds]
        exact hjobs ▸ hissued
      nodup := hhanded ▸ hnodup
      mem_seen := by
        rw [hhanded]
        exact hjobs ▸ hmem
      calm := by
        intro jobs' failure hmem
        simp only [hwrote.log_eq, append_assoc, mem_append, mem_singleton] at hmem
        rcases hmem with hmem | hmem | hmem
        · exact (h.sound hfault).calm jobs' failure hmem
        · simp at hmem
        · exact hevent jobs' _ hmem.symm }
    failed := fun fault hsome ↦ by
      rw [show after.inner.storageFault = some fault from hsome] at hfault'
      contradiction }

/-- A write that fails, and what is reported after it. -/
theorem Live.fail {failure : PersistFailure} {phase : PersistencePhase}
    (h : Live cfg past store) (hfault : store.inner.storageFault = none)
    (hwrote : Wrote cfg.codec jobs (some failure) store after)
    (hlatched : Latched phase jobId failure store after)
    (hretained : ∃ nextId, Retained cfg jobs nextId) (hquiet : ∀ event ∈ reported, event.Quiet)
    (hissued : (issuedIds (past ++ store.log) ++ issuedIds reported).Sublist
      (jobs.map FuzzJob.jobId))
    (hkept : failure.installed = false → issuedIds reported = []) :
    Live cfg past ⟨after.inner, after.disk, after.log ++ reported⟩ := by
  have hinstalls : ∀ e ∈ reported, e.installs = none := by
    intro e he
    have := hquiet e he
    cases e <;> first | rfl | contradiction
  have hhanded : handedIds reported = [] := by
    refine filterMap_eq_nil_iff.mpr fun e he ↦ ?_
    have := hquiet e he
    cases e <;> first | rfl | contradiction
  have hlatchedFault : after.inner.storageFault = some (.ofFailure phase jobId failure) := by
    rw [hlatched.storageFault_eq, hfault]
    rfl
  exact {
    starts := h.starts
    stored := by
      refine h.stored.wrote h.starts hwrote hretained hinstalls (fun _ ↦ hissued) fun hnone ↦ ?_
      refine hkept (Bool.eq_false_iff.mpr fun hinstalled ↦ ?_)
      rw [installs_persisted, elim_some, if_pos hinstalled] at hnone
      contradiction
    handed_nodup := by
      show (handedIds (after.log ++ reported)).Nodup
      rw [hwrote.log_eq, handedIds_append, handedIds_append, hhanded, append_nil]
      exact (append_nil _).symm ▸ h.handed_nodup
    handed_running := by
      show HandedAfterRunning (after.log ++ reported)
      rw [hwrote.log_eq, append_assoc]
      refine h.handed_running.append fun jobId hmem ↦ ?_
      have hnil : handedIds ([.persisted jobs (some failure)] ++ reported) = [] := hhanded
      exact absurd (hnil ▸ mem_handedIds.mpr hmem) not_mem_nil
    sound := fun hnone ↦ by
      rw [show after.inner.storageFault = none from hnone] at hlatchedFault
      contradiction
    failed := fun fault hsome ↦ {
      shutdown_eq := hlatched.shutdown_eq
      last := by
        refine ⟨store.log, jobs, failure, phase, jobId, reported, ?_, (h.sound hfault).calm, hquiet,
          ?_⟩
        · show after.log ++ reported = _
          rw [hwrote.log_eq, append_assoc]
          rfl
        · exact some.inj ((show after.inner.storageFault = some fault from hsome).symm.trans
            hlatchedFault) } }

/-! ### Every operation -/

/-- What an operation does after a failure. -/
theorem Live.observe {fault : StorageFault} (h : Live cfg past store)
    (hfault : store.inner.storageFault = some fault) (hfault' : inner.storageFault = some fault)
    (hshutdown : inner.shutdown)
    (hreported : ∀ event ∈ reported, ∃ jobId state, event = .finished jobId state false) :
    Live cfg past ⟨inner, store.disk, store.log ++ reported⟩ := by
  have hhanded : handedIds reported = [] := by
    refine filterMap_eq_nil_iff.mpr fun e he ↦ ?_
    obtain ⟨jobId, state, rfl⟩ := hreported e he
    rfl
  exact {
    starts := h.starts
    stored := by
      show Stored cfg store.disk (past ++ (store.log ++ reported))
      rw [← append_assoc]
      refine h.stored.append (fun e he ↦ ?_) (filterMap_eq_nil_iff.mpr fun e he ↦ ?_)
      all_goals
        obtain ⟨jobId, state, rfl⟩ := hreported e he
        rfl
    handed_nodup := by
      show (handedIds (store.log ++ reported)).Nodup
      rw [handedIds_append, hhanded, append_nil]
      exact h.handed_nodup
    handed_running := by
      refine h.handed_running.append fun jobId hmem ↦ ?_
      exact absurd (hhanded ▸ mem_handedIds.mpr hmem) not_mem_nil
    sound := fun hnone ↦ by
      rw [show inner.storageFault = none from hnone] at hfault'
      contradiction
    failed := fun fault' hsome ↦ {
      shutdown_eq := hshutdown
      last := by
        obtain rfl : fault = fault' := some.inj (hfault'.symm.trans hsome)
        obtain ⟨before, jobs, failure, phase, jobId, after, hlog, hbefore, hafter, hof⟩ :=
          (h.failed fault hfault).last
        refine ⟨before, jobs, failure, phase, jobId, after ++ reported, ?_, hbefore, ?_, hof⟩
        · show store.log ++ reported = _
          rw [hlog, append_assoc]
          rfl
        · refine forall_mem_append.mpr ⟨hafter, fun e he ↦ ?_⟩
          obtain ⟨jobId, state, rfl⟩ := hreported e he
          trivial } }

/-- The number of the next job is new. -/
theorem Retained.fresh_nextId (h : Retained cfg inner.seen inner.nextId)
    (hadmitted : Admitted cfg inner job reserved) :
    jobNumber job.jobId = some inner.nextId ∧
      some inner.nextId ∉ inner.seen.map fun job ↦ jobNumber job.jobId := by
  refine ⟨?_, fun hmem ↦ ?_⟩
  · rw [hadmitted.jobId_eq]
    exact jobNumber_formatJobId h.nextId_lt
  · obtain ⟨seen, hseen, heq⟩ := mem_map.mp hmem
    obtain ⟨number, hlt, hnumber⟩ := h.numbered seen hseen
    exact absurd (some.inj (hnumber.symm.trans heq)) (ne_of_lt hlt)

/-- The jobs with an admitted one are retained. -/
theorem Sound.retained_admitted (h : Sound cfg past store)
    (hadmitted : Admitted cfg store.inner job reserved) :
    Retained cfg (store.inner.seen ++ [job]) (store.inner.nextId + 1) := by
  obtain ⟨hnumber, hfresh⟩ := h.retained.fresh_nextId hadmitted
  refine h.retained.append hnumber hfresh (Nat.lt_succ_self _) (Nat.le_succ _) hadmitted.next_lt
    hadmitted.jobs_lt hadmitted.admissible ?_
  rw [hadmitted.recordBytes_eq, ← h.reserved_eq]
  exact hadmitted.total_le

theorem live_submit {reply : Except DaemonError (List Char)} (h : Live cfg past store)
    (hsubmits : Submits cfg store reply after) :
    Live cfg past ⟨after.inner, after.disk, after.log ++ submitReport reply⟩ := by
  cases hsubmits with
  | @rejected error herror =>
    have hnil : submitReport (.error error) = [] := by
      cases error with
      | durabilityUncertain jobId source => exact absurd rfl (herror jobId source)
      | _ => rfl
    rw [hnil, append_nil]
    exact h
  | @failed job reserved failure _ hadmitted hwrote hlatched error herror =>
    have hfault := h.storageFault_eq_none hadmitted.running
    have hsound := h.sound hfault
    by_cases hinstalled : failure.installed
    · rw [herror, if_pos hinstalled]
      refine h.fail hfault hwrote hlatched ⟨_, hsound.retained_admitted hadmitted⟩ ?_ ?_ ?_
      · exact forall_mem_singleton.mpr trivial
      · rw [map_append]
        exact hsound.issued.append (List.Sublist.refl _)
      · exact fun hnot ↦ absurd (hnot.symm.trans hinstalled) Bool.false_ne_true
    · rw [herror, if_neg hinstalled]
      refine h.fail hfault hwrote hlatched ⟨_, hsound.retained_admitted hadmitted⟩ ?_ ?_ ?_
      · exact forall_mem_nil _
      · rw [map_append]
        exact hsound.issued.append (nil_sublist _)
      · exact fun _ ↦ rfl
  | @acknowledged job reserved _ hadmitted hwrote hinner =>
    have hfault := h.storageFault_eq_none hadmitted.running
    have hsound := h.sound hfault
    have hnew : ∀ id ∈ handedIds store.log ++ store.inner.queue.map jobId, id ≠ job.jobId := by
      rintro id hmem rfl
      obtain ⟨hnumber, hfresh⟩ := hsound.retained.fresh_nextId hadmitted
      obtain ⟨seen, hseen, heq⟩ := mem_map.mp (hsound.mem_seen _ hmem)
      exact hfresh (mem_map.mpr ⟨seen, hseen, (congrArg jobNumber heq).trans hnumber⟩)
    have hids : handedIds store.log ++ handedIds [.acknowledged job.jobId] ++
        after.inner.queue.map jobId =
        handedIds store.log ++ store.inner.queue.map jobId ++ [job.jobId] := by
      rw [hinner, map_append, append_assoc, append_assoc]
      rfl
    refine h.commit hfault hwrote (by rw [hinner]) ?_ ?_ ?_ ?_ ?_ ?_ ?_ ?_
    · rw [hinner]
      exact hsound.retained_admitted hadmitted
    · rw [hinner, map_append, sum_append, ← hsound.reserved_eq]
      simp [hadmitted.recordBytes_eq]
    · rw [hinner]
      exact hfault
    · exact fun jobs failed heq ↦ nomatch heq
    · rw [map_append]
      exact hsound.issued.append (List.Sublist.refl _)
    · rw [hids, nodup_append]
      refine ⟨hsound.nodup, nodup_singleton _, fun a ha b hb ↦ ?_⟩
      exact mem_singleton.mp hb ▸ hnew a ha
    · rw [hids, map_append]
      exact forall_mem_append.mpr ⟨fun id hmem ↦ mem_append_left _ (hsound.mem_seen id hmem),
        fun id ↦ mem_append_right _⟩
    · exact fun id heq ↦ nomatch heq

/-- A change of state keeps what is retained, and the ids. -/
theorem Sound.retained_setState (h : Sound cfg past store) (jobId : List Char) (state : JobState) :
    Retained cfg (setState jobId state store.inner.seen) store.inner.nextId :=
  h.retained.congr (map_worst_setState jobId state store.inner.seen).symm

theorem Sound.reserved_setState (h : Sound cfg past store) (jobId : List Char) (state : JobState) :
    store.inner.snapshotBytesReserved =
      ((setState jobId state store.inner.seen).map (recordBytes cfg.codec)).sum := by
  rw [h.reserved_eq]
  exact congrArg sum (map_congr_of_map_worst (fun _ ↦ rfl)
    (map_worst_setState jobId state store.inner.seen).symm)

theorem live_claim {reply : Option FuzzJob} (h : Live cfg past store)
    (hclaims : Claims cfg store reply after) (hfault : store.inner.storageFault = none) :
    Live cfg past ⟨after.inner, after.disk, after.log ++ reply.toList.map (.handed ·.jobId)⟩ := by
  have hsound := h.sound hfault
  cases hclaims with
  | idle =>
    show Live cfg past ⟨store.inner, store.disk, store.log ++ []⟩
    rw [append_nil]
    exact h
  | @lost job queue _ hqueue hlost =>
    refine absurd (hsound.mem_seen job.jobId (mem_append_right _ ?_)) hlost
    rw [hqueue]
    exact mem_cons_self
  | @failed job queue failure _ hrunning hqueue hwrote hlatched =>
    refine h.fail hfault hwrote hlatched ⟨_, hsound.retained_setState _ _⟩ ?_ ?_ ?_
    · exact forall_mem_nil _
    · rw [map_jobId_setState]
      exact (append_nil _).symm ▸ hsound.issued
    · exact fun _ ↦ rfl
  | @handed job queue _ hrunning hqueue hwrote hinner =>
    have hids : handedIds store.log ++ handedIds [.handed job.jobId] ++
        after.inner.queue.map jobId = handedIds store.log ++ store.inner.queue.map jobId := by
      rw [hinner, hqueue, append_assoc]
      rfl
    refine h.commit hfault hwrote (by rw [hinner]) ?_ ?_ ?_ ?_ ?_ ?_ ?_ ?_
    · rw [hinner]
      exact hsound.retained_setState _ _
    · rw [hinner]
      exact hsound.reserved_setState _ _
    · rw [hinner]
      exact hfault
    · exact fun jobs failed heq ↦ nomatch heq
    · rw [map_jobId_setState]
      exact (append_nil _).symm ▸ hsound.issued
    · exact hids ▸ hsound.nodup
    · rw [hids, map_jobId_setState]
      exact hsound.mem_seen
    · rintro id heq
      obtain rfl : job.jobId = id := Event.handed.inj heq
      refine exists_mem_setState (hsound.mem_seen job.jobId (mem_append_right _ ?_))
      rw [hqueue]
      exact mem_cons_self

theorem live_finish {durable : Bool} (h : Live cfg past store)
    (hfinishes : Finishes cfg store jobId state durable after)
    (hfault : store.inner.storageFault = none) :
    Live cfg past ⟨after.inner, after.disk, after.log ++ [.finished jobId state durable]⟩ := by
  have hsound := h.sound hfault
  have hissued : (issuedIds (past ++ store.log) ++ []).Sublist
      ((setState jobId state store.inner.seen).map FuzzJob.jobId) := by
    rw [map_jobId_setState, append_nil]
    exact hsound.issued
  cases hfinishes with
  | observed hsome =>
    rw [hfault] at hsome
    contradiction
  | failed _ hwrote hlatched =>
    refine h.fail hfault hwrote hlatched ⟨_, hsound.retained_setState _ _⟩ ?_ hissued ?_
    · exact forall_mem_singleton.mpr trivial
    · exact fun _ ↦ rfl
  | recorded _ hwrote hinner =>
    have hids : handedIds store.log ++ handedIds [.finished jobId state true] ++
        after.inner.queue.map FuzzJob.jobId =
        handedIds store.log ++ store.inner.queue.map FuzzJob.jobId := by
      rw [hinner, append_assoc]
      rfl
    refine h.commit hfault hwrote (by rw [hinner]; rfl) ?_ ?_ ?_ ?_ hissued ?_ ?_ ?_
    · rw [hinner]
      exact hsound.retained_setState _ _
    · rw [hinner]
      exact hsound.reserved_setState _ _
    · rw [hinner]
      exact hfault
    · exact fun jobs failed heq ↦ nomatch heq
    · exact hids ▸ hsound.nodup
    · rw [hids, map_jobId_setState]
      exact hsound.mem_seen
    · exact fun id heq ↦ nomatch heq

/-- **Every operation keeps the invariant**, whatever the file system does. -/
theorem live_exec {op : Op} (h : Live cfg past store)
    (hexec : op.exec cfg store = (reported, after)) :
    Live cfg past ⟨after.inner, after.disk, after.log ++ reported⟩ := by
  cases hfault : store.inner.storageFault with
  | some fault =>
    obtain ⟨hdisk, hlog, hfault', hshutdown, hreported⟩ :=
      exec_of_fault hfault (h.failed fault hfault).shutdown_eq hexec
    rw [hdisk, hlog]
    exact h.observe hfault hfault' hshutdown hreported
  | none =>
    cases op with
    | submit clock projectDir harnessId timeBudget outcome =>
      obtain ⟨⟩ := hexec
      exact live_submit h (submits_submit rfl)
    | claim outcome =>
      obtain ⟨⟩ := hexec
      exact live_claim h (claims_claimJob rfl) hfault
    | finish jobId result outcome =>
      obtain ⟨⟩ := hexec
      exact live_finish h (finishes_finishJob rfl) hfault
    | requestShutdown =>
      obtain ⟨⟩ := hexec
      show Live cfg past ⟨_, store.disk, store.log ++ []⟩
      rw [append_nil]
      have hsound := h.sound hfault
      refine ⟨h.starts, h.stored, h.handed_nodup, h.handed_running, fun _ ↦ ?_,
        fun fault hsome ↦ ?_⟩
      · exact ⟨hsound.retained, hsound.reserved_eq, hsound.issued, hsound.nodup, hsound.mem_seen,
          hsound.calm⟩
      · exact absurd (hfault.symm.trans hsome) (some_ne_none fault).symm

end Bhf.ContinuousDaemon
