import Bhf.ContinuousDaemon.Restore

/-!
# What an operation does

Each operation writes at most one snapshot. `Wrote` says what a write leaves, whether it succeeded
or not. For each operation there is a relation with its outcomes (`Submits`, `Claims`, `Finishes`):
it does nothing, its write fails and is latched (`Latched`), or its write succeeds and memory
follows. The operations are in these relations (`submits_submit`, `claims_claimJob`,
`finishes_finishJob`), and **after a fault they write and report nothing** (`exec_of_fault`); what
holds along a run is proved from the outcomes alone.
-/

namespace Bhf.ContinuousDaemon

open List FuzzJob

variable {cfg : DaemonConfig} {clock : Clock} {store after : Store} {jobs : List FuzzJob}
  {failed outcome : Option PersistFailure} {reported : List Event} {jobId : List Char}
  {state : JobState}

/-! ### Writes -/

/-- A write of `jobs` was tried. -/
structure Wrote (codec : Codec) (jobs : List FuzzJob) (failed : Option PersistFailure)
    (store after : Store) : Prop where
  /-- It is in the log. -/
  log_eq : after.log = store.log ++ [.persisted jobs failed]
  /-- An installed snapshot is on disk. -/
  installed : (Event.persisted jobs failed).installs = some jobs →
    ∃ bytes, snapshotBytes codec jobs = some bytes ∧ after.disk = some bytes
  /-- Otherwise the disk is as it was. -/
  kept : (Event.persisted jobs failed).installs = none → after.disk = store.disk

/-- A write does not depend on the rest of the memory. -/
theorem Wrote.withInner {codec : Codec} (h : Wrote codec jobs failed store after)
    (inner inner' : InnerState) :
    Wrote codec jobs failed { store with inner := inner } { after with inner := inner' } :=
  ⟨h.log_eq, h.installed, h.kept⟩

theorem installs_persisted (jobs : List FuzzJob) (failed : Option PersistFailure) :
    (Event.persisted jobs failed).installs =
      if failed.elim true (·.installed) then some jobs else none := by
  cases failed with
  | none => rfl
  | some failure => rfl

theorem wrote_persistJobs {codec : Codec} (h : persistJobs codec outcome store = (failed, after)) :
    after.inner = store.inner ∧ Wrote codec store.inner.seen failed store after := by
  rw [persistJobs] at h
  cases hbytes : snapshotBytes codec store.inner.seen with
  | none =>
    rw [hbytes] at h
    obtain ⟨⟩ := h
    refine ⟨rfl, rfl, ?_, fun _ ↦ rfl⟩
    intro hinstalls
    contradiction
  | some bytes =>
    rw [hbytes] at h
    obtain ⟨⟩ := h
    refine ⟨rfl, rfl, ?_, ?_⟩
    · intro hinstalls
      rw [installs_persisted] at hinstalls
      split at hinstalls
      · next hinstalled => exact ⟨bytes, hbytes, if_pos hinstalled⟩
      · contradiction
    · intro hinstalls
      rw [installs_persisted] at hinstalls
      split at hinstalls
      · contradiction
      · next hinstalled => exact if_neg hinstalled

/-- What is written about a job whose state changes. -/
theorem map_worst_setState (jobId : List Char) (state : JobState) (jobs : List FuzzJob) :
    (setState jobId state jobs).map worst = jobs.map worst := by
  induction jobs with
  | nil => rfl
  | cons job jobs ih =>
    rw [setState]
    split
    · rfl
    · rw [map_cons, map_cons, ih]

theorem map_jobId_setState (jobId : List Char) (state : JobState) (jobs : List FuzzJob) :
    (setState jobId state jobs).map FuzzJob.jobId = jobs.map FuzzJob.jobId :=
  map_congr_of_map_worst (fun _ ↦ rfl) (map_worst_setState jobId state jobs)

theorem exists_mem_setState (h : jobId ∈ jobs.map FuzzJob.jobId) :
    ∃ job ∈ setState jobId state jobs, job.jobId = jobId ∧ job.state = state := by
  induction jobs with
  | nil => exact absurd h not_mem_nil
  | cons job jobs ih =>
    rw [setState]
    split
    · next hid => exact ⟨_, mem_cons_self, hid, rfl⟩
    · next hid =>
      have htail : jobId ∈ jobs.map FuzzJob.jobId :=
        (mem_cons.mp h).resolve_left fun heq ↦ hid heq.symm
      obtain ⟨job', hmem, hjob'⟩ := ih htail
      exact ⟨job', mem_cons_of_mem job hmem, hjob'⟩

/-! ### Admission -/

/-- What the checks of a submission establish. -/
structure Admitted (cfg : DaemonConfig) (inner : InnerState) (job : FuzzJob) (reserved : ℕ) :
    Prop where
  running : inner.shutdown = false
  jobs_lt : inner.seen.length < cfg.limits.maxJobs
  queue_lt : inner.queue.length < cfg.limits.maxQueuedJobs
  jobId_eq : job.jobId = formatJobId inner.nextId
  state_eq : job.state = .queued
  next_lt : inner.nextId + 1 < 2 ^ 64
  admissible : Admissible cfg job
  recordBytes_eq : recordBytes cfg.codec job = reserved
  total_le : inner.snapshotBytesReserved + reserved ≤ cfg.limits.maxSnapshotBytes

variable {projectDir harnessId : Bytes} {timeBudget : Duration}

theorem admitted_of_admission {inner : InnerState} {job : FuzzJob} {reserved : ℕ}
    (h : admission cfg clock projectDir harnessId timeBudget inner = .ok (job, reserved)) :
    Admitted cfg inner job reserved := by
  obtain ⟨hrunning, h⟩ := ok_of_guard h
  obtain ⟨hjobs, h⟩ := ok_of_guard h
  obtain ⟨hqueue, h⟩ := ok_of_guard h
  obtain ⟨-, h⟩ := ok_of_guard h
  obtain ⟨budgetSecs, -, h⟩ := ok_of_bind h
  obtain ⟨⟨⟩, hbudget, h⟩ := ok_of_bind h
  obtain ⟨hnext, h⟩ := ok_of_guard h
  dsimp only at h
  split at h
  · next reserved' hreserved =>
    obtain ⟨hrecord, h⟩ := ok_of_guard h
    obtain ⟨htotal, h⟩ := ok_of_guard h
    obtain ⟨rfl, rfl⟩ := Prod.mk.inj (Except.ok.inj h)
    exact {
      running := Bool.eq_false_iff.mpr hrunning
      jobs_lt := not_le.mp hjobs
      queue_lt := not_le.mp hqueue
      jobId_eq := rfl
      state_eq := rfl
      next_lt := not_le.mp hnext
      admissible := ⟨⟨reserved', not_lt.mp hrecord, hreserved⟩,
        budget_of_validateWallBudget (except_mapError_eq_ok hbudget)⟩
      recordBytes_eq := by rw [recordBytes, hreserved, Option.getD_some]
      total_le := not_lt.mp htotal }
  · contradiction

/-! ### The outcomes of each operation -/

/-- A failed write was latched, unless another one was before. -/
structure Latched (phase : PersistencePhase) (jobId : List Char) (failure : PersistFailure)
    (store after : Store) : Prop where
  /-- The first failure is kept. -/
  storageFault_eq : after.inner.storageFault =
    (store.inner.storageFault <|> some (.ofFailure phase jobId failure))
  /-- The scheduler shuts down. -/
  shutdown_eq : after.inner.shutdown = true

inductive Submits (cfg : DaemonConfig) (store : Store) :
    Except DaemonError (List Char) → Store → Prop
  | rejected {error : DaemonError}
      (herror : ∀ jobId source, error ≠ .durabilityUncertain jobId source) :
      Submits cfg store (.error error) store
  | failed {job : FuzzJob} {reserved : ℕ} {failure : PersistFailure} {after : Store}
      (hadmitted : Admitted cfg store.inner job reserved)
      (hwrote : Wrote cfg.codec (store.inner.seen ++ [job]) (some failure) store after)
      (hlatched : Latched .admission job.jobId failure store after) {error : DaemonError}
      (herror : error = if failure.installed then .durabilityUncertain job.jobId failure.error
        else .io failure.error) :
      Submits cfg store (.error error) after
  | acknowledged {job : FuzzJob} {reserved : ℕ} {after : Store}
      (hadmitted : Admitted cfg store.inner job reserved)
      (hwrote : Wrote cfg.codec (store.inner.seen ++ [job]) none store after)
      (hinner : after.inner = { store.inner with
        seen := store.inner.seen ++ [job]
        queue := store.inner.queue ++ [job]
        nextId := store.inner.nextId + 1
        snapshotBytesReserved := store.inner.snapshotBytesReserved + reserved }) :
      Submits cfg store (.ok job.jobId) after

theorem submits_submit {reply : Except DaemonError (List Char)}
    (h : submit cfg clock projectDir harnessId timeBudget outcome store = (reply, after)) :
    Submits cfg store reply after := by
  rw [submit] at h
  cases hok : admission cfg clock projectDir harnessId timeBudget store.inner with
  | error error =>
    rw [hok] at h
    obtain ⟨⟩ := h
    refine .rejected ?_
    rintro jobId source rfl
    have hmap : ∀ {α : Type} (x : Except String α),
        x.mapError DaemonError.invalidBudget ≠ .error (.durabilityUncertain jobId source) := by
      intro α x
      cases x <;> simp [Except.mapError]
    simp only [admission, bind, Except.bind, throw, throwThe, MonadExceptOf.throw, pure,
      Except.pure] at hok
    repeat' split at hok
    all_goals simp_all
  | ok admitted =>
    obtain ⟨job, reserved⟩ := admitted
    rw [hok] at h
    dsimp only at h
    have hadmitted := admitted_of_admission hok
    cases hpersist : persistJobs cfg.codec outcome
        { store with inner := { store.inner with seen := store.inner.seen ++ [job] } } with
    | mk failed written =>
      rw [hpersist] at h
      obtain ⟨hinner, hwrote⟩ := wrote_persistJobs hpersist
      cases failed with
      | some failure =>
        dsimp only at h
        split at h
        all_goals
          next hinstalled =>
          obtain ⟨⟩ := h
          refine .failed hadmitted (hwrote.withInner _ _) ⟨?_, rfl⟩ (by simp [hinstalled])
          simp only [latchStorageFault, hinner]
      | none =>
        obtain ⟨⟩ := h
        refine .acknowledged hadmitted (hwrote.withInner _ _) ?_
        simp only [hinner]

inductive Claims (cfg : DaemonConfig) (store : Store) : Option FuzzJob → Store → Prop
  | idle : Claims cfg store none store
  | lost {job : FuzzJob} {queue : List FuzzJob} {after : Store}
      (hqueue : store.inner.queue = job :: queue)
      (hlost : job.jobId ∉ store.inner.seen.map FuzzJob.jobId) : Claims cfg store none after
  | failed {job : FuzzJob} {queue : List FuzzJob} {failure : PersistFailure} {after : Store}
      (hrunning : store.inner.shutdown = false) (hqueue : store.inner.queue = job :: queue)
      (hwrote : Wrote cfg.codec (setState job.jobId .running store.inner.seen) (some failure) store
        after)
      (hlatched : Latched .start job.jobId failure store after) : Claims cfg store none after
  | handed {job : FuzzJob} {queue : List FuzzJob} {after : Store}
      (hrunning : store.inner.shutdown = false) (hqueue : store.inner.queue = job :: queue)
      (hwrote : Wrote cfg.codec (setState job.jobId .running store.inner.seen) none store after)
      (hinner : after.inner = { store.inner with
        seen := setState job.jobId .running store.inner.seen
        queue := queue }) : Claims cfg store (some job) after

theorem claims_claimJob {reply : Option FuzzJob}
    (h : claimJob cfg outcome store = (reply, after)) : Claims cfg store reply after := by
  rw [claimJob] at h
  split at h
  · obtain ⟨⟩ := h
    exact .idle
  · next hrunning =>
    split at h
    · obtain ⟨⟩ := h
      exact .idle
    · next job queue hqueue =>
      split at h
      · dsimp only at h
        cases hpersist : persistJobs cfg.codec outcome
            { store with inner := store.inner.setState job.jobId .running } with
        | mk failed written =>
          rw [hpersist] at h
          obtain ⟨hinner, hwrote⟩ := wrote_persistJobs hpersist
          cases failed with
          | some failure =>
            obtain ⟨⟩ := h
            refine .failed (Bool.eq_false_iff.mpr hrunning) hqueue (hwrote.withInner _ _) ⟨?_, rfl⟩
            simp only [latchStorageFault, InnerState.setState, hinner]
          | none =>
            obtain ⟨⟩ := h
            refine .handed (Bool.eq_false_iff.mpr hrunning) hqueue (hwrote.withInner _ _) ?_
            simp only [InnerState.setState, hinner]
      · next hany =>
        obtain ⟨⟩ := h
        refine .lost hqueue fun hmem ↦ hany ?_
        obtain ⟨job', hmem, hid⟩ := mem_map.mp hmem
        exact any_eq_true.mpr ⟨job', hmem, beq_iff_eq.mpr hid⟩

inductive Finishes (cfg : DaemonConfig) (store : Store) (jobId : List Char) (state : JobState) :
    Bool → Store → Prop
  | observed {fault : StorageFault} (hfault : store.inner.storageFault = some fault) :
      Finishes cfg store jobId state false
        { store with inner := store.inner.setState jobId state }
  | failed {failure : PersistFailure} {after : Store}
      (hsound : store.inner.storageFault = none)
      (hwrote : Wrote cfg.codec (setState jobId state store.inner.seen) (some failure) store after)
      (hlatched : Latched .completion jobId failure store after) :
      Finishes cfg store jobId state false after
  | recorded {after : Store} (hsound : store.inner.storageFault = none)
      (hwrote : Wrote cfg.codec (setState jobId state store.inner.seen) none store after)
      (hinner : after.inner = store.inner.setState jobId state) :
      Finishes cfg store jobId state true after

theorem finishes_finishJob {durable : Bool}
    (h : finishJob cfg jobId state outcome store = (durable, after)) :
    Finishes cfg store jobId state durable after := by
  rw [finishJob] at h
  cases hfault : store.inner.storageFault with
  | some fault =>
    rw [hfault] at h
    obtain ⟨⟩ := h
    exact .observed hfault
  | none =>
    rw [hfault] at h
    cases hpersist : persistJobs cfg.codec outcome
        { store with inner := store.inner.setState jobId state } with
    | mk failed written =>
      rw [hpersist] at h
      obtain ⟨hinner, hwrote⟩ := wrote_persistJobs hpersist
      cases failed with
      | some failure =>
        obtain ⟨⟩ := h
        refine .failed hfault (hwrote.withInner _ _) ⟨?_, rfl⟩
        simp only [latchStorageFault, InnerState.setState, hinner]
      | none =>
        obtain ⟨⟩ := h
        exact .recorded hfault (hwrote.withInner _ _) hinner

/-! ### After a fault -/

/-- An event that is neither a write nor an acknowledgement nor a dispatch. -/
def Event.Quiet : Event → Prop
  | .persisted _ _ => False
  | .acknowledged _ => False
  | .handed _ => False
  | _ => True

/-- **After a fault nothing is written, acknowledged or handed out**, and the fault stays. -/
theorem exec_of_fault {op : Op} {fault : StorageFault}
    (hfault : store.inner.storageFault = some fault) (hshutdown : store.inner.shutdown)
    (h : op.exec cfg store = (reported, after)) :
    after.disk = store.disk ∧ after.log = store.log ∧ after.inner.storageFault = some fault ∧
      after.inner.shutdown ∧
      ∀ event ∈ reported, ∃ jobId state, event = .finished jobId state false := by
  cases op with
  | submit clock projectDir harnessId timeBudget outcome =>
    have hok : admission cfg clock projectDir harnessId timeBudget store.inner =
        .error .shutdown := by
      rw [admission, if_pos hshutdown]
      rfl
    rw [Op.exec, submit, hok] at h
    obtain ⟨⟩ := h
    exact ⟨rfl, rfl, hfault, hshutdown, forall_mem_nil _⟩
  | claim outcome =>
    rw [Op.exec, claimJob, if_pos hshutdown] at h
    obtain ⟨⟩ := h
    exact ⟨rfl, rfl, hfault, hshutdown, forall_mem_nil _⟩
  | finish jobId result outcome =>
    rw [Op.exec, finishJob, hfault] at h
    obtain ⟨⟩ := h
    exact ⟨rfl, rfl, hfault, hshutdown, forall_mem_singleton.mpr ⟨jobId, result.finalState, rfl⟩⟩
  | requestShutdown =>
    obtain ⟨⟩ := h
    exact ⟨rfl, rfl, hfault, rfl, forall_mem_nil _⟩

end Bhf.ContinuousDaemon
