import Bhf.ContinuousDaemon.FailClosed

/-!
# Restarting on one's own snapshot

A scheduler reads its snapshot back under the limits it was written under. Every check of a record
was passed when its job was admitted, and no change of state breaks it. **The queue is different**:
an admission compares only the jobs that wait with the limit, while a restart puts the jobs that
were running, and those that were interrupted, back into the queue and compares all of them. So a
restart succeeds exactly if the jobs of the snapshot that have not ended are within the limit of the
queue.
-/

namespace Bhf.ContinuousDaemon

variable {cfg : DaemonConfig} {clock : Clock} {w : World} {inner : InnerState}
  {disk : Option Bytes} {events : List Event} {jobs : List FuzzJob}

/-- The jobs that have not ended fit into the queue, so the snapshot is accepted. -/
theorem Kept.exists_start (h : Kept cfg disk events jobs)
    (hclock : ∀ job ∈ jobs, DeadlineFits cfg clock job)
    (hqueue : jobs.countP (·.state.Unfinished) ≤ cfg.limits.maxQueuedJobs) :
    ∃ inner, startWithResourceLimits cfg clock disk = .ok inner := by
  obtain ⟨bytes, hbytes, rfl⟩ := h.bytes
  obtain ⟨nextId, hretained⟩ := h.retained
  obtain ⟨bytes', hbytes', hle⟩ := exists_snapshotBytes hretained.admissible
  obtain rfl : bytes' = bytes := Option.some.inj (hbytes'.symm.trans hbytes)
  have hlength : ¬cfg.limits.maxSnapshotBytes < bytes'.length :=
    not_lt.mpr (le_trans hle hretained.total_le)
  have hroom : InnerState.empty.queue.length + jobs.countP (·.state.Unfinished) ≤
      cfg.limits.maxQueuedJobs := by
    show 0 + _ ≤ _
    rwa [zero_add]
  obtain ⟨inner, hinner⟩ :=
    restoreLines_recordLines restored_empty numbers_empty hretained hclock hroom
  refine ⟨inner, ?_⟩
  rw [h.starts, restore, if_neg hlength, splitOn_snapshotBytes hbytes]
  exact hinner

/-- **When a scheduler can restart.** The last snapshot that was installed in a run is accepted
under the same configuration exactly if its jobs that have not ended are at most as many as may
wait. -/
theorem restart_iff (h : Reaches cfg disk w) (hjobs : lastInstalled w.history = some jobs)
    (hclock : ∀ job ∈ jobs, DeadlineFits cfg clock job) :
    (∃ inner, startWithResourceLimits cfg clock w.disk = .ok inner) ↔
      jobs.countP (·.state.Unfinished) ≤ cfg.limits.maxQueuedJobs := by
  have hkept := (consistent_of_reaches h).stored.snapshot jobs hjobs
  constructor
  · rintro ⟨inner, hstart⟩
    have hids := congrArg List.length (map_jobId_filter_requeue jobs)
    rw [← hkept.seen_eq hstart, ← (restored_of_start hstart).queue_eq, List.length_map,
      List.length_map] at hids
    rw [List.countP_eq_length_filter, ← hids]
    exact (restored_of_start hstart).queue_le
  · exact hkept.exists_start hclock

/-- Room for a second job in the queue. -/
def roomyConfig : DaemonConfig :=
  { sampleConfig with limits := { sampleConfig.limits with maxQueuedJobs := 2 } }

/-- One job has ended. -/
def idleWorld : World :=
  ((sampleStart.after roomyConfig (sampleSubmit [0x68])).after roomyConfig (.claim none)).after
    roomyConfig (.finish (formatJobId 0) .succeeded none)

/-- One job has ended, one runs and one waits. -/
def busyWorld : World :=
  ((idleWorld.after roomyConfig (sampleSubmit [0x69])).after roomyConfig (.claim none)).after
    roomyConfig (sampleSubmit [0x6a])

theorem reaches_idleWorld : Reaches roomyConfig none idleWorld := by
  have hstart : startWithResourceLimits roomyConfig (fun _ ↦ true) none = .ok .empty := rfl
  have hstarted : Reaches roomyConfig none sampleStart := .single (.start rfl hstart)
  refine ((hstarted.tail (step_after rfl (by trivial))).tail (step_after rfl (by trivial))).tail
    (step_after rfl ⟨?_, ?_, fun heq ↦ nomatch heq⟩)
  · decide +kernel
  · intro state durable
    cases state <;> cases durable <;> decide +kernel

theorem restart_busyWorld :
    ∃ inner, startWithResourceLimits roomyConfig (fun _ ↦ true) busyWorld.disk = .ok inner := by
  have hbusy : Reaches roomyConfig none busyWorld :=
    ((reaches_idleWorld.tail (step_after rfl (by trivial))).tail (step_after rfl (by trivial))).tail
      (step_after rfl (by trivial))
  have hjobs : lastInstalled busyWorld.history =
      some [⟨formatJobId 0, [0x70], [0x68], 0, .complete⟩,
        ⟨formatJobId 1, [0x70], [0x69], 0, .running⟩,
        ⟨formatJobId 2, [0x70], [0x6a], 0, .queued⟩] := by
    decide +kernel
  exact (restart_iff hbusy hjobs fun _ _ _ _ ↦ rfl).mpr (by decide)

/-- The first job runs, and a second one takes its place in the queue. -/
def crowdedWorld : World :=
  ((sampleStart.after sampleConfig (sampleSubmit [0x68])).after sampleConfig (.claim none)).after
    sampleConfig (sampleSubmit [0x69])

/-- After a crash the two jobs are too many for a queue of one. -/
theorem crowdedWorld_cannot_restart :
    Reaches sampleConfig none crowdedWorld ∧ sampleConfig.limits.valid = true ∧
      startWithResourceLimits sampleConfig (fun _ ↦ true) crowdedWorld.disk =
        .error (.capacity "queued jobs") := by
  have hcrowded : Reaches sampleConfig none crowdedWorld :=
    ((reaches_sampleStart.tail (step_after rfl (by trivial))).tail
      (step_after rfl (by trivial))).tail (step_after rfl (by trivial))
  exact ⟨hcrowded, rfl, by decide +kernel⟩

end Bhf.ContinuousDaemon
