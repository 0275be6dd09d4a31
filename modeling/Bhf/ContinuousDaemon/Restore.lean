import Bhf.ContinuousDaemon.Scheduler
import Bhf.Lib.StateExcept

/-!
# Starting on a snapshot

What the scheduler keeps about its jobs is the same when it runs and when it has been restored
(`Retained`): they have distinct numbers below the next one, they are within the limits, and each of
their records fits into the bytes reserved for it. **None of this depends on the states of the
jobs** (`Retained.congr`), so it survives every operation that only changes a state, and what is on
disk has it whenever the memory it was written from had it.

A restore checks each line against the same limits. It succeeds exactly if every line fits
(`restoreLine_eq_ok_iff`); what it builds is retained (`restored_of_restoreLines`); and the one
check that a retained snapshot can fail is the length of the queue (`restoreLines_recordLines`),
since **a job that was running comes back to the queue**.
-/

namespace Bhf.ContinuousDaemon

open List Except FuzzJob

/-! ### What is kept about jobs -/

/-- The bytes that are reserved for a job. -/
def recordBytes (codec : Codec) (job : FuzzJob) : ℕ :=
  (reservedJobBytes codec job).getD 0

/-- What a submission checks about its job alone. -/
structure Admissible (cfg : DaemonConfig) (job : FuzzJob) : Prop where
  /-- The record is not too long. -/
  record : ∃ reserved ≤ cfg.limits.maxJobBytes, reservedJobBytes cfg.codec job = some reserved
  /-- The wall clock limit can be represented. -/
  budget : job.timeBudgetSecs = 0 ∨
    ∃ wall, (Duration.fromSecs job.timeBudgetSecs).checkedAdd cfg.jobWallGrace = some wall

structure Retained (cfg : DaemonConfig) (jobs : List FuzzJob) (nextId : ℕ) : Prop where
  /-- The ids are below the next one. -/
  numbered : ∀ job ∈ jobs, ∃ number < nextId, jobNumber job.jobId = some number
  /-- No two are equal. -/
  distinct : (jobs.map fun job ↦ jobNumber job.jobId).Nodup
  /-- The next id is a word. -/
  nextId_lt : nextId < 2 ^ 64
  /-- There are not too many jobs. -/
  length_le : jobs.length ≤ cfg.limits.maxJobs
  /-- Each passed its checks. -/
  admissible : ∀ job ∈ jobs, Admissible cfg job
  /-- Their records fit the snapshot. -/
  total_le : (jobs.map (recordBytes cfg.codec)).sum ≤ cfg.limits.maxSnapshotBytes

variable {cfg : DaemonConfig} {clock : Clock} {job : FuzzJob} {jobs jobs' : List FuzzJob}
  {nextId number reserved lineNumber : ℕ} {line : Bytes} {lines : List Bytes}
  {inner inner' : InnerState} {ids ids' : List ℕ}

theorem Admissible.congr {job' : FuzzJob} (h : Admissible cfg job) (heq : job.worst = job'.worst) :
    Admissible cfg job' := by
  have hbudget : job.worst.timeBudgetSecs = job'.worst.timeBudgetSecs :=
    congrArg timeBudgetSecs heq
  refine ⟨?_, (show job.timeBudgetSecs = job'.timeBudgetSecs from hbudget) ▸ h.budget⟩
  obtain ⟨reserved, hle, hreserved⟩ := h.record
  refine ⟨reserved, hle, ?_⟩
  rwa [reservedJobBytes, ← heq]

theorem exists_mem_of_map_worst (heq : jobs.map worst = jobs'.map worst)
    (hjob : job ∈ jobs') : ∃ job₀ ∈ jobs, job₀.worst = job.worst := by
  have hmem : job.worst ∈ jobs.map worst :=
    heq ▸ mem_map_of_mem hjob
  exact mem_map.mp hmem

theorem map_congr_of_map_worst {α : Type} {f : FuzzJob → α} (hf : ∀ job, f job.worst = f job)
    (heq : jobs.map worst = jobs'.map worst) : jobs.map f = jobs'.map f := by
  have h : ∀ js : List FuzzJob, js.map f = (js.map worst).map f := by
    intro js
    rw [map_map]
    exact map_congr_left fun job _ ↦ (hf job).symm
  rw [h jobs, heq, ← h jobs']

/-- Whether jobs are retained does not depend on their states. -/
theorem Retained.congr (h : Retained cfg jobs nextId)
    (heq : jobs.map worst = jobs'.map worst) : Retained cfg jobs' nextId where
  numbered job hjob := by
    obtain ⟨job₀, hjob₀, hworst⟩ := exists_mem_of_map_worst heq hjob
    have hid : job₀.worst.jobId = job.worst.jobId := congrArg jobId hworst
    obtain ⟨number, hlt, hnumber⟩ := h.numbered job₀ hjob₀
    exact ⟨number, hlt, (congrArg jobNumber hid).symm.trans hnumber⟩
  distinct := by
    have hnumbers := map_congr_of_map_worst (f := fun job ↦ jobNumber job.jobId) (fun _ ↦ rfl) heq
    exact hnumbers ▸ h.distinct
  nextId_lt := h.nextId_lt
  length_le := by
    have hlength := congrArg length heq
    rw [length_map, length_map] at hlength
    exact hlength ▸ h.length_le
  admissible job hjob := by
    obtain ⟨job₀, hjob₀, hworst⟩ := exists_mem_of_map_worst heq hjob
    exact (h.admissible job₀ hjob₀).congr hworst
  total_le := by
    have hbytes := map_congr_of_map_worst (f := recordBytes cfg.codec) (fun _ ↦ rfl) heq
    exact hbytes ▸ h.total_le

/-- One more job, with a number of its own. -/
theorem Retained.append {nextId' : ℕ} (h : Retained cfg jobs nextId)
    (hnumber : jobNumber job.jobId = some number)
    (hfresh : some number ∉ jobs.map fun job ↦ jobNumber job.jobId) (hlt : number < nextId')
    (hnext : nextId ≤ nextId') (hnext_lt : nextId' < 2 ^ 64)
    (hlength : jobs.length < cfg.limits.maxJobs) (hjob : Admissible cfg job)
    (htotal : (jobs.map (recordBytes cfg.codec)).sum + recordBytes cfg.codec job ≤
      cfg.limits.maxSnapshotBytes) :
    Retained cfg (jobs ++ [job]) nextId' where
  numbered := by
    refine forall_mem_append.mpr
      ⟨fun job' hmem ↦ ?_, forall_mem_singleton.mpr ⟨number, hlt, hnumber⟩⟩
    obtain ⟨number', hlt', heq⟩ := h.numbered job' hmem
    exact ⟨number', lt_of_lt_of_le hlt' hnext, heq⟩
  distinct := by
    rw [map_append, nodup_append]
    refine ⟨h.distinct, nodup_singleton _, ?_⟩
    rintro a ha b hb rfl
    obtain rfl := mem_singleton.mp hb
    exact hfresh (hnumber ▸ ha)
  nextId_lt := hnext_lt
  length_le := by
    rw [length_append]
    exact hlength
  admissible := forall_mem_append.mpr ⟨h.admissible, forall_mem_singleton.mpr hjob⟩
  total_le := by
    simpa using htotal

theorem Retained.nodup_ids (h : Retained cfg jobs nextId) : (jobs.map jobId).Nodup := by
  refine List.Nodup.of_map jobNumber ?_
  rw [map_map]
  exact h.distinct

/-! ### Budgets -/

/-- The deadline of a job with this budget can be represented. -/
def DeadlineFits (cfg : DaemonConfig) (clock : Clock) (job : FuzzJob) : Prop :=
  ∀ wall, (Duration.fromSecs job.timeBudgetSecs).checkedAdd cfg.jobWallGrace = some wall →
    clock wall = true

theorem budget_of_validateWallBudget {secs : UInt64} {grace : Duration}
    (h : validateWallBudget clock secs grace = .ok ()) :
    secs = 0 ∨ ∃ wall, (Duration.fromSecs secs).checkedAdd grace = some wall := by
  rw [validateWallBudget] at h
  split at h
  · exact .inl ‹_›
  · split at h
    · contradiction
    · next wall hwall => exact .inr ⟨wall, hwall⟩

theorem Admissible.validateWallBudget (h : Admissible cfg job)
    (hclock : DeadlineFits cfg clock job) :
    validateWallBudget clock job.timeBudgetSecs cfg.jobWallGrace = .ok () := by
  rw [ContinuousDaemon.validateWallBudget]
  rcases h.budget with hzero | ⟨wall, hwall⟩
  · rw [if_pos hzero]
  · split
    · rfl
    · rw [hwall]
      exact if_pos (hclock wall hwall)

/-! ### One line -/

theorem worst_requeue (job : FuzzJob) : job.requeue.worst = job.worst := by
  rw [requeue]
  split <;> rfl

theorem jobId_requeue (job : FuzzJob) : job.requeue.jobId = job.jobId := by
  show job.requeue.worst.jobId = job.jobId
  rw [worst_requeue]
  rfl

theorem requeue_state_eq_queued_iff (job : FuzzJob) :
    job.requeue.state = .queued ↔ job.state.Unfinished := by
  rw [requeue, JobState.Unfinished]
  split
  · simp_all
  · simp_all

/-- A job from disk is appended to what has been read. -/
def InnerState.retain (inner : InnerState) (job : FuzzJob) (number reserved : ℕ) : InnerState :=
  { inner with
    nextId := max inner.nextId (number + 1)
    snapshotBytesReserved := inner.snapshotBytesReserved + reserved
    seen := inner.seen ++ [job]
    queue := if job.state = .queued then inner.queue ++ [job] else inner.queue }

/-- The checks that a line passes. -/
structure LineFits (cfg : DaemonConfig) (clock : Clock) (line : Bytes) (inner : InnerState)
    (ids : List ℕ) (job : FuzzJob) (number reserved : ℕ) : Prop where
  line_le : line.length ≤ cfg.limits.maxJobBytes
  jobs_lt : inner.seen.length < cfg.limits.maxJobs
  decode : cfg.codec.decode line = .ok job
  number_eq : jobNumber job.jobId = some number
  fresh : number ∉ ids
  next_lt : number + 1 < 2 ^ 64
  budget : validateWallBudget clock job.timeBudgetSecs cfg.jobWallGrace = .ok ()
  reserved_eq : reservedJobBytes cfg.codec job.requeue = some reserved
  reserved_le : reserved ≤ cfg.limits.maxJobBytes
  total_le : inner.snapshotBytesReserved + reserved ≤ cfg.limits.maxSnapshotBytes
  queue_lt : job.requeue.state = .queued → inner.queue.length < cfg.limits.maxQueuedJobs

theorem LineFits.restoreLine_eq (h : LineFits cfg clock line inner ids job number reserved) :
    restoreLine cfg clock lineNumber line inner ids =
      .ok (inner.retain job.requeue number reserved, ids ++ [number]) := by
  have hbytes : ¬(cfg.limits.maxJobBytes < reserved ∨
      cfg.limits.maxSnapshotBytes < inner.snapshotBytesReserved + reserved) :=
    not_or.mpr ⟨not_lt.mpr h.reserved_le, not_lt.mpr h.total_le⟩
  have hqueue : ¬(job.requeue.state = .queued ∧
      cfg.limits.maxQueuedJobs ≤ inner.queue.length) :=
    fun hfull ↦ not_le.mpr (h.queue_lt hfull.1) hfull.2
  rw [restoreLine, if_neg (not_lt.mpr h.line_le), if_neg (not_le.mpr h.jobs_lt), h.decode]
  simp only [Except.mapError, bind, Except.bind, h.number_eq, if_neg h.fresh,
    if_neg (not_le.mpr h.next_lt), h.budget, h.reserved_eq, if_neg hbytes, if_neg hqueue]
  rfl

theorem of_restoreLine (h : restoreLine cfg clock lineNumber line inner ids = .ok (inner', ids')) :
    ∃ job number reserved, LineFits cfg clock line inner ids job number reserved ∧
      inner' = inner.retain job.requeue number reserved ∧ ids' = ids ++ [number] := by
  obtain ⟨hline, h⟩ := ok_of_guard h
  obtain ⟨hjobs, h⟩ := ok_of_guard h
  obtain ⟨job, hdecode, h⟩ := ok_of_bind h
  cases hnumber : jobNumber job.jobId with
  | none =>
    rw [hnumber] at h
    contradiction
  | some number =>
    rw [hnumber] at h
    obtain ⟨hfresh, h⟩ := ok_of_guard h
    obtain ⟨hnext, h⟩ := ok_of_guard h
    obtain ⟨⟨⟩, hbudget, h⟩ := ok_of_bind h
    dsimp only at h
    cases hreserved : reservedJobBytes cfg.codec job.requeue with
    | none =>
      rw [hreserved] at h
      contradiction
    | some reserved =>
      rw [hreserved] at h
      obtain ⟨hbytes, h⟩ := ok_of_guard h
      obtain ⟨hqueue, h⟩ := ok_of_guard h
      obtain ⟨hreserved_le, htotal⟩ := not_or.mp hbytes
      obtain ⟨⟩ := h
      refine ⟨job, number, reserved, ?_, rfl, rfl⟩
      exact {
        line_le := not_lt.mp hline
        jobs_lt := not_le.mp hjobs
        decode := except_mapError_eq_ok hdecode
        number_eq := hnumber
        fresh := hfresh
        next_lt := not_le.mp hnext
        budget := except_mapError_eq_ok hbudget
        reserved_eq := hreserved
        reserved_le := not_lt.mp hreserved_le
        total_le := not_lt.mp htotal
        queue_lt := fun hstate ↦ not_le.mp fun hfull ↦ hqueue ⟨hstate, hfull⟩ }

/-! ### All lines -/

/-- What a scheduler starts with. -/
structure Restored (cfg : DaemonConfig) (inner : InnerState) : Prop where
  /-- The jobs pass the checks. -/
  retained : Retained cfg inner.seen inner.nextId
  /-- The room reserved is the room they take. -/
  reserved_eq : inner.snapshotBytesReserved = (inner.seen.map (recordBytes cfg.codec)).sum
  /-- The queue is what waits of them. -/
  queue_eq : inner.queue = inner.seen.filter (·.state = .queued)
  /-- It is not too long. -/
  queue_le : inner.queue.length ≤ cfg.limits.maxQueuedJobs
  /-- Jobs are accepted. -/
  shutdown_eq : inner.shutdown = false
  /-- No write has failed. -/
  storageFault_eq : inner.storageFault = none

theorem restored_empty : Restored cfg .empty where
  retained := by
    refine ⟨?_, nodup_nil, by decide, Nat.zero_le _, ?_, Nat.zero_le _⟩
    all_goals exact forall_mem_nil _
  reserved_eq := rfl
  queue_eq := rfl
  queue_le := Nat.zero_le _
  shutdown_eq := rfl
  storageFault_eq := rfl

/-- The numbers of the lines so far are the numbers of the jobs so far. -/
def Numbers (inner : InnerState) (ids : List ℕ) : Prop :=
  (inner.seen.map fun job ↦ jobNumber job.jobId) = ids.map some

theorem numbers_empty : Numbers .empty [] :=
  rfl

theorem LineFits.numbers (h : LineFits cfg clock line inner ids job number reserved)
    (hids : Numbers inner ids) :
    Numbers (inner.retain job.requeue number reserved) (ids ++ [number]) := by
  show (inner.seen ++ [job.requeue]).map (fun job ↦ jobNumber job.jobId) = _
  rw [map_append, map_append, hids]
  exact congrArg (ids.map some ++ [·]) ((congrArg jobNumber (jobId_requeue job)).trans h.number_eq)

theorem LineFits.restored (h : LineFits cfg clock line inner ids job number reserved)
    (hinner : Restored cfg inner) (hids : Numbers inner ids) :
    Restored cfg (inner.retain job.requeue number reserved) where
  retained := by
    have hbytes : recordBytes cfg.codec job.requeue = reserved := by
      rw [recordBytes, h.reserved_eq, Option.getD_some]
    have hbudget : job.requeue.timeBudgetSecs = job.timeBudgetSecs := by
      show job.requeue.worst.timeBudgetSecs = job.timeBudgetSecs
      rw [worst_requeue]
      rfl
    refine hinner.retained.append ((congrArg jobNumber (jobId_requeue job)).trans h.number_eq) ?_
      (lt_of_lt_of_le (Nat.lt_succ_self number) (le_max_right _ _)) (le_max_left _ _)
      (Nat.max_lt.mpr ⟨hinner.retained.nextId_lt, h.next_lt⟩) h.jobs_lt ?_ ?_
    · rw [hids]
      exact fun hmem ↦ h.fresh ((mem_map_of_injective (Option.some_injective ℕ)).mp hmem)
    · exact ⟨⟨reserved, h.reserved_le, h.reserved_eq⟩,
        hbudget ▸ budget_of_validateWallBudget h.budget⟩
    · rw [hbytes, ← hinner.reserved_eq]
      exact h.total_le
  reserved_eq := by
    show inner.snapshotBytesReserved + reserved = _
    rw [hinner.reserved_eq, InnerState.retain]
    simp [recordBytes, h.reserved_eq]
  queue_eq := by
    show (if job.requeue.state = .queued then _ else _) = (inner.seen ++ [job.requeue]).filter _
    rw [filter_append, ← hinner.queue_eq]
    split
    · next hstate => simp [hstate]
    · next hstate => simp [hstate]
  queue_le := by
    show (if job.requeue.state = .queued then inner.queue ++ [job.requeue] else
      inner.queue).length ≤ _
    split
    · next hstate =>
      rw [length_append]
      exact h.queue_lt hstate
    · exact hinner.queue_le
  shutdown_eq := hinner.shutdown_eq
  storageFault_eq := hinner.storageFault_eq

/-- Whatever the lines are, a restore that succeeds leaves retained jobs and a queue of those that
have to run. -/
theorem restored_of_restoreLines (hinner : Restored cfg inner) (hids : Numbers inner ids)
    (h : restoreLines cfg clock lineNumber lines inner ids = .ok inner') : Restored cfg inner' := by
  induction lines generalizing lineNumber inner ids with
  | nil =>
    exact ok.inj h ▸ hinner
  | cons line lines ih =>
    rw [restoreLines] at h
    split at h
    · exact ok.inj h ▸ hinner
    · obtain ⟨⟨inner₁, ids₁⟩, hline, h⟩ := ok_of_bind h
      obtain ⟨job, number, reserved, hfits, rfl, rfl⟩ := of_restoreLine hline
      exact ih (hfits.restored hinner hids) (hfits.numbers hids) h

/-! ### The lines of a snapshot -/

/-- The lines that are read back from the bytes of a snapshot; the last one is empty. -/
def recordLines (codec : Codec) (jobs : List FuzzJob) : List Bytes :=
  jobs.map (fun job ↦ (job.encode codec).getD []) ++ [[]]

variable {bytes : Bytes}

theorem splitOn_snapshotBytes {codec : Codec} (h : snapshotBytes codec jobs = some bytes) :
    bytes.splitOn newline = recordLines codec jobs := by
  induction jobs generalizing bytes with
  | nil =>
    obtain ⟨⟩ := h
    rfl
  | cons job jobs ih =>
    obtain ⟨line, hline, h⟩ := Option.bind_eq_some_iff.mp h
    obtain ⟨rest, hrest, h⟩ := Option.bind_eq_some_iff.mp h
    obtain rfl := Option.some.inj h
    rw [splitOn_append_cons_self, splitOn_eq_singleton (newline_notMem_encode hline),
      ih hrest, recordLines, recordLines, map_cons, hline]
    rfl

/-- The bytes of admissible jobs are within what is reserved for them. -/
theorem exists_snapshotBytes (h : ∀ job ∈ jobs, Admissible cfg job) :
    ∃ bytes, snapshotBytes cfg.codec jobs = some bytes ∧
      bytes.length ≤ (jobs.map (recordBytes cfg.codec)).sum := by
  induction jobs with
  | nil => exact ⟨[], rfl, le_refl _⟩
  | cons job jobs ih =>
    obtain ⟨reserved, -, hreserved⟩ := (h job mem_cons_self).record
    obtain ⟨line, hline, hlength⟩ := length_encode_lt_reserved hreserved
    obtain ⟨rest, hrest, hle⟩ := ih fun job' hmem ↦ h job' (mem_cons_of_mem job hmem)
    refine ⟨line ++ newline :: rest, ?_, ?_⟩
    · rw [snapshotBytes, hline, hrest]
      rfl
    · have hbytes : recordBytes cfg.codec job = reserved := by
        rw [recordBytes, hreserved, Option.getD_some]
      rw [map_cons, sum_cons, length_append, length_cons]
      omega

/-- What is restored from the lines of a snapshot are its jobs, requeued. -/
theorem seen_of_restoreLines (hjobs : ∀ job ∈ jobs, (job.encode cfg.codec).isSome)
    (h : restoreLines cfg clock lineNumber (recordLines cfg.codec jobs) inner ids = .ok inner') :
    inner'.seen = inner.seen ++ jobs.map requeue := by
  induction jobs generalizing lineNumber inner ids with
  | nil =>
    have heq : inner = inner' := ok.inj h
    rw [heq, map_nil, append_nil]
  | cons job jobs ih =>
    obtain ⟨line, hline⟩ := Option.isSome_iff_exists.mp (hjobs job mem_cons_self)
    rw [recordLines, map_cons, hline, cons_append, restoreLines,
      if_neg fun hempty ↦ encode_ne_nil hline hempty.1] at h
    obtain ⟨⟨inner₁, ids₁⟩, hread, h⟩ := ok_of_bind h
    obtain ⟨job', number, reserved, hfits, rfl, rfl⟩ := of_restoreLine hread
    obtain rfl : job' = job :=
      ok.inj (hfits.decode.symm.trans (decode_encode hline))
    rw [ih (fun job hmem ↦ hjobs job (mem_cons_of_mem _ hmem)) h, InnerState.retain, append_assoc]
    rfl

/-- The next line of a retained snapshot fits if the queue has room for its job. -/
theorem Restored.lineFits (hinner : Restored cfg inner) (hids : Numbers inner ids)
    (hretained : Retained cfg (inner.seen ++ job :: jobs) nextId)
    (hclock : DeadlineFits cfg clock job)
    (hroom : job.state.Unfinished → inner.queue.length < cfg.limits.maxQueuedJobs) :
    ∃ line number reserved, job.encode cfg.codec = some line ∧
      LineFits cfg clock line inner ids job number reserved := by
  have hadmissible : Admissible cfg job := hretained.admissible job (by simp)
  obtain ⟨number, hnumber_lt, hnumber⟩ := hretained.numbered job (by simp)
  obtain ⟨reserved, hreserved_le, hreserved⟩ := hadmissible.record
  obtain ⟨line, hline, hlength⟩ := length_encode_lt_reserved hreserved
  have hbytes : recordBytes cfg.codec job = reserved := by
    rw [recordBytes, hreserved, Option.getD_some]
  refine ⟨line, number, reserved, hline, ?_⟩
  exact {
    line_le := by omega
    jobs_lt := by
      refine lt_of_lt_of_le ?_ hretained.length_le
      rw [length_append, length_cons]
      omega
    decode := decode_encode hline
    number_eq := hnumber
    fresh := by
      intro hmem
      have hdistinct := hretained.distinct
      rw [map_append, hids, nodup_append] at hdistinct
      exact hdistinct.2.2 _ (mem_map_of_mem hmem) _ mem_cons_self hnumber.symm
    next_lt := lt_of_le_of_lt hnumber_lt hretained.nextId_lt
    budget := hadmissible.validateWallBudget hclock
    reserved_eq := by rwa [reservedJobBytes, worst_requeue]
    reserved_le := hreserved_le
    total_le := by
      refine le_trans ?_ hretained.total_le
      rw [hinner.reserved_eq, map_append, sum_append, map_cons, sum_cons]
      omega
    queue_lt := fun hstate ↦ hroom ((requeue_state_eq_queued_iff job).mp hstate) }

/-- A job from disk takes a place in the queue if it has to run. -/
theorem length_queue_retain (inner : InnerState) (job : FuzzJob) (number reserved : ℕ) :
    (inner.retain job.requeue number reserved).queue.length =
      inner.queue.length + if job.state.Unfinished then 1 else 0 := by
  show (if job.requeue.state = .queued then inner.queue ++ [job.requeue] else
    inner.queue).length = _
  by_cases hstate : job.state.Unfinished
  · rw [if_pos ((requeue_state_eq_queued_iff job).mpr hstate), if_pos hstate, length_append]
    rfl
  · rw [if_neg (mt (requeue_state_eq_queued_iff job).mp hstate), if_neg hstate]
    rfl

/-- **Retained jobs are restored if the queue has room for all that have to run**; nothing else can
stop it but the clock. -/
theorem restoreLines_recordLines (hinner : Restored cfg inner) (hids : Numbers inner ids)
    (hretained : Retained cfg (inner.seen ++ jobs) nextId)
    (hclock : ∀ job ∈ jobs, DeadlineFits cfg clock job)
    (hqueue : inner.queue.length + jobs.countP (·.state.Unfinished) ≤ cfg.limits.maxQueuedJobs) :
    ∃ inner', restoreLines cfg clock lineNumber (recordLines cfg.codec jobs) inner ids =
      .ok inner' := by
  induction jobs generalizing lineNumber inner ids with
  | nil => exact ⟨inner, rfl⟩
  | cons job jobs ih =>
    rw [countP_cons] at hqueue
    simp only [decide_eq_true_eq] at hqueue
    have hroom : job.state.Unfinished → inner.queue.length < cfg.limits.maxQueuedJobs := by
      intro hstate
      rw [if_pos hstate] at hqueue
      omega
    obtain ⟨line, number, reserved, hline, hfits⟩ :=
      hinner.lineFits hids hretained (hclock job mem_cons_self) hroom
    have hretained' :
        Retained cfg ((inner.retain job.requeue number reserved).seen ++ jobs) nextId := by
      refine hretained.congr ?_
      simp [InnerState.retain, worst_requeue]
    have hqueue' : (inner.retain job.requeue number reserved).queue.length +
        jobs.countP (·.state.Unfinished) ≤ cfg.limits.maxQueuedJobs := by
      rw [length_queue_retain]
      omega
    obtain ⟨inner', hrest⟩ := ih (hfits.restored hinner hids)
      (hfits.numbers hids) hretained' (fun job' hmem ↦ hclock job' (mem_cons_of_mem job hmem))
      hqueue'
    refine ⟨inner', ?_⟩
    rw [recordLines, map_cons, hline, cons_append, restoreLines, Option.getD_some,
      if_neg fun hempty ↦ encode_ne_nil hline hempty.1, hfits.restoreLine_eq]
    exact hrest

/-! ### Starting -/

theorem restored_of_restore (h : restore cfg clock bytes = .ok inner) : Restored cfg inner := by
  rw [restore] at h
  split at h
  · contradiction
  · exact restored_of_restoreLines restored_empty numbers_empty h

/-- Every scheduler starts restored. -/
theorem restored_of_start {disk : Option Bytes}
    (h : startWithResourceLimits cfg clock disk = .ok inner) : Restored cfg inner := by
  obtain ⟨-, h⟩ := ok_of_guard h
  obtain ⟨-, h⟩ := ok_of_guard h
  obtain ⟨-, h⟩ := ok_of_guard h
  cases disk with
  | none => exact ok.inj h ▸ restored_empty
  | some bytes => exact restored_of_restore h

end Bhf.ContinuousDaemon
