import Bhf.ContinuousDaemon.Jobs

/-!
# The scheduler of the continuous daemon

The scheduler admits jobs, hands them to workers and records their outcome. It writes its history
to disk inside each of these operations, with its mutex held, so an operation is atomic to the
other workers. **A failed write is latched**: the first failure is recorded and the scheduler shuts
down. A write fails before the new snapshot is installed or after it, when only the sync of the
directory fails.

An operation works on a `Store`: what the mutex protects, the file, and a log of what was written
and reported so far. A `World` goes on after the end of the scheduler that runs in it: the process
may crash at any point, also between the installation of a snapshot and the report of the operation
that wrote it, and a later scheduler starts on what is on disk.
-/

namespace Bhf.ContinuousDaemon

/-! ### Settings and errors -/

structure SchedulerLimits where
  maxJobs : ℕ
  maxQueuedJobs : ℕ
  maxSnapshotBytes : ℕ
  maxJobBytes : ℕ
  maxListPage : ℕ

def SchedulerLimits.valid (limits : SchedulerLimits) : Bool :=
  0 < limits.maxJobs && 0 < limits.maxQueuedJobs && 0 < limits.maxSnapshotBytes &&
    0 < limits.maxJobBytes && 0 < limits.maxListPage

def maxConcurrentWorkers : ℕ :=
  64

structure DaemonConfig where
  limits : SchedulerLimits
  jobWallGrace : Duration
  maxConcurrentJobs : ℕ
  pollInterval : Duration
  codec : Codec

/-- An error of the file system. -/
structure StorageError where
  kind : String
  rawOsError : Option ℤ
  deriving DecidableEq

inductive DaemonError
  | shutdown
  | idExhausted
  | invalidBudget (reason : String)
  | invalidLimits
  | capacity (what : String)
  | corruptJobs (line : ℕ) (reason : String)
  | durabilityUncertain (jobId : List Char) (source : StorageError)
  | io (error : StorageError)
  | json
  deriving DecidableEq

structure PersistFailure where
  error : StorageError
  /-- The new snapshot replaced the old one, but the directory was not synced. -/
  installed : Bool
  deriving DecidableEq

inductive PersistencePhase
  | admission
  | start
  | completion
  deriving DecidableEq

structure StorageFault where
  phase : PersistencePhase
  jobId : List Char
  snapshotInstalled : Bool
  ioErrorKind : String
  rawOsError : Option ℤ
  deriving DecidableEq

structure InnerState where
  queue : List FuzzJob
  seen : List FuzzJob
  shutdown : Bool
  nextId : ℕ
  snapshotBytesReserved : ℕ
  storageFault : Option StorageFault
  deriving DecidableEq

def InnerState.empty : InnerState :=
  ⟨[], [], false, 0, 0, none⟩

/-! ### Writing the history -/

/-- What happened: a snapshot was written, or an operation reported something to its caller. -/
inductive Event
  | persisted (jobs : List FuzzJob) (failure : Option PersistFailure)
  | acknowledged (jobId : List Char)
  | uncertain (jobId : List Char)
  | handed (jobId : List Char)
  | finished (jobId : List Char) (state : JobState) (durable : Bool)
  deriving DecidableEq

structure Store where
  inner : InnerState
  disk : Option Bytes
  log : List Event

/-- Write all jobs; `outcome` is what the file system does. A job without a record fails the write
before anything is installed. -/
def persistJobs (codec : Codec) (outcome : Option PersistFailure) (store : Store) :
    Option PersistFailure × Store :=
  let jobs := store.inner.seen
  match snapshotBytes codec jobs with
  | none =>
    let failure := { error := ⟨"Other", none⟩, installed := false }
    (some failure, { store with log := store.log ++ [.persisted jobs (some failure)] })
  | some bytes =>
    let disk := if outcome.elim true (·.installed) then some bytes else store.disk
    (outcome, { store with disk := disk, log := store.log ++ [.persisted jobs outcome] })

def StorageFault.ofFailure (phase : PersistencePhase) (jobId : List Char)
    (failure : PersistFailure) : StorageFault :=
  ⟨phase, jobId, failure.installed, failure.error.kind, failure.error.rawOsError⟩

def latchStorageFault (phase : PersistencePhase) (jobId : List Char) (failure : PersistFailure)
    (inner : InnerState) : InnerState :=
  { inner with
    storageFault := inner.storageFault <|> some (.ofFailure phase jobId failure)
    shutdown := true }

/-- Set the state of the first job with an id. -/
def setState (jobId : List Char) (state : JobState) : List FuzzJob → List FuzzJob
  | [] => []
  | job :: jobs =>
    if job.jobId = jobId then { job with state := state } :: jobs
    else job :: setState jobId state jobs

def InnerState.setState (inner : InnerState) (jobId : List Char) (state : JobState) : InnerState :=
  { inner with seen := ContinuousDaemon.setState jobId state inner.seen }

/-! ### Operations under the mutex -/

/-- The checks of a submission: the job it becomes and the bytes that are reserved for it. -/
def admission (cfg : DaemonConfig) (clock : Clock) (projectDir harnessId : Bytes)
    (timeBudget : Duration) (inner : InnerState) : Except DaemonError (FuzzJob × ℕ) := do
  if inner.shutdown then throw .shutdown
  if cfg.limits.maxJobs ≤ inner.seen.length then throw (.capacity "retained jobs")
  if cfg.limits.maxQueuedJobs ≤ inner.queue.length then throw (.capacity "queued jobs")
  if cfg.limits.maxJobBytes < projectDir.length + harnessId.length then
    throw (.capacity "job record bytes")
  let budgetSecs ← (roundedBudgetSecs timeBudget).mapError .invalidBudget
  (validateWallBudget clock budgetSecs cfg.jobWallGrace).mapError .invalidBudget
  if 2 ^ 64 ≤ inner.nextId + 1 then throw .idExhausted
  let job : FuzzJob := ⟨formatJobId inner.nextId, projectDir, harnessId, budgetSecs, .queued⟩
  let some reserved := reservedJobBytes cfg.codec job | throw .json
  if cfg.limits.maxJobBytes < reserved then throw (.capacity "job record bytes")
  if cfg.limits.maxSnapshotBytes < inner.snapshotBytesReserved + reserved then
    throw (.capacity "jobs snapshot bytes")
  return (job, reserved)

def submit (cfg : DaemonConfig) (clock : Clock) (projectDir harnessId : Bytes)
    (timeBudget : Duration) (outcome : Option PersistFailure) (store : Store) :
    Except DaemonError (List Char) × Store :=
  match admission cfg clock projectDir harnessId timeBudget store.inner with
  | .error error => (.error error, store)
  | .ok (job, reserved) =>
    let tentative := { store.inner with seen := store.inner.seen ++ [job] }
    let (failed, written) := persistJobs cfg.codec outcome { store with inner := tentative }
    let nextId := store.inner.nextId + 1
    let total := store.inner.snapshotBytesReserved + reserved
    match failed with
    | some failure =>
      let latched := latchStorageFault .admission job.jobId failure written.inner
      if failure.installed then
        (.error (.durabilityUncertain job.jobId failure.error),
          { written with inner := { latched with
              nextId := nextId
              snapshotBytesReserved := total } })
      else
        (.error (.io failure.error),
          { written with inner := { latched with seen := latched.seen.dropLast } })
    | none =>
      (.ok job.jobId,
        { written with inner := { written.inner with
            nextId := nextId
            snapshotBytesReserved := total
            queue := written.inner.queue ++ [job] } })

/-- Take the next job. Its state is written before it leaves the queue. -/
def claimJob (cfg : DaemonConfig) (outcome : Option PersistFailure) (store : Store) :
    Option FuzzJob × Store :=
  if store.inner.shutdown then
    (none, store)
  else
    match store.inner.queue with
    | [] => (none, store)
    | job :: queue =>
      if store.inner.seen.any (·.jobId == job.jobId) then
        let running := store.inner.setState job.jobId .running
        let (failed, written) := persistJobs cfg.codec outcome { store with inner := running }
        match failed with
        | some failure =>
          let reverted := written.inner.setState job.jobId .queued
          (none, { written with inner := latchStorageFault .start job.jobId failure reverted })
        | none => (some job, { written with inner := { written.inner with queue := queue } })
      else
        let failure := { error := ⟨"InvalidData", none⟩, installed := false }
        (none, { store with inner := latchStorageFault .start job.jobId failure store.inner })

/-- Record how a job ended, and whether that is on disk. -/
def finishJob (cfg : DaemonConfig) (jobId : List Char) (finalState : JobState)
    (outcome : Option PersistFailure) (store : Store) : Bool × Store :=
  let observed := { store with inner := store.inner.setState jobId finalState }
  if store.inner.storageFault.isSome then
    (false, observed)
  else
    let (failed, written) := persistJobs cfg.codec outcome observed
    match failed with
    | some failure =>
      (false, { written with inner := latchStorageFault .completion jobId failure written.inner })
    | none => (true, written)

def requestShutdown (store : Store) : Store :=
  { store with inner := { store.inner with shutdown := true } }

/-! ### Starting on a snapshot -/

/-- A job whose worker is gone has to run again. -/
def FuzzJob.requeue (job : FuzzJob) : FuzzJob :=
  if job.state = .running then { job with state := .queued } else job

/-- Read one line. `ids` are the numbers of the lines before it. -/
def restoreLine (cfg : DaemonConfig) (clock : Clock) (lineNumber : ℕ) (line : Bytes)
    (inner : InnerState) (ids : List ℕ) : Except DaemonError (InnerState × List ℕ) := do
  if cfg.limits.maxJobBytes < line.length then throw (.capacity "job record bytes")
  if cfg.limits.maxJobs ≤ inner.seen.length then throw (.capacity "retained jobs")
  let corrupt := DaemonError.corruptJobs lineNumber
  let job ← (cfg.codec.decode line).mapError corrupt
  let shown := cfg.codec.debug job.jobId
  let some number := jobNumber job.jobId | throw (corrupt ("invalid job ID " ++ shown))
  if number ∈ ids then throw (corrupt ("duplicate numeric job ID " ++ shown))
  if 2 ^ 64 ≤ number + 1 then throw (corrupt ("job ID " ++ shown ++ " exhausts ID space"))
  (validateWallBudget clock job.timeBudgetSecs cfg.jobWallGrace).mapError fun reason ↦
    corrupt ("invalid job time budget: " ++ reason)
  let job := job.requeue
  let some reserved := reservedJobBytes cfg.codec job | throw .json
  if cfg.limits.maxJobBytes < reserved ∨
      cfg.limits.maxSnapshotBytes < inner.snapshotBytesReserved + reserved then
    throw (.capacity "jobs snapshot bytes")
  if job.state = .queued ∧ cfg.limits.maxQueuedJobs ≤ inner.queue.length then
    throw (.capacity "queued jobs")
  return ({ inner with
    nextId := max inner.nextId (number + 1)
    snapshotBytesReserved := inner.snapshotBytesReserved + reserved
    seen := inner.seen ++ [job]
    queue := if job.state = .queued then inner.queue ++ [job] else inner.queue }, ids ++ [number])

/-- Read the lines from `lineNumber` on; the last one is not a record if it is empty. -/
def restoreLines (cfg : DaemonConfig) (clock : Clock) :
    ℕ → List Bytes → InnerState → List ℕ → Except DaemonError InnerState
  | _, [], inner, _ => .ok inner
  | lineNumber, line :: lines, inner, ids =>
    if line = [] ∧ lines = [] then
      .ok inner
    else do
      let (inner, ids) ← restoreLine cfg clock lineNumber line inner ids
      restoreLines cfg clock (lineNumber + 1) lines inner ids

def restore (cfg : DaemonConfig) (clock : Clock) (bytes : Bytes) : Except DaemonError InnerState :=
  if cfg.limits.maxSnapshotBytes < bytes.length then
    .error (.capacity "jobs snapshot bytes")
  else
    restoreLines cfg clock 1 (bytes.splitOn newline) .empty []

def startWithResourceLimits (cfg : DaemonConfig) (clock : Clock) (disk : Option Bytes) :
    Except DaemonError InnerState := do
  if !cfg.limits.valid then throw .invalidLimits
  if maxConcurrentWorkers < cfg.maxConcurrentJobs then throw (.capacity "worker threads")
  if cfg.pollInterval.secs = 0 ∧ cfg.pollInterval.nanos = 0 then throw .invalidLimits
  match disk with
  | none => return .empty
  | some bytes => restore cfg clock bytes

/-! ### Runs -/

/-- How the child of a job ended. -/
inductive JobOutcome
  | succeeded
  | failed
  | interrupted

def JobOutcome.finalState : JobOutcome → JobState
  | succeeded => .complete
  | failed => .failed
  | interrupted => .queued

/-- What a caller or a worker does next. -/
inductive Op
  | submit (clock : Clock) (projectDir harnessId : Bytes) (timeBudget : Duration)
      (outcome : Option PersistFailure)
  | claim (outcome : Option PersistFailure)
  | finish (jobId : List Char) (result : JobOutcome) (outcome : Option PersistFailure)
  | requestShutdown

/-- A worker finishes a job that was handed to it, once, and interrupts it only after a shutdown was
requested. -/
def Op.Enabled (store : Store) : Op → Prop
  | finish jobId result _ =>
    .handed jobId ∈ store.log ∧ (∀ state durable, .finished jobId state durable ∉ store.log) ∧
      (result = .interrupted → store.inner.shutdown = true)
  | _ => True

/-- What the caller of a submission learns about an id. -/
def submitReport : Except DaemonError (List Char) → List Event
  | .ok jobId => [.acknowledged jobId]
  | .error (.durabilityUncertain jobId _) => [.uncertain jobId]
  | .error _ => []

/-- What an operation reports to its caller, and what it leaves. -/
def Op.exec (cfg : DaemonConfig) (store : Store) : Op → List Event × Store
  | submit clock projectDir harnessId timeBudget outcome =>
    let (reply, after) :=
      ContinuousDaemon.submit cfg clock projectDir harnessId timeBudget outcome store
    (submitReport reply, after)
  | claim outcome =>
    let (job, after) := claimJob cfg outcome store
    (job.toList.map (.handed ·.jobId), after)
  | finish jobId result outcome =>
    let (durable, after) := finishJob cfg jobId result.finalState outcome store
    ([.finished jobId result.finalState durable], after)
  | requestShutdown => ([], ContinuousDaemon.requestShutdown store)

/-- A data directory, the scheduler that runs on it, if any, what happened since that one started
and what happened before. -/
structure World where
  disk : Option Bytes
  inner : Option InnerState
  log : List Event
  past : List Event

def World.initial (disk : Option Bytes) : World :=
  ⟨disk, none, [], []⟩

/-- Everything that happened. -/
def World.history (w : World) : List Event :=
  w.past ++ w.log

/-- A scheduler starts, does one operation, or is lost at some point of an operation that may
already have installed its snapshot. -/
inductive Step (cfg : DaemonConfig) : World → World → Prop
  | start {w : World} {clock : Clock} {inner : InnerState} (hstopped : w.inner = none)
      (hstart : startWithResourceLimits cfg clock w.disk = .ok inner) :
      Step cfg w { w with inner := some inner }
  | perform {w : World} {inner : InnerState} {op : Op} {reported : List Event} {after : Store}
      (hinner : w.inner = some inner) (henabled : op.Enabled ⟨inner, w.disk, w.log⟩)
      (hexec : op.exec cfg ⟨inner, w.disk, w.log⟩ = (reported, after)) :
      Step cfg w ⟨after.disk, some after.inner, after.log ++ reported, w.past⟩
  | crash {w : World} {inner : InnerState} {op : Op} {reported : List Event} {after : Store}
      (hinner : w.inner = some inner) (henabled : op.Enabled ⟨inner, w.disk, w.log⟩)
      (hexec : op.exec cfg ⟨inner, w.disk, w.log⟩ = (reported, after)) :
      Step cfg w ⟨after.disk, none, [], w.past ++ after.log⟩

/-- The world after an operation was carried through. -/
def World.after (cfg : DaemonConfig) (w : World) (op : Op) : World :=
  match w.inner with
  | none => w
  | some inner =>
    let (reported, after) := op.exec cfg ⟨inner, w.disk, w.log⟩
    ⟨after.disk, some after.inner, after.log ++ reported, w.past⟩

theorem step_after {cfg : DaemonConfig} {w : World} {op : Op} {inner : InnerState}
    (hinner : w.inner = some inner) (henabled : op.Enabled ⟨inner, w.disk, w.log⟩) :
    Step cfg w (w.after cfg op) := by
  have hafter : w.after cfg op = ⟨(op.exec cfg ⟨inner, w.disk, w.log⟩).2.disk,
      some (op.exec cfg ⟨inner, w.disk, w.log⟩).2.inner,
      (op.exec cfg ⟨inner, w.disk, w.log⟩).2.log ++ (op.exec cfg ⟨inner, w.disk, w.log⟩).1,
      w.past⟩ := by
    rw [World.after, hinner]
  rw [hafter]
  exact .perform hinner henabled rfl

/-- A crash between two operations. -/
theorem step_crash {cfg : DaemonConfig} {w : World} {inner : InnerState}
    (hinner : w.inner = some inner) : Step cfg w ⟨w.disk, none, [], w.past ++ w.log⟩ := by
  have hexec : Op.requestShutdown.exec cfg ⟨inner, w.disk, w.log⟩ =
      ([], ⟨{ inner with shutdown := true }, w.disk, w.log⟩) := rfl
  have henabled : Op.requestShutdown.Enabled ⟨inner, w.disk, w.log⟩ := trivial
  exact .crash hinner henabled hexec

/-- The worlds that are reached from a data directory with some content. -/
def Reaches (cfg : DaemonConfig) (disk : Option Bytes) (w : World) : Prop :=
  Relation.ReflTransGen (Step cfg) (World.initial disk) w

/-- A scheduler with room for one job in its queue, on an empty directory. -/
def sampleConfig : DaemonConfig where
  limits := ⟨10, 1, 1000, 100, 10⟩
  jobWallGrace := .fromSecs 30
  maxConcurrentJobs := 1
  pollInterval := .fromSecs 1
  codec := plainCodec

def sampleStart : World :=
  ⟨none, some .empty, [], []⟩

theorem reaches_sampleStart : Reaches sampleConfig none sampleStart := by
  have hstart : startWithResourceLimits sampleConfig (fun _ ↦ true) none = .ok .empty := rfl
  exact .single (.start rfl hstart)

/-- A job without a time limit. -/
def sampleSubmit (harnessId : Bytes) : Op :=
  .submit (fun _ ↦ true) [0x70] harnessId (.fromSecs 0) none

/-! ### What a history says -/

/-- The ids that were acknowledged, in the order of their submission. -/
def acknowledgedIds (events : List Event) : List (List Char) :=
  events.filterMap fun
    | .acknowledged jobId => some jobId
    | _ => none

/-- The ids that were acknowledged or reported as uncertain. -/
def issuedIds (events : List Event) : List (List Char) :=
  events.filterMap fun
    | .acknowledged jobId => some jobId
    | .uncertain jobId => some jobId
    | _ => none

def handedIds (events : List Event) : List (List Char) :=
  events.filterMap fun
    | .handed jobId => some jobId
    | _ => none

/-- The snapshot a write leaves on disk. -/
def Event.installs : Event → Option (List FuzzJob)
  | .persisted jobs none => some jobs
  | .persisted jobs (some failure) => if failure.installed then some jobs else none
  | _ => none

/-- The last snapshot that was installed. -/
def lastInstalled (events : List Event) : Option (List FuzzJob) :=
  (events.filterMap Event.installs).getLast?

end Bhf.ContinuousDaemon
