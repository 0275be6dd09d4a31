import Bhf.Lib.Decimal
import Bhf.Lib.Spans

/-!
# Jobs and their snapshot

The scheduler keeps every job it was given and writes all of them to `jobs.jsonl`, one record a
line. A record is written by a JSON library; what this development needs of it is a `Codec`: **a
record is read back as the job it was written from, and it has no line break**. The state of a job
is the last field of its record, so the records of one job differ only in the name of its state, and
the name `complete` is the longest. That is why the bytes that are reserved for a job when it is
admitted (`reservedJobBytes`) are enough for every later record of it
(`length_encode_lt_reserved`).
-/

namespace Bhf.ContinuousDaemon

open List

/-! ### Time -/

/-- A span of time. -/
structure Duration where
  secs : ℕ
  nanos : ℕ
  secs_lt : secs < 2 ^ 64
  nanos_lt : nanos < 10 ^ 9

namespace Duration

def fromSecs (secs : UInt64) : Duration :=
  ⟨secs.toNat, 0, secs.toNat_lt, by decide⟩

def checkedAdd (a b : Duration) : Option Duration :=
  let nanos := a.nanos + b.nanos
  let secs := a.secs + b.secs + nanos / 10 ^ 9
  if h : secs < 2 ^ 64 then
    some ⟨secs, nanos % 10 ^ 9, h, Nat.mod_lt _ (by decide)⟩
  else
    none

end Duration

/-- Whether the monotonic clock can represent the time that is this far ahead. -/
abbrev Clock :=
  Duration → Bool

/-- The reason of a budget that cannot be kept. -/
def roundedBudgetSecs (budget : Duration) : Except String UInt64 :=
  let secs := budget.secs + if 0 < budget.nanos then 1 else 0
  if secs < 2 ^ 64 then .ok (UInt64.ofNat secs) else .error "seconds exceed u64 range"

def validateWallBudget (clock : Clock) (budgetSecs : UInt64) (grace : Duration) :
    Except String Unit :=
  if budgetSecs = 0 then
    .ok ()
  else
    match (Duration.fromSecs budgetSecs).checkedAdd grace with
    | none => .error "budget plus grace overflows"
    | some wall => if clock wall then .ok () else .error "monotonic deadline overflows"

/-! ### Jobs -/

inductive JobState
  | queued
  | running
  | complete
  | failed
  deriving DecidableEq

structure FuzzJob where
  jobId : List Char
  projectDir : Bytes
  harnessId : Bytes
  timeBudgetSecs : UInt64
  state : JobState
  deriving DecidableEq

/-- The name of a state in a record. -/
def JobState.text : JobState → Bytes
  | queued => [0x71, 0x75, 0x65, 0x75, 0x65, 0x64]
  | running => [0x72, 0x75, 0x6e, 0x6e, 0x69, 0x6e, 0x67]
  | complete => [0x63, 0x6f, 0x6d, 0x70, 0x6c, 0x65, 0x74, 0x65]
  | failed => [0x66, 0x61, 0x69, 0x6c, 0x65, 0x64]

/-- The job that still has to run. -/
def JobState.Unfinished (state : JobState) : Prop :=
  state = queued ∨ state = running

instance : DecidablePred JobState.Unfinished :=
  fun _ ↦ inferInstanceAs (Decidable (_ ∨ _))

/-- The id of a number, `J-` and at least six digits. -/
def formatJobId (number : ℕ) : List Char :=
  'J' :: '-' :: paddedDecimal 6 number

/-- The number of an id. -/
def jobNumber : List Char → Option ℕ
  | 'J' :: '-' :: digits =>
    if digits ≠ [] ∧ digits.all Char.isDigit ∧ decimalValue digits < 2 ^ 64 then
      some (decimalValue digits)
    else
      none
  | _ => none

theorem jobNumber_formatJobId {number : ℕ} (h : number < 2 ^ 64) :
    jobNumber (formatJobId number) = some number := by
  have hne : paddedDecimal 6 number ≠ [] :=
    ne_nil_of_length_pos (lt_of_lt_of_le (by decide) (le_length_paddedDecimal 6 number))
  have hdigits : (paddedDecimal 6 number).all Char.isDigit :=
    all_eq_true.mpr fun _ hc ↦ isDigit_of_mem_paddedDecimal hc
  have hvalue := decimalValue_paddedDecimal 6 number
  show (if _ then some (decimalValue (paddedDecimal 6 number)) else none) = some number
  rw [if_pos ⟨hne, hdigits, hvalue.symm ▸ h⟩, hvalue]

/-! ### Records -/

def newline : UInt8 :=
  0x0a

/-- The end of a record, after the name of the state. -/
def recordEnd : Bytes :=
  [0x22, 0x7d]

/-- The JSON library. -/
structure Codec where
  /-- The fields before the state. A path that is not a text has no record. -/
  fields : List Char → Bytes → Bytes → UInt64 → Option Bytes
  /-- How a record is read. -/
  decode : Bytes → Except String FuzzJob
  /-- How an id is quoted. -/
  debug : List Char → String
  /-- What is written is read back. -/
  decode_fields : ∀ {job : FuzzJob} {text : Bytes},
    fields job.jobId job.projectDir job.harnessId job.timeBudgetSecs = some text →
      decode (text ++ job.state.text ++ recordEnd) = .ok job
  /-- A record is one line. -/
  newline_notMem_fields : ∀ {id : List Char} {dir harness : Bytes} {secs : UInt64}
    {text : Bytes}, fields id dir harness secs = some text → newline ∉ text

/-- The record of a job. -/
def FuzzJob.encode (codec : Codec) (job : FuzzJob) : Option Bytes :=
  (codec.fields job.jobId job.projectDir job.harnessId job.timeBudgetSecs).map
    (· ++ job.state.text ++ recordEnd)

/-- The bytes of `jobs.jsonl`. -/
def snapshotBytes (codec : Codec) : List FuzzJob → Option Bytes
  | [] => some []
  | job :: jobs => do
    let line ← job.encode codec
    let rest ← snapshotBytes codec jobs
    return line ++ newline :: rest

/-- The job with the state that takes the most bytes. -/
def FuzzJob.worst (job : FuzzJob) : FuzzJob :=
  { job with state := .complete }

def reservedJobBytes (codec : Codec) (job : FuzzJob) : Option ℕ :=
  (job.worst.encode codec).map (·.length + 1)

variable {codec : Codec} {job : FuzzJob} {line : Bytes}

theorem decode_encode (h : job.encode codec = some line) : codec.decode line = .ok job := by
  obtain ⟨text, htext, rfl⟩ := Option.map_eq_some_iff.mp h
  exact codec.decode_fields htext

theorem newline_notMem_encode (h : job.encode codec = some line) : newline ∉ line := by
  obtain ⟨text, htext, rfl⟩ := Option.map_eq_some_iff.mp h
  have hstate : newline ∉ job.state.text := by
    cases job.state <;> decide
  have hend : newline ∉ recordEnd := by decide
  simp only [mem_append, not_or]
  exact ⟨⟨codec.newline_notMem_fields htext, hstate⟩, hend⟩

theorem encode_ne_nil (h : job.encode codec = some line) : line ≠ [] := by
  obtain ⟨text, -, rfl⟩ := Option.map_eq_some_iff.mp h
  simp [recordEnd]

/-- Every state of a job whose worst record can be written has a record, which fits into the bytes
that are reserved. -/
theorem length_encode_lt_reserved {reserved : ℕ} (h : reservedJobBytes codec job = some reserved) :
    ∃ line, job.encode codec = some line ∧ line.length < reserved := by
  obtain ⟨worst, hworst, rfl⟩ := Option.map_eq_some_iff.mp h
  obtain ⟨text, htext, rfl⟩ := Option.map_eq_some_iff.mp hworst
  refine ⟨text ++ job.state.text ++ recordEnd, ?_, ?_⟩
  · exact Option.map_eq_some_iff.mpr ⟨text, htext, rfl⟩
  · have hstate : job.state.text.length ≤ 8 := by
      cases job.state <;> decide
    have hcomplete : job.worst.state.text.length = 8 := rfl
    simp only [length_append]
    omega

/-! ### A codec for plain texts

Records of texts that need no escapes, to run the model on. -/

def quote : UInt8 :=
  0x22

/-- The fields of a job as texts; a budget of `n` seconds is `n` strokes. -/
def plainFields (id : List Char) (dir harness : Bytes) (secs : UInt64) : List Bytes :=
  [id.map fun c ↦ UInt8.ofNat c.toNat, dir, harness, List.replicate secs.toNat 0x31]

def readState (text : Bytes) : JobState :=
  if text = JobState.running.text then .running
  else if text = JobState.complete.text then .complete
  else if text = JobState.failed.text then .failed
  else .queued

theorem readState_text (state : JobState) : readState state.text = state := by
  cases state <;> decide

/-- Texts that stand between quotes as they are. -/
def IsPlain (id : List Char) (texts : List Bytes) : Prop :=
  (∀ c ∈ id, c.toNat < 128) ∧ ∀ text ∈ texts, quote ∉ text ∧ newline ∉ text

instance (id : List Char) (texts : List Bytes) : Decidable (IsPlain id texts) :=
  @instDecidableAnd _ _ (List.decidableBAll _ id) (List.decidableBAll _ texts)

def writePlain (id : List Char) (dir harness : Bytes) (secs : UInt64) : Option Bytes :=
  if IsPlain id (plainFields id dir harness secs) then
    some ((plainFields id dir harness secs).flatMap (· ++ [quote]))
  else
    none

def readPlain (line : Bytes) : Except String FuzzJob :=
  match line.splitOn quote with
  | [id, dir, harness, secs, state, _] =>
    .ok ⟨id.map fun b ↦ Char.ofNat b.toNat, dir, harness, UInt64.ofNat secs.length,
      readState state⟩
  | _ => .error "not a record"

variable {id : List Char} {dir harness text : Bytes} {secs : UInt64}

theorem of_writePlain (h : writePlain id dir harness secs = some text) :
    IsPlain id (plainFields id dir harness secs) ∧
      text = (plainFields id dir harness secs).flatMap (· ++ [quote]) := by
  rw [writePlain] at h
  split at h
  · exact ⟨‹_›, (Option.some.inj h).symm⟩
  · contradiction

theorem readPlain_writePlain
    (h : writePlain job.jobId job.projectDir job.harnessId job.timeBudgetSecs = some text) :
    readPlain (text ++ job.state.text ++ recordEnd) = .ok job := by
  obtain ⟨id, dir, harness, secs, state⟩ := job
  obtain ⟨⟨hascii, hplain⟩, rfl⟩ := of_writePlain h
  have hpieces : ∀ piece ∈ plainFields id dir harness secs ++ [state.text, [0x7d]],
      quote ∉ piece :=
    forall_mem_append.mpr ⟨fun piece hpiece ↦ (hplain piece hpiece).1, by cases state <;> decide⟩
  have hline : (plainFields id dir harness secs).flatMap (· ++ [quote]) ++ state.text ++ recordEnd =
      [quote].intercalate (plainFields id dir harness secs ++ [state.text, [0x7d]]) := by
    simp [plainFields, recordEnd, quote]
  have hid : (id.map fun c ↦ UInt8.ofNat c.toNat).map (fun b ↦ Char.ofNat b.toNat) = id := by
    rw [map_map]
    refine (map_congr_left fun c hc ↦ ?_).trans (map_id id)
    have hlt : c.toNat < 256 := lt_trans (hascii c hc) (by decide)
    show Char.ofNat (UInt8.ofNat c.toNat).toNat = c
    rw [UInt8.toNat_ofNat_of_lt' hlt, Char.ofNat_toNat]
  rw [readPlain, hline, splitOn_intercalate quote hpieces (by simp)]
  show Except.ok _ = Except.ok _
  rw [hid, length_replicate, UInt64.ofNat_toNat, readState_text]

theorem newline_notMem_writePlain (h : writePlain id dir harness secs = some text) :
    newline ∉ text := by
  obtain ⟨hplain, rfl⟩ := of_writePlain h
  intro hmem
  obtain ⟨piece, hpiece, hmem⟩ := mem_flatMap.mp hmem
  rcases mem_append.mp hmem with hmem | hmem
  · exact (hplain.2 piece hpiece).2 hmem
  · exact absurd (mem_singleton.mp hmem) (by decide)

def plainCodec : Codec where
  fields := writePlain
  decode := readPlain
  debug := String.ofList
  decode_fields := readPlain_writePlain
  newline_notMem_fields := newline_notMem_writePlain

end Bhf.ContinuousDaemon
