import Bhf.Corpus.Finding
import Bhf.Corpus.Layout
import Mathlib.Data.List.AList

/-!
# The merge of worker findings

`merge_worker_findings` folds what the workers of a campaign found into the campaign's own findings.
A worker finding moves to a fresh parent directory unless its crash is known there: the directory is
reserved, the worker's record is rewritten to carry the parent's id (the **intent**), the files
move, and the record moves last, as the commit. A later merge that meets a record with an intent
whose directory has no record yet resumes into that directory.

The findings are maps from directory names to files and an optional record. A `Run` holds what a run
of the merge depends on beside them: the order in which directories are read, the lengths of the
records it writes, which worker directories cannot be listed, and where the move of a finding fails.
A **failure** at any point of a finding is counted and the merge goes on; if the failure is the end
of the process the merge stops there (`Fault.crash`). Renames are atomic.
-/

namespace Bhf.MulticoreFuzz

open Bhf.Corpus

/-! ### Findings on disk -/

/-- A path below a finding directory. -/
abbrev Path :=
  List String

/-- A regular file, or a symlink or special file, which is never followed or moved. -/
inductive FileEntry where
  | regular (content : List UInt8)
  | special
  deriving DecidableEq

abbrev Files :=
  AList fun _ : Path ↦ FileEntry

/-- A `finding.json`: the length of its text, and the object in it if it is one. -/
structure RecordFile where
  bytes : ℕ
  parsed : Option Record

/-- A finding directory: its files beside `finding.json`, and that. -/
structure FindingDir where
  files : Files
  record : Option RecordFile

abbrev Findings :=
  AList fun _ : String ↦ FindingDir

/-- A worker finding: the worker's place in the list and the name of the directory. -/
abbrev Source :=
  ℕ × String

/-- The findings of the campaign and of its workers. -/
structure Store where
  parent : Findings
  workerCount : ℕ
  workers : AList fun _ : Source ↦ FindingDir

/-- The temporary file of the intent rewrite. -/
def recordTmp : Path :=
  ["finding.json.tmp"]

/-! ### The environment of a run -/

structure Limits where
  entries : ℕ
  recordBytes : ℕ

def defaultLimits : Limits :=
  ⟨100000, 8 * 1024 * 1024⟩

/-- Where the merge of one finding fails. -/
inductive FaultPoint where
  /-- The parent directory cannot be created. -/
  | createDir
  /-- The intent cannot be written; the reserved directory is removed, or left. -/
  | logIntent (removed : Bool)
  | reserved
  /-- A move fails after these paths have been visited. -/
  | moving (visited : List Path)
  | moved
  /-- The record itself cannot be moved. -/
  | commit

structure Fault where
  point : FaultPoint
  crash : Bool

structure Run where
  limits : Limits
  readDir : List String → List String
  readDir_perm : ∀ names, (readDir names).Perm names
  unlisted : ℕ → Bool
  prettyLen : Record → ℕ
  fault : Source → Option Fault

/-! ### Reading -/

/-- Subdirectories in order, and whether the directory held more than the cap. -/
structure Listing where
  dirs : List String
  truncated : Bool

def realSubdirs (run : Run) (names : List String) : Listing :=
  let entries := run.readDir names
  { dirs := (entries.take run.limits.entries).mergeSort (· ≤ ·)
    truncated := run.limits.entries < entries.length }

inductive ReadError where
  | unreadable

/-- The record of a directory: `none` if there is no `finding.json`, an error if it is too large or
not an object. -/
def readRecord (limits : Limits) (dir : FindingDir) : Except ReadError (Option Record) :=
  match dir.record with
  | none => .ok none
  | some file =>
    if limits.recordBytes < file.bytes then
      .error .unreadable
    else
      match file.parsed with
      | none => .error .unreadable
      | some record => .ok (some record)

/-! ### Crash keys already held -/

abbrev Seen :=
  List (String × String)

namespace Seen

/-- The keys of a record, scoped by its harness. -/
def keys (record : Record) : List (String × String) :=
  (dedupeKeys record).map fun key ↦ (record.harnessId.getD "", key)

def holds (seen : Seen) (keys : List (String × String)) : Bool :=
  keys.any fun key ↦ seen.contains key

def insert (seen : Seen) (keys : List (String × String)) : Seen :=
  seen ++ keys

end Seen

/-! ### The intent -/

def intentCommand : String :=
  "fuzz"

def intentFields : List String :=
  ["id"]

/-- The last history entry is the merge's. -/
def carriesIntent (record : Record) : Bool :=
  match record.history.bind List.getLast? with
  | some entry => entry.command == some intentCommand && entry.fields == some intentFields
  | none => false

/-- The parent directory that an interrupted merge reserved for a record, while it has no
`finding.json`. -/
def resumable (ids : FamilyAllocator) (parent : Findings) (record : Record) : Option String :=
  if carriesIntent record then do
    let id ← record.id
    let dir ← ids.reservedDir parent.keys id
    let target ← parent.lookup dir
    if target.record.isNone then some id else none
  else
    none

/-- Point a record at its parent id; a stale intent is replaced. -/
def logIntent (record : Record) (id : String) : Record :=
  let record := if carriesIntent record then
      { record with history := record.history.map List.dropLast }
    else
      record
  appendHistory { record with id := some id } intentCommand intentFields

/-- The suffix of the parent id: eight characters of the signature, else the suffix of the worker's
own id. -/
def idSuffix (record : Record) (name : String) : String :=
  let fromSignature := record.signature.map fun signature ↦
    String.ofList (signature.toList.take 8)
  let fromName := if "F-".toList <+: name.toList then
      match (name.toList.drop 2).dropWhile (· ≠ '-') with
      | _ :: suffix => some (String.ofList suffix)
      | [] => none
    else
      none
  (([fromSignature, fromName].filterMap id).find? fun suffix ↦
    suffix ≠ "" ∧ suffix.toList.all Char.isAlphanum).getD "merged"

/-! ### Moving one finding -/

/-- Visit one entry of a source: a regular file moves, the temporary file is dropped, and anything
else stays. -/
def moveEntry (files : Files × Files) (path : Path) : Files × Files :=
  if path = recordTmp then
    (files.1.erase path, files.2)
  else
    match files.1.lookup path with
    | some (.regular content) => (files.1.erase path, files.2.insert path (.regular content))
    | _ => files

def moveContents (visited : List Path) (src dst : Files) : Files × Files :=
  visited.foldl moveEntry (src, dst)

namespace Store

/-- Move the visited files of a source into its parent directory. -/
def moveInto (s : Store) (src : Source) (id : String) (visited : List Path) : Store :=
  match s.workers.lookup src, s.parent.lookup id with
  | some dir, some target =>
    let moved := moveContents visited dir.files target.files
    { s with
      parent := s.parent.insert id { target with files := moved.2 }
      workers := s.workers.insert src { dir with files := moved.1 } }
  | _, _ => s

/-- Move the record of a source, and remove the source if nothing is left in it. -/
def commit (s : Store) (src : Source) (id : String) : Store :=
  match s.workers.lookup src, s.parent.lookup id with
  | some dir, some target =>
    { s with
      parent := s.parent.insert id { target with record := dir.record }
      workers := if dir.files.keys = [] then s.workers.erase src
        else s.workers.insert src { dir with record := none } }
  | _, _ => s

/-- Every path of a source. -/
def paths (s : Store) (src : Source) : List Path :=
  match s.workers.lookup src with
  | some dir => dir.files.keys
  | none => []

end Store

/-- The second half of the merge of one finding, behind the reservation: the store, and whether the
finding is committed. -/
def complete (point : Option FaultPoint) (s : Store) (src : Source) (id : String) : Store × Bool :=
  match point with
  | some .reserved => (s, false)
  | some (.moving visited) => (s.moveInto src id visited, false)
  | some .moved | some .commit => (s.moveInto src id (s.paths src), false)
  | _ => ((s.moveInto src id (s.paths src)).commit src id, true)

/-- The first half: reserve a parent directory and write the intent into the source's record. The
result has no id if that failed. -/
def reserve (run : Run) (s : Store) (ids : FamilyAllocator) (src : Source) (dir : FindingDir)
    (record : Record) : Store × FamilyAllocator × Option String :=
  match ids.createWithSuffix s.parent.keys (idSuffix record src.2) with
  | none => (s, ids, none)
  | some (id, ids) =>
    let reserved := { s with parent := s.parent.insert id ⟨∅, none⟩ }
    -- The rewrite begins by removing what an earlier one may have left.
    let swept := { dir with files := dir.files.erase recordTmp }
    match (run.fault src).map Fault.point with
    | some .createDir => (s, ids, none)
    | some (.logIntent removed) =>
      let s' := if removed then s else reserved
      ({ s' with workers := s.workers.insert src swept }, ids, none)
    | _ =>
      let record := logIntent record id
      let dir := { swept with record := some ⟨run.prettyLen record, some record⟩ }
      ({ reserved with workers := s.workers.insert src dir }, ids, some id)

/-- The merge of one finding: the store, the allocator, and the parent id if it was committed. -/
def mergeOne (run : Run) (s : Store) (ids : FamilyAllocator) (src : Source) (dir : FindingDir)
    (record : Record) (resume : Option String) : Store × FamilyAllocator × Option String :=
  let point := (run.fault src).map Fault.point
  match resume with
  | some id =>
    let (s, committed) := complete point s src id
    (s, ids, if committed then some id else none)
  | none =>
    match reserve run s ids src dir record with
    | (s, ids, none) => (s, ids, none)
    | (s, ids, some id) =>
      let (s, committed) := complete point s src id
      (s, ids, if committed then some id else none)

/-! ### The whole merge -/

structure MergeReport where
  merged : List String
  duplicates : ℕ
  unreadable : ℕ
  failed : ℕ

/-- The variables of the merge; `halted` once the process has come to its end. -/
structure MergeState where
  store : Store
  seen : Seen
  ids : FamilyAllocator
  report : MergeReport
  halted : Bool

/-- What the merge does in turn: a worker directory that is not, or not all, listed, or a worker
finding. -/
inductive Turn where
  | unlisted
  | finding (src : Source)

namespace Store

def workerNames (s : Store) (worker : ℕ) : List String :=
  s.workers.keys.filterMap fun src ↦ if src.1 = worker then some src.2 else none

/-- The turns of one worker. Its directory is listed when its turn comes; nothing before that
touches it. -/
def workerTurns (run : Run) (s : Store) (worker : ℕ) : List Turn :=
  if run.unlisted worker then
    [.unlisted]
  else
    let listing := realSubdirs run (s.workerNames worker)
    (if listing.truncated then [.unlisted] else []) ++
      listing.dirs.map fun name ↦ .finding (worker, name)

def turns (run : Run) (s : Store) : List Turn :=
  (List.range s.workerCount).flatMap (s.workerTurns run)

end Store

namespace MergeState

/-- Hold the keys of one parent directory's record. -/
def survey (run : Run) (s : Store) (seen : Seen) (name : String) : Seen :=
  match (s.parent.lookup name).map (readRecord run.limits) with
  | some (.ok (some record)) => seen.insert (Seen.keys record)
  | _ => seen

/-- The keys of the parent's records, and the next free id. -/
def start (run : Run) (s : Store) : MergeState where
  store := s
  seen := (realSubdirs run s.parent.keys).dirs.foldl (survey run s) []
  ids := .new s.parent.keys "F-"
  report := ⟨[], 0, 0, 0⟩
  halted := false

/-- One worker finding with a readable record. -/
def mergeRecord (run : Run) (st : MergeState) (src : Source) (dir : FindingDir)
    (record : Record) : MergeState :=
  let keys := Seen.keys record
  let resume := resumable st.ids st.store.parent record
  if resume.isNone ∧ st.seen.holds keys then
    { st with
      seen := st.seen.insert keys
      report := { st.report with duplicates := st.report.duplicates + 1 } }
  else
    match mergeOne run st.store st.ids src dir record resume with
    | (store, ids, some id) =>
      { st with
        store, ids
        seen := st.seen.insert keys
        report := { st.report with merged := st.report.merged ++ [id] } }
    | (store, ids, none) =>
      { st with
        store, ids
        report := { st.report with failed := st.report.failed + 1 }
        halted := (run.fault src).any Fault.crash }

/-- One worker finding. -/
def mergeFinding (run : Run) (st : MergeState) (src : Source) : MergeState :=
  match st.store.workers.lookup src with
  | none => st
  | some dir =>
    match readRecord run.limits dir with
    | .error _ =>
      { st with report := { st.report with unreadable := st.report.unreadable + 1 } }
    | .ok none => st
    | .ok (some record) => st.mergeRecord run src dir record

def turn (run : Run) (st : MergeState) : Turn → MergeState
  | .unlisted =>
    if st.halted then st
    else { st with report := { st.report with failed := st.report.failed + 1 } }
  | .finding src => if st.halted then st else st.mergeFinding run src

end MergeState

/-- One run of the merge. -/
def mergeWith (run : Run) (s : Store) : MergeState :=
  (s.turns run).foldl (MergeState.turn run) (.start run s)

/-- One run after another. -/
def mergeAll (runs : List Run) (s : Store) : Store :=
  runs.foldl (fun s run ↦ (mergeWith run s).store) s

end Bhf.MulticoreFuzz
