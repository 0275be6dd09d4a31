import Bhf.Lib.Folds
import Bhf.Lib.Lookup
import Bhf.Lib.StateExcept
import Bhf.Lib.Text
import Mathlib.Data.Finset.Basic
import Mathlib.Data.List.Sort
import Mathlib.Algebra.Ring.Nat

/-!
# The sync of the worker corpora

`sync_worker_corpora` brings what the workers of a campaign found back into the shared queue. A
content that is known there is counted as a duplicate. Any other is written under the name it has in
the worker's queue, or, if that name is taken, under `worker-<id>-<name>`. **The second name is not
looked up before it is written**, and a sync that left it behind may have been followed by another.

A queue is a map from file names to contents. What the file system answers is a parameter: a file of
the shared queue that cannot be read is passed over, every other failure ends the sync with an
error, and nothing is said about the queue it leaves.

`Faithful` is what a sync is for: no content and no file is lost, nothing known is imported, what is
imported has a file of its own, and every file is counted. It is kept **exactly if** no second name
that is used is taken and no content is known from unreadable files only
(`syncWorkerCorpora_faithful_iff`). Every import that is not an overwrite keeps `Kept`; the number
of files tells an overwrite from an import that adds a file.
-/

namespace Bhf.MulticoreFuzz

open List AList

/-! ### Queues -/

/-- The bytes of a file name. -/
abbrev FileName :=
  Bytes

/-- A queue directory: its files by name. A directory that does not exist has none. -/
abbrev Queue :=
  AList fun _ : FileName ↦ Bytes

abbrev QueueFile :=
  Sigma fun _ : FileName ↦ Bytes

/-- The files of a queue in the order of their names. -/
def queueSeedFiles (queue : Queue) : List QueueFile :=
  queue.entries.insertionSort fun a b ↦ a.1 ≤ b.1

/-- The distinct contents of a queue. -/
def contents (queue : Queue) : Set Bytes :=
  {bytes | ∃ name, queue.lookup name = some bytes}

variable {queue : Queue}

theorem mem_queueSeedFiles {file : QueueFile} :
    file ∈ queueSeedFiles queue ↔ queue.lookup file.1 = some file.2 := by
  rw [queueSeedFiles, mem_insertionSort]
  exact mem_lookup_iff.symm

theorem mem_contents_iff {bytes : Bytes} :
    bytes ∈ contents queue ↔ ∃ file ∈ queueSeedFiles queue, file.2 = bytes := by
  refine ⟨fun ⟨name, hname⟩ ↦ ⟨⟨name, bytes⟩, mem_queueSeedFiles.mpr hname, rfl⟩, ?_⟩
  rintro ⟨file, hfile, rfl⟩
  exact ⟨file.1, mem_queueSeedFiles.mp hfile⟩

/-! ### The sync -/

section Model

variable {ε : Type}

/-- The files of the shared queue, over what the worker has under their names; `copy` is what the
file system answers. -/
def copySharedQueueToWorker (copy : FileName → Except ε Unit) (sharedQueue workerQueue : Queue) :
    Except ε Queue :=
  (queueSeedFiles sharedQueue).foldlM (fun queue file ↦ do
    copy file.1
    pure (queue.insert file.1 file.2)) workerQueue

/-- What the file system answers for the shared queue. -/
structure Disk (ε : Type) where
  createSharedQueue : Except ε Unit
  listSharedQueue : Except ε Unit
  /-- Which of the files can be read. -/
  readsShared : FileName → Bool
  /-- The answer to writing a content under a name. -/
  write : FileName → Bytes → Except ε Unit

/-- A worker: the id of its report, and the queue below its work directory with what the file system
answers for it. -/
structure SyncWorker (ε : Type) where
  workerId : UInt32
  queue : Queue
  list : Except ε Unit
  read : FileName → Except ε Unit

structure CorpusSyncReport where
  sharedQueue : List String
  seedInputsLoaded : ℕ
  importedInputs : ℕ
  duplicateInputs : ℕ

/-- The shared queue and the local variables of the sync. -/
structure SyncState where
  shared : Queue
  seen : Finset Bytes
  importedInputs : ℕ
  duplicateInputs : ℕ

/-- The name of last resort; `lossy` is `OsStr::to_string_lossy`. -/
def workerName (lossy : FileName → FileName) (workerId : UInt32) (name : FileName) : FileName :=
  utf8Bytes ("worker-" ++ toString workerId ++ "-") ++ lossy name

def destination (lossy : FileName → FileName) (shared : Queue) (workerId : UInt32)
    (name : FileName) : FileName :=
  if name ∈ shared then workerName lossy workerId name else name

/-- The contents of the shared files that can be read. -/
def seenContents (disk : Disk ε) (shared : Queue) : Finset Bytes :=
  (queueSeedFiles shared).foldl
    (fun seen file ↦ if disk.readsShared file.1 then insert file.2 seen else seen) ∅

def SyncState.start (disk : Disk ε) (shared : Queue) : SyncState :=
  ⟨shared, seenContents disk shared, 0, 0⟩

def syncFile (disk : Disk ε) (lossy : FileName → FileName) (worker : SyncWorker ε) (s : SyncState)
    (file : QueueFile) : Except ε SyncState := do
  worker.read file.1
  if file.2 ∈ s.seen then
    pure { s with duplicateInputs := s.duplicateInputs + 1 }
  else
    let target := destination lossy s.shared worker.workerId file.1
    disk.write target file.2
    pure { s with
      shared := s.shared.insert target file.2
      seen := insert file.2 s.seen
      importedInputs := s.importedInputs + 1 }

def syncWorker (disk : Disk ε) (lossy : FileName → FileName) (s : SyncState)
    (worker : SyncWorker ε) : Except ε SyncState := do
  worker.list
  (queueSeedFiles worker.queue).foldlM (syncFile disk lossy worker) s

def syncWorkerCorpora (disk : Disk ε) (lossy : FileName → FileName) (workDir : List String)
    (harnessId : String) (perWorker : List (SyncWorker ε)) (seedInputsLoaded : ℕ)
    (sharedQueue : Queue) : Except ε (CorpusSyncReport × Queue) := do
  disk.createSharedQueue
  disk.listSharedQueue
  let s ← perWorker.foldlM (syncWorker disk lossy) (SyncState.start disk sharedQueue)
  pure (⟨workDir ++ ["corpus", harnessId, "queue"], seedInputsLoaded, s.importedInputs,
    s.duplicateInputs⟩, s.shared)

/-! ### A successful sync is a fold over the files -/

/-- What the sync does with one file of a worker, if nothing fails. -/
def importFile (lossy : FileName → FileName) (s : SyncState) (file : UInt32 × QueueFile) :
    SyncState :=
  if file.2.2 ∈ s.seen then
    { s with duplicateInputs := s.duplicateInputs + 1 }
  else
    { s with
      shared := s.shared.insert (destination lossy s.shared file.1 file.2.1) file.2.2
      seen := insert file.2.2 s.seen
      importedInputs := s.importedInputs + 1 }

/-- The files of all workers in the order in which the sync meets them. -/
def visited (perWorker : List (SyncWorker ε)) : List (UInt32 × QueueFile) :=
  perWorker.flatMap fun worker ↦
    (queueSeedFiles worker.queue).map fun file ↦ (worker.workerId, file)

/-- The distinct contents of the worker queues. -/
def workerContents (perWorker : List (SyncWorker ε)) : Set Bytes :=
  {bytes | ∃ worker ∈ perWorker, bytes ∈ contents worker.queue}

variable {disk : Disk ε} {lossy : FileName → FileName} {perWorker : List (SyncWorker ε)}
  {shared : Queue} {s : SyncState} {file : UInt32 × QueueFile} {known : Finset Bytes}
  {worker : SyncWorker ε} {s' : SyncState} {workDir : List String} {harnessId : String}
  {seedInputsLoaded : ℕ} {report : CorpusSyncReport} {shared' : Queue} {bytes : Bytes}
  {files : List (UInt32 × QueueFile)} {copy : FileName → Except ε Unit}

theorem syncFile_eq_ok {file : QueueFile} (h : syncFile disk lossy worker s file = .ok s') :
    s' = importFile lossy s (worker.workerId, file) := by
  obtain ⟨-, -, h⟩ := ok_of_bind h
  rw [importFile]
  split at h
  · next hseen =>
    rw [if_pos hseen]
    exact (Except.ok.inj h).symm
  · next hseen =>
    rw [if_neg hseen]
    obtain ⟨-, -, h⟩ := ok_of_bind h
    exact (Except.ok.inj h).symm

/-- **A successful sync** has met every file of every worker, in order. -/
theorem syncWorkerCorpora_eq_ok
    (h : syncWorkerCorpora disk lossy workDir harnessId perWorker seedInputsLoaded shared =
      .ok (report, shared')) :
    ∃ s, s = (visited perWorker).foldl (importFile lossy) (SyncState.start disk shared) ∧
      shared' = s.shared ∧ report.importedInputs = s.importedInputs ∧
      report.duplicateInputs = s.duplicateInputs := by
  obtain ⟨-, -, h⟩ := ok_of_bind h
  obtain ⟨-, -, h⟩ := ok_of_bind h
  obtain ⟨s, hs, h⟩ := ok_of_bind h
  obtain ⟨⟩ := h
  refine ⟨s, ?_, rfl, rfl, rfl⟩
  rw [visited, foldl_flatMap]
  refine foldlM_eq_ok (fun _ _ _ h ↦ ?_) hs
  obtain ⟨-, -, h⟩ := ok_of_bind h
  rw [foldl_map]
  exact foldlM_eq_ok (fun _ _ _ ↦ syncFile_eq_ok) h

theorem exists_mem_visited_iff :
    (∃ file ∈ visited perWorker, file.2.2 = bytes) ↔ bytes ∈ workerContents perWorker := by
  simp only [visited, workerContents, Set.mem_ofPred_eq, mem_contents_iff, mem_flatMap, mem_map]
  constructor
  · rintro ⟨_, ⟨worker, hworker, file, hfile, rfl⟩, rfl⟩
    exact ⟨worker, hworker, file, hfile, rfl⟩
  · rintro ⟨worker, hworker, file, hfile, rfl⟩
    exact ⟨_, ⟨worker, hworker, file, hfile, rfl⟩, rfl⟩

theorem length_visited :
    (visited perWorker).length = (perWorker.map fun worker ↦ worker.queue.keys.length).sum := by
  simp [visited, queueSeedFiles, length_flatMap, length_insertionSort, AList.keys, List.keys]

theorem mem_seenContents :
    bytes ∈ seenContents disk shared ↔
      ∃ name, disk.readsShared name ∧ shared.lookup name = some bytes := by
  have hfold : ∀ (files : List QueueFile) (seen : Finset Bytes),
      bytes ∈ files.foldl (fun seen file ↦
        if disk.readsShared file.1 then insert file.2 seen else seen) seen ↔
        bytes ∈ seen ∨ ∃ file ∈ files, disk.readsShared file.1 ∧ file.2 = bytes := by
    intro files
    induction files with
    | nil => simp
    | cons file files ih =>
      intro seen
      rw [foldl_cons, ih]
      split
      · next hreads =>
        simp only [Finset.mem_insert, mem_cons, exists_eq_or_imp, hreads, true_and]
        rw [or_left_comm, or_assoc, eq_comm]
      · next hreads => simp [hreads]
  rw [seenContents, hfold]
  constructor
  · rintro (h | ⟨file, hfile, hreads, rfl⟩)
    · exact absurd h (Finset.notMem_empty _)
    · exact ⟨file.1, hreads, mem_queueSeedFiles.mp hfile⟩
  · rintro ⟨name, hreads, hname⟩
    exact .inr ⟨⟨name, bytes⟩, mem_queueSeedFiles.mpr hname, hreads, rfl⟩

/-! ### One file -/

theorem destination_mem_iff {workerId : UInt32} {name : FileName} :
    destination lossy shared workerId name ∈ shared ↔
      name ∈ shared ∧ workerName lossy workerId name ∈ shared := by
  rw [destination]
  split
  · next hname => exact (and_iff_right hname).symm
  · next hname => exact iff_of_false hname fun h ↦ hname h.1

theorem importFile_of_mem (h : file.2.2 ∈ s.seen) :
    importFile lossy s file = { s with duplicateInputs := s.duplicateInputs + 1 } :=
  if_pos h

theorem importFile_of_not_mem (h : file.2.2 ∉ s.seen) :
    importFile lossy s file =
      { s with
        shared := s.shared.insert (destination lossy s.shared file.1 file.2.1) file.2.2
        seen := insert file.2.2 s.seen
        importedInputs := s.importedInputs + 1 } :=
  if_neg h

/-- Every file is counted once, and every content is known afterwards. -/
theorem foldl_importFile_seen (lossy : FileName → FileName) (files : List (UInt32 × QueueFile))
    (s : SyncState) :
    (∀ bytes, bytes ∈ (files.foldl (importFile lossy) s).seen ↔
      bytes ∈ s.seen ∨ ∃ file ∈ files, file.2.2 = bytes) ∧
    (files.foldl (importFile lossy) s).importedInputs +
        (files.foldl (importFile lossy) s).duplicateInputs =
      s.importedInputs + s.duplicateInputs + files.length := by
  induction files generalizing s with
  | nil => simp
  | cons file files ih =>
    rw [foldl_cons]
    obtain ⟨hseen, hcount⟩ := ih (importFile lossy s file)
    by_cases hmem : file.2.2 ∈ s.seen
    · rw [importFile_of_mem hmem] at hseen hcount ⊢
      refine ⟨fun bytes ↦ ?_, ?_⟩
      · rw [hseen]
        simp only [mem_cons, exists_eq_or_imp]
        rw [← or_assoc, or_iff_left_of_imp fun h : file.2.2 = bytes ↦ (h ▸ hmem : bytes ∈ s.seen)]
      · rw [hcount, length_cons]
        show s.importedInputs + (s.duplicateInputs + 1) + files.length = _
        omega
    · rw [importFile_of_not_mem hmem] at hseen hcount ⊢
      refine ⟨fun bytes ↦ ?_, ?_⟩
      · rw [hseen]
        simp only [Finset.mem_insert, mem_cons, exists_eq_or_imp]
        rw [or_left_comm, or_assoc, eq_comm]
      · rw [hcount, length_cons]
        show s.importedInputs + 1 + s.duplicateInputs + files.length = _
        omega

/-! ### Workers that found nothing -/

theorem contents_copySharedQueueToWorker {workerQueue queue : Queue}
    (h : copySharedQueueToWorker copy shared workerQueue = .ok queue) :
    contents queue ⊆ contents workerQueue ∪ contents shared := by
  have hrun := foldlM_eq_ok (f := fun (queue : Queue) (file : QueueFile) ↦
    queue.insert file.1 file.2) (fun _ _ _ hstep ↦ by
      obtain ⟨-, -, hstep⟩ := ok_of_bind hstep
      exact (Except.ok.inj hstep).symm) h
  rw [hrun]
  refine foldlRecOn (motive := (contents · ⊆ _)) _ _ Set.subset_union_left ?_
  rintro _ hqueue file hfile bytes ⟨name, hname⟩
  by_cases heq : name = file.1
  · rw [heq, lookup_insert] at hname
    exact .inr (mem_contents_iff.mpr ⟨file, hfile, Option.some.inj hname⟩)
  · exact hqueue ⟨name, (lookup_insert_ne heq).symm.trans hname⟩

/-- **What was copied to the workers does not come back**: a sync with workers that hold nothing but
the copies leaves the shared queue as it is, if that can be read. -/
theorem syncWorkerCorpora_of_copies (hreads : ∀ name ∈ shared, disk.readsShared name)
    (hcopies : ∀ worker ∈ perWorker, copySharedQueueToWorker copy shared ∅ = .ok worker.queue)
    (h : syncWorkerCorpora disk lossy workDir harnessId perWorker seedInputsLoaded shared =
      .ok (report, shared')) :
    shared' = shared ∧ report.importedInputs = 0 := by
  obtain ⟨s, rfl, rfl, himported, -⟩ := syncWorkerCorpora_eq_ok h
  rw [himported]
  -- every file is a duplicate: only their number changes
  refine (foldlRecOn (motive := fun s : SyncState ↦ s.seen = seenContents disk shared ∧
    s.shared = shared ∧ s.importedInputs = 0) _ _ ⟨rfl, rfl, rfl⟩ fun s hs file hfile ↦ ?_).2
  have hseen : file.2.2 ∈ s.seen := by
    rw [hs.1]
    obtain ⟨worker, hworker, hbytes⟩ := exists_mem_visited_iff.mp ⟨file, hfile, rfl⟩
    rcases contents_copySharedQueueToWorker (hcopies worker hworker) hbytes with ⟨_, h⟩ | ⟨name, h⟩
    · simp at h
    · exact mem_seenContents.mpr ⟨name, hreads name (lookup_isSome.mp (by rw [h]; rfl)), h⟩
  rwa [importFile_of_mem hseen]

/-! ### Overwrites -/

/-- The content is new, and both names it could take are taken. -/
def Overwrites (lossy : FileName → FileName) (s : SyncState) (file : UInt32 × QueueFile) : Prop :=
  file.2.2 ∉ s.seen ∧ file.2.1 ∈ s.shared ∧ workerName lossy file.1 file.2.1 ∈ s.shared

/-- **The number of files tells whether something was overwritten**: every import adds a file to the
shared queue, unless it writes over one. -/
theorem length_keys_foldl_importFile_iff (lossy : FileName → FileName)
    (files : List (UInt32 × QueueFile)) (s : SyncState) {n : ℕ}
    (hs : s.shared.keys.length = n + s.importedInputs) :
    (files.foldl (importFile lossy) s).shared.keys.length =
        n + (files.foldl (importFile lossy) s).importedInputs ↔
      Along (importFile lossy) s files fun s file ↦ ¬Overwrites lossy s file := by
  have hstep (s : SyncState) (file : UInt32 × QueueFile) :
      ∃ added, (importFile lossy s file).importedInputs = s.importedInputs + added ∧
        ((importFile lossy s file).shared.keys.length = s.shared.keys.length + added ∧
            ¬Overwrites lossy s file ∨
          (importFile lossy s file).shared.keys.length = s.shared.keys.length ∧ added = 1 ∧
            Overwrites lossy s file) := by
    by_cases hmem : file.2.2 ∈ s.seen
    · rw [importFile_of_mem hmem]
      exact ⟨0, rfl, .inl ⟨rfl, fun h ↦ h.1 hmem⟩⟩
    · rw [importFile_of_not_mem hmem]
      by_cases hdest : destination lossy s.shared file.1 file.2.1 ∈ s.shared
      · refine ⟨1, rfl, .inr ⟨?_, rfl, hmem, destination_mem_iff.mp hdest⟩⟩
        exact (length_keys_insert _ _ _).trans (if_pos hdest)
      · refine ⟨1, rfl, .inl ⟨?_, fun h ↦ hdest (destination_mem_iff.mpr h.2)⟩⟩
        exact (length_keys_insert _ _ _).trans (if_neg hdest)
  refine (good_foldl_iff (fun s ↦ s.shared.keys.length ≤ n + s.importedInputs)
    (fun s ↦ s.shared.keys.length = n + s.importedInputs) (fun _ _ ↦ True) (Overwrites lossy)
    (fun s file hle ↦ ?_) (fun s file hle _ ↦ ?_) hs.le fun _ _ _ _ ↦ trivial).trans
    (and_iff_right hs)
  · obtain ⟨added, himported, ⟨hkeys, -⟩ | ⟨hkeys, -⟩⟩ := hstep s file <;> omega
  · obtain ⟨added, himported, ⟨hkeys, hnot⟩ | ⟨hkeys, rfl, hover⟩⟩ := hstep s file
    · rw [hkeys, himported, and_iff_left hnot]
      omega
    · exact iff_of_false (by omega) fun h ↦ h.2 hover

/-! ### What a sync without overwrites keeps -/

/-- What has become of the shared queue. -/
structure Kept (shared : Queue) (known : Finset Bytes) (s : SyncState) : Prop where
  /-- No file is lost or changed. -/
  unchanged : ∀ name bytes, shared.lookup name = some bytes → s.shared.lookup name = some bytes
  /-- A new file holds a new content. -/
  imported : ∀ name bytes, name ∉ shared → s.shared.lookup name = some bytes →
    bytes ∈ s.seen ∧ bytes ∉ known
  /-- A new content has one file. -/
  stored : ∀ bytes ∈ s.seen, bytes ∉ known → ∃! name, name ∉ shared ∧
    s.shared.lookup name = some bytes

theorem Kept.start (disk : Disk ε) (shared : Queue) :
    Kept shared (seenContents disk shared) (SyncState.start disk shared) where
  unchanged _ _ h := h
  imported name bytes hname h := by
    have hnone : shared.lookup name = none := lookup_eq_none.mpr hname
    exact absurd (hnone.symm.trans h) (by simp)
  stored _ hseen hnot := absurd hseen hnot

theorem Kept.step (hs : Kept shared known s) (hsub : known ⊆ s.seen)
    (hfree : ¬Overwrites lossy s file) : Kept shared known (importFile lossy s file) := by
  by_cases hmem : file.2.2 ∈ s.seen
  · rw [importFile_of_mem hmem]
    exact ⟨hs.unchanged, hs.imported, hs.stored⟩
  rw [importFile_of_not_mem hmem]
  set target := destination lossy s.shared file.1 file.2.1 with htarget
  have hnot : target ∉ s.shared := fun h ↦ hfree ⟨hmem, destination_mem_iff.mp h⟩
  have hold : ∀ name bytes, s.shared.lookup name = some bytes → name ≠ target := by
    rintro name bytes h rfl
    exact hnot (lookup_isSome.mp (by rw [h]; rfl))
  have hnew : target ∉ shared := by
    intro h
    obtain ⟨bytes, hbytes⟩ := Option.isSome_iff_exists.mp (lookup_isSome.mpr h)
    exact hold target bytes (hs.unchanged target bytes hbytes) rfl
  refine ⟨fun name bytes h ↦ ?_, fun name bytes hname h ↦ ?_, fun bytes hseen hknown ↦ ?_⟩
  · have h' := hs.unchanged name bytes h
    exact (lookup_insert_ne (hold name bytes h')).trans h'
  · by_cases heq : name = target
    · obtain rfl : file.2.2 = bytes :=
        Option.some.inj ((lookup_insert s.shared).symm.trans (heq ▸ h))
      exact ⟨Finset.mem_insert_self _ _, fun h ↦ hmem (hsub h)⟩
    · obtain ⟨hseen, hknown⟩ := hs.imported name bytes hname ((lookup_insert_ne heq).symm.trans h)
      exact ⟨Finset.mem_insert_of_mem hseen, hknown⟩
  · rcases Finset.mem_insert.mp hseen with rfl | hseen
    · refine ⟨target, ⟨hnew, lookup_insert _⟩, fun name ⟨hname, h⟩ ↦ ?_⟩
      by_contra heq
      exact hmem (hs.imported name _ hname ((lookup_insert_ne heq).symm.trans h)).1
    · obtain ⟨name, ⟨hname, h⟩, huniq⟩ := hs.stored bytes hseen hknown
      refine ⟨name, ⟨hname, (lookup_insert_ne (hold name bytes h)).trans h⟩, ?_⟩
      rintro name' ⟨hname', h'⟩
      by_cases heq : name' = target
      · obtain rfl : file.2.2 = bytes :=
          Option.some.inj ((lookup_insert s.shared).symm.trans (heq ▸ h'))
        exact absurd hseen hmem
      · exact huniq name' ⟨hname', (lookup_insert_ne heq).symm.trans h'⟩

theorem subset_importFile_seen (hsub : known ⊆ s.seen) :
    known ⊆ (importFile lossy s file).seen := by
  rw [importFile]
  split
  · exact hsub
  · exact hsub.trans (Finset.subset_insert _ _)

theorem Kept.run (hfree : Along (importFile lossy) (SyncState.start disk shared) files
      fun s file ↦ ¬Overwrites lossy s file) :
    Kept shared (seenContents disk shared)
      (files.foldl (importFile lossy) (SyncState.start disk shared)) :=
  (foldl_invariant_along
    (fun s ↦ Kept shared _ s ∧ seenContents disk shared ⊆ s.seen)
    (fun _ _ hs hstep ↦ ⟨hs.1.step hs.2 hstep, subset_importFile_seen hs.2⟩)
    ⟨.start disk shared, Finset.Subset.refl _⟩ hfree).1

/-- What the shared queue holds is what it held and what has become known. -/
theorem Kept.mem_contents_iff (hs : Kept shared known s)
    (hknown : ∀ bytes ∈ known, bytes ∈ contents shared) (bytes : Bytes) :
    bytes ∈ contents s.shared ↔ bytes ∈ contents shared ∨ bytes ∈ s.seen := by
  have hold (h : bytes ∈ contents shared) : bytes ∈ contents s.shared := by
    obtain ⟨name, hname⟩ := h
    exact ⟨name, hs.unchanged name bytes hname⟩
  constructor
  · rintro ⟨name, hname⟩
    rcases h : shared.lookup name with - | bytes'
    · exact .inr (hs.imported name bytes (lookup_eq_none.mp h) hname).1
    · obtain rfl : bytes' = bytes :=
        Option.some.inj ((hs.unchanged name bytes' h).symm.trans hname)
      exact .inl ⟨name, h⟩
  · rintro (h | h)
    · exact hold h
    · by_cases hmem : bytes ∈ known
      · exact hold (hknown bytes hmem)
      · obtain ⟨name, ⟨-, hname⟩, -⟩ := hs.stored bytes h hmem
        exact ⟨name, hname⟩

/-! ### Faithful syncs -/

/-- **What a sync is for.** -/
structure Faithful (shared : Queue) (perWorker : List (SyncWorker ε)) (report : CorpusSyncReport)
    (shared' : Queue) : Prop where
  /-- No content is lost and none is invented. -/
  contents_eq : contents shared' = contents shared ∪ workerContents perWorker
  /-- No file is changed. -/
  unchanged : ∀ name bytes, shared.lookup name = some bytes → shared'.lookup name = some bytes
  /-- A new file holds a content that was not there. -/
  new : ∀ name bytes, name ∉ shared → shared'.lookup name = some bytes → bytes ∉ contents shared
  /-- A content that was not there has exactly one new file. -/
  once : ∀ bytes ∈ workerContents perWorker, bytes ∉ contents shared →
    ∃! name, name ∉ shared ∧ shared'.lookup name = some bytes
  /-- Every imported input is one more file. -/
  imported : shared'.keys.length = shared.keys.length + report.importedInputs
  /-- Every file of a worker is counted. -/
  counted : report.importedInputs + report.duplicateInputs =
    (perWorker.map fun worker ↦ worker.queue.keys.length).sum

/-- **A sync is faithful exactly if** every shared content that a worker also holds is in a shared
file that can be read, and whenever the name of a new content is taken, the worker name is free. -/
theorem syncWorkerCorpora_faithful_iff {workDir : List String} {harnessId : String}
    {seedInputsLoaded : ℕ} {report : CorpusSyncReport} {shared' : Queue}
    (h : syncWorkerCorpora disk lossy workDir harnessId perWorker seedInputsLoaded shared =
      .ok (report, shared')) :
    Faithful shared perWorker report shared' ↔
      (∀ bytes ∈ workerContents perWorker, bytes ∈ contents shared →
        ∃ name, disk.readsShared name = true ∧ shared.lookup name = some bytes) ∧
      Along (importFile lossy) (SyncState.start disk shared) (visited perWorker) fun s file ↦
        file.2.2 ∉ s.seen → file.2.1 ∈ s.shared → workerName lossy file.1 file.2.1 ∉ s.shared := by
  obtain ⟨s, hs, rfl, himported, hduplicate⟩ := syncWorkerCorpora_eq_ok h
  obtain ⟨hseen, hcount⟩ :=
    foldl_importFile_seen lossy _ _
  rw [← hs] at hseen hcount
  have hgrows := length_keys_foldl_importFile_iff lossy (visited perWorker)
    (SyncState.start disk shared) (n := shared.keys.length) rfl
  rw [← hs] at hgrows
  have hrun (h : Along (importFile lossy) (SyncState.start disk shared) (visited perWorker)
      fun s file ↦ ¬Overwrites lossy s file) := hs ▸ Kept.run h
  simp only [Overwrites, not_and] at hgrows hrun
  -- the contents that have become known are those of the workers
  have hknown (bytes : Bytes) : bytes ∈ s.seen ↔
      bytes ∈ seenContents disk shared ∨ bytes ∈ workerContents perWorker := by
    rw [hseen, exists_mem_visited_iff]
    rfl
  have hcontents (bytes : Bytes) (hbytes : bytes ∈ seenContents disk shared) :
      bytes ∈ contents shared := by
    obtain ⟨name, -, hname⟩ := mem_seenContents.mp hbytes
    exact ⟨name, hname⟩
  constructor
  · intro hf
    have hwrites := hgrows.mp (himported ▸ hf.imported)
    refine ⟨fun bytes hworker hshared ↦ mem_seenContents.mp ?_, hwrites⟩
    have hkept := hrun hwrites
    by_contra hnot
    obtain ⟨name, ⟨hname, hlookup⟩, -⟩ :=
      hkept.stored bytes ((hknown bytes).mpr (.inr hworker)) hnot
    exact hf.new name bytes hname hlookup hshared
  · rintro ⟨hreads, hwrites⟩
    have hkept := hrun hwrites
    have hnew (bytes : Bytes) (hworker : bytes ∈ workerContents perWorker)
        (hnot : bytes ∉ seenContents disk shared) : bytes ∉ contents shared :=
      fun hshared ↦ hnot (mem_seenContents.mpr (hreads bytes hworker hshared))
    have hof (name : FileName) (bytes : Bytes) (hname : name ∉ shared)
        (h : s.shared.lookup name = some bytes) :
        bytes ∈ workerContents perWorker ∧ bytes ∉ seenContents disk shared := by
      obtain ⟨hmem, hnot⟩ := hkept.imported name bytes hname h
      exact ⟨((hknown bytes).mp hmem).resolve_left hnot, hnot⟩
    refine ⟨?_, hkept.unchanged, fun name bytes hname h ↦ ?_, fun bytes hworker hnot ↦ ?_,
      himported ▸ hgrows.mpr hwrites, ?_⟩
    · ext bytes
      rw [hkept.mem_contents_iff hcontents, hknown, ← or_assoc]
      exact or_congr_left (or_iff_left_of_imp (hcontents bytes))
    · obtain ⟨hworker, hnot⟩ := hof name bytes hname h
      exact hnew bytes hworker hnot
    · exact hkept.stored bytes ((hknown bytes).mpr (.inr hworker)) fun h ↦ hnot (hcontents bytes h)
    · rw [himported, hduplicate, ← length_visited, hcount]
      show 0 + 0 + _ = _
      omega

/-- A file system on which nothing fails. -/
def Disk.sound : Disk ε :=
  ⟨.ok (), .ok (), fun _ ↦ true, fun _ _ ↦ .ok ()⟩

/-- A worker on such a file system. -/
def SyncWorker.sound (workerId : UInt32) (queue : Queue) : SyncWorker ε :=
  ⟨workerId, queue, .ok (), fun _ ↦ .ok ()⟩

/-- A queue of two files. -/
def twoFiles : Queue :=
  (AList.singleton [97] [1]).insert [98] [2]

/-- Two workers that hold only copies of them. -/
theorem syncWorkerCorpora_copied :
    ∃ report shared', syncWorkerCorpora (Disk.sound : Disk Empty) id [] "h"
        [.sound 0 twoFiles, .sound 1 twoFiles] 2 twoFiles = .ok (report, shared') ∧
      shared' = twoFiles ∧ report.importedInputs = 0 := by
  have hcopy : copySharedQueueToWorker (fun _ ↦ (.ok () : Except Empty Unit)) twoFiles ∅ =
    .ok twoFiles := rfl
  exact ⟨_, _, rfl, @syncWorkerCorpora_of_copies Empty .sound id
    [.sound 0 twoFiles, .sound 1 twoFiles] twoFiles [] "h" 2 _ _ (fun _ ↦ .ok ()) (fun _ _ ↦ rfl)
    (by simp [SyncWorker.sound, hcopy]) rfl⟩

/-- The name is taken, the worker name is free: the new content is stored beside the old one. -/
theorem syncWorkerCorpora_faithful_renamed :
    ∃ report shared', syncWorkerCorpora (Disk.sound : Disk Empty) id [] "h"
        [.sound 0 (AList.singleton [97] [2])] 1 (AList.singleton [97] [1]) = .ok (report, shared') ∧
      Faithful (AList.singleton [97] [1])
        [(.sound 0 (AList.singleton [97] [2]) : SyncWorker Empty)] report shared' := by
  have hrun : syncWorkerCorpora (Disk.sound : Disk Empty) id [] "h"
      [.sound 0 (singleton [97] [2])] 1 (singleton [97] [1]) = .ok (_, _) := rfl
  refine ⟨_, _, hrun, (syncWorkerCorpora_faithful_iff hrun).mpr ⟨?_, ?_⟩⟩
  · rintro bytes - ⟨name, hname⟩
    exact ⟨name, rfl, hname⟩
  · refine along_cons.mpr ⟨fun _ _ ↦ ?_, along_nil⟩
    decide +kernel

/-- An earlier sync has left `worker-0-a`; the next content that worker 0 has under the name `a` is
written over it. -/
theorem syncWorkerCorpora_overwrites :
    ∃ report shared', syncWorkerCorpora (Disk.sound : Disk Empty) id [] "h"
        [.sound 0 (AList.singleton [97] [3])] 2
        ((AList.singleton [97] [1]).insert (utf8Bytes "worker-0-a") [2]) = .ok (report, shared') ∧
      ¬Faithful ((AList.singleton [97] [1]).insert (utf8Bytes "worker-0-a") [2])
        [(.sound 0 (AList.singleton [97] [3]) : SyncWorker Empty)] report shared' := by
  refine ⟨_, _, rfl, fun h ↦ ?_⟩
  have hkept := h.unchanged (utf8Bytes "worker-0-a") [2] (by decide +kernel)
  revert hkept
  decide +kernel

end Model

end Bhf.MulticoreFuzz
