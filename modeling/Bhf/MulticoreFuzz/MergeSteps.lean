import Bhf.Lib.Spans
import Bhf.MulticoreFuzz.Merge

/-!
# The steps of a merge

A merge changes what matters of the findings in four ways only: not at all, by an intent, by moving
files to where an intent points, and by a commit (`Step`). Each is given by what it does to the
records and files that can be seen of a store, with everything else unchanged.

Two things hold along any sequence of steps, wherever it breaks off. **Every intent belongs to one
worker finding** and names a directory of the parent (`Owned`). **No finding and no file is lost**
(`Tracks`): a file that has left a worker is in the directory its finding's intent names, so that
the directory has them all when the record arrives.
-/

namespace Bhf.MulticoreFuzz

open Bhf.Corpus Relation Store Option

/-! ### What can be seen of a store -/

/-- The same finding, before and after a merge has rewritten its id and history. -/
def RecordFile.SameFinding (file file₀ : RecordFile) : Prop :=
  file.parsed.map Record.body = file₀.parsed.map Record.body

/-- A regular file, other than what an intent rewrite may have left. -/
def FindingDir.Has (dir : FindingDir) (path : Path) (content : Bytes) : Prop :=
  path ≠ recordTmp ∧ dir.files.lookup path = some (.regular content)

namespace Store

def workerRecord (s : Store) (src : Source) : Option RecordFile :=
  (s.workers.lookup src).bind FindingDir.record

/-- The record of a parent directory: the directory is committed if it has one. -/
def committed (s : Store) (id : String) : Option RecordFile :=
  (s.parent.lookup id).bind FindingDir.record

def WorkerHas (s : Store) (src : Source) (path : Path) (content : Bytes) : Prop :=
  ∃ dir, s.workers.lookup src = some dir ∧ dir.Has path content

def ParentHas (s : Store) (id : String) (path : Path) (content : Bytes) : Prop :=
  ∃ dir, s.parent.lookup id = some dir ∧ dir.Has path content

/-- The parent id that a worker finding's record carries as an intent. -/
def intent (s : Store) (src : Source) : Option String :=
  ((s.workerRecord src).bind RecordFile.parsed).bind fun record ↦
    if carriesIntent record then record.id else none

/-- No two committed records of one harness share a crash key. -/
def OnePerCrash (s : Store) : Prop :=
  ∀ id id' file file' record record', id ≠ id' →
    s.committed id = some file → file.parsed = some record →
    s.committed id' = some file' → file'.parsed = some record' →
    ∀ key ∈ Seen.keys record, key ∉ Seen.keys record'

end Store

theorem RecordFile.SameFinding.refl (file : RecordFile) : file.SameFinding file :=
  rfl

theorem RecordFile.SameFinding.trans {a b c : RecordFile} (hab : a.SameFinding b)
    (hbc : b.SameFinding c) : a.SameFinding c :=
  Eq.trans hab hbc

theorem body_logIntent (record : Record) (id : String) :
    (logIntent record id).body = record.body := by
  rw [logIntent]
  split <;> rfl

theorem carriesIntent_appendHistory (record : Record) :
    carriesIntent (appendHistory record intentCommand intentFields) := by
  cases h : record.history with
  | none | some history => simp [carriesIntent, appendHistory, h]

theorem carriesIntent_logIntent (record : Record) (id : String) :
    carriesIntent (logIntent record id) :=
  carriesIntent_appendHistory _

theorem id_logIntent (record : Record) (id : String) : (logIntent record id).id = some id := by
  rw [logIntent]
  split <;> rfl

/-! ### The steps of a merge -/

/-- Nothing that matters changes, but an empty parent directory may be there. -/
structure Quiet (s s' : Store) : Prop where
  /-- Records stay. -/
  record : ∀ src, s'.workerRecord src = s.workerRecord src
  /-- So do the files of the workers. -/
  has : ∀ src path content, s'.WorkerHas src path content ↔ s.WorkerHas src path content
  /-- And what the parent has. -/
  parent : ∀ id ∈ s.parent, s'.parent.lookup id = s.parent.lookup id
  /-- What is new is not committed. -/
  fresh : ∀ id ∉ s.parent, s'.committed id = none

/-- A fresh parent directory is reserved and the intent written. An older intent of the same finding
is stale: what it names is committed. -/
structure Intends (src : Source) (id : String) (s s' : Store) : Prop where
  free : id ∉ s.parent
  valid : IsFamilyId "F-" id
  stale : ∀ old, s.intent src = some old → s.committed old ≠ none
  rewritten : ∃ file record bytes, s.workerRecord src = some file ∧ file.parsed = some record ∧
    s'.workerRecord src = some ⟨bytes, some (logIntent record id)⟩
  record : ∀ src' ≠ src, s'.workerRecord src' = s.workerRecord src'
  has : ∀ src path content, s'.WorkerHas src path content ↔ s.WorkerHas src path content
  parent : ∀ id ∈ s.parent, s'.parent.lookup id = s.parent.lookup id
  fresh : ∀ id ∉ s.parent, s'.committed id = none
  reserved : id ∈ s'.parent

/-- Files of a finding move into the directory of its intent. -/
structure Moves (src : Source) (id : String) (s s' : Store) : Prop where
  intent : s.intent src = some id
  uncommitted : s.committed id = none
  record : ∀ src, s'.workerRecord src = s.workerRecord src
  has : ∀ src' ≠ src, ∀ path content,
    s'.WorkerHas src' path content ↔ s.WorkerHas src' path content
  has_of : ∀ path content, s'.WorkerHas src path content → s.WorkerHas src path content
  moved : ∀ path content, s.WorkerHas src path content →
    s'.WorkerHas src path content ∨ s'.ParentHas id path content
  kept : ∀ path content, s.ParentHas id path content → s'.ParentHas id path content ∨
    ∃ content', s.WorkerHas src path content' ∧ s'.ParentHas id path content'
  parent : ∀ id' ≠ id, s'.parent.lookup id' = s.parent.lookup id'
  still : s'.committed id = none
  exists_target : id ∈ s.parent ∧ id ∈ s'.parent

/-- The record of a finding follows its files. -/
structure Commits (src : Source) (id : String) (s s' : Store) : Prop where
  intent : s.intent src = some id
  uncommitted : s.committed id = none
  exists_target : id ∈ s.parent
  emptied : ∀ path content, ¬ s.WorkerHas src path content
  moved : ∃ file, s.workerRecord src = some file ∧ s'.committed id = some file
  gone : s'.workerRecord src = none
  record : ∀ src' ≠ src, s'.workerRecord src' = s.workerRecord src'
  has : ∀ src path content, s'.WorkerHas src path content ↔ s.WorkerHas src path content
  target : ∀ path content, s'.ParentHas id path content ↔ s.ParentHas id path content
  parent : ∀ id' ≠ id, s'.parent.lookup id' = s.parent.lookup id'

/-- A step that commits nothing. -/
def Prepares (s s' : Store) : Prop :=
  Quiet s s' ∨ ∃ src id, Intends src id s s' ∨ Moves src id s s'

/-- A step of a merge. -/
def Step (s s' : Store) : Prop :=
  Prepares s s' ∨ ∃ src id, Commits src id s s'

variable {s s' : Store} {id : String} {src : Source} {path : Path}

theorem Store.mem_parent_iff : id ∈ s.parent ↔ s.parent.lookup id ≠ none := by
  rw [Ne, AList.lookup_eq_none, not_not]

theorem Store.mem_parent_of_lookup_eq (h : s'.parent.lookup id = s.parent.lookup id)
    (hid : id ∈ s.parent) : id ∈ s'.parent := by
  rw [mem_parent_iff, h]
  exact mem_parent_iff.mp hid

theorem Store.committed_eq_of_lookup_eq (h : s'.parent.lookup id = s.parent.lookup id) :
    s'.committed id = s.committed id := by
  rw [committed, committed, h]

theorem Store.committed_of_not_mem (h : id ∉ s.parent) : s.committed id = none := by
  rw [committed, AList.lookup_eq_none.mpr h]
  rfl

theorem Store.intent_eq_of_record_eq (h : s'.workerRecord src = s.workerRecord src) :
    s'.intent src = s.intent src := by
  rw [intent, intent, h]

/-- Nothing is committed by a step that prepares. -/
theorem Prepares.committed (h : Prepares s s') (id : String) :
    s'.committed id = s.committed id := by
  rcases h with h | ⟨src, id', h | h⟩
  iterate 2
    · by_cases hid : id ∈ s.parent
      · exact committed_eq_of_lookup_eq (h.parent id hid)
      · rw [h.fresh id hid, committed_of_not_mem hid]
  · by_cases hid : id = id'
    · rw [hid, h.still, h.uncommitted]
    · exact committed_eq_of_lookup_eq (h.parent id hid)

/-- No parent directory that matters is removed. -/
theorem Step.mem_parent (h : Step s s') (hid : id ∈ s.parent) : id ∈ s'.parent := by
  rcases h with (h | ⟨src, id', h | h⟩) | ⟨src, id', h⟩
  iterate 2 · exact mem_parent_of_lookup_eq (h.parent id hid) hid
  · by_cases heq : id = id'
    · exact heq ▸ h.exists_target.2
    · exact mem_parent_of_lookup_eq (h.parent id heq) hid
  · by_cases heq : id = id'
    · subst heq
      obtain ⟨file, -, hfile⟩ := h.moved
      refine mem_parent_iff.mpr fun hnone ↦ ?_
      simp [committed, hnone] at hfile
    · exact mem_parent_of_lookup_eq (h.parent id heq) hid

/-! ### Every intent belongs to one finding -/

/-- The intents of the worker findings name directories of the parent, each its own. -/
structure Owned (s : Store) : Prop where
  /-- The directory is there. -/
  mem : ∀ src id, s.intent src = some id → id ∈ s.parent
  /-- Its name is an id. -/
  valid : ∀ src id, s.intent src = some id → IsFamilyId "F-" id
  /-- No two findings share it. -/
  inj : ∀ src src' id, s.intent src = some id → s.intent src' = some id → src = src'

theorem Intends.intent_self (h : Intends src id s s') : s'.intent src = some id := by
  obtain ⟨_, record, bytes, -, -, hnew⟩ := h.rewritten
  simp [intent, hnew, carriesIntent_logIntent, id_logIntent]

/-- A step leaves the intents of the other findings alone, and an intent of its own is kept, gone or
new. -/
theorem Step.intent_cases (h : Step s s') (hintent : s'.intent src = some id) :
    s.intent src = some id ∨ Intends src id s s' := by
  rcases h with (h | ⟨src', id', h | h⟩) | ⟨src', id', h⟩
  · exact .inl (intent_eq_of_record_eq (h.record src) ▸ hintent)
  · by_cases hsrc : src = src'
    · subst hsrc
      rw [h.intent_self] at hintent
      exact .inr (some.inj hintent ▸ h)
    · exact .inl (intent_eq_of_record_eq (h.record src hsrc) ▸ hintent)
  · exact .inl (intent_eq_of_record_eq (h.record src) ▸ hintent)
  by_cases hsrc : src = src'
  · subst hsrc
    simp [intent, h.gone] at hintent
  · exact .inl (intent_eq_of_record_eq (h.record src hsrc) ▸ hintent)

theorem Owned.step (howned : Owned s) (h : Step s s') : Owned s' where
  mem src id hintent := by
    rcases h.intent_cases hintent with hold | hnew
    · exact h.mem_parent (howned.mem src id hold)
    · exact hnew.reserved
  valid src id hintent := by
    rcases h.intent_cases hintent with hold | hnew
    · exact howned.valid src id hold
    · exact hnew.valid
  inj src src' id hintent hintent' := by
    -- A new intent names a directory that was free, and no old one does.
    rcases h.intent_cases hintent with hold | hnew
    · rcases h.intent_cases hintent' with hold' | hnew'
      · exact howned.inj src src' id hold hold'
      · exact absurd (howned.mem src id hold) hnew'.free
    · rcases h.intent_cases hintent' with hold' | hnew'
      · exact absurd (howned.mem src' id hold') hnew.free
      by_contra hne
      have hsame := intent_eq_of_record_eq (hnew.record src' (Ne.symm hne))
      rw [hintent'] at hsame
      exact hnew.free (howned.mem src' id hsame.symm)

/-! ### No finding and no file is lost -/

/-- What a store keeps of the one it came from. -/
structure Tracks (s₀ s : Store) : Prop where
  /-- A record of a worker was there. -/
  record : ∀ src file, s.workerRecord src = some file →
    ∃ file₀, s₀.workerRecord src = some file₀ ∧ file.SameFinding file₀
  /-- So was each file. -/
  has : ∀ src path content, s.WorkerHas src path content → s₀.WorkerHas src path content
  /-- A finding that waits has its files, or they are at its intent. -/
  files : ∀ src, s.workerRecord src ≠ none → ∀ path content, s₀.WorkerHas src path content →
    s.WorkerHas src path content ∨
      ∃ id, s.intent src = some id ∧ s.committed id = none ∧ s.ParentHas id path content
  /-- What is committed was before, or is a finding with its files. -/
  committed : ∀ id file, s.committed id = some file →
    s.parent.lookup id = s₀.parent.lookup id ∨
      ∃ src file₀, s₀.workerRecord src = some file₀ ∧ file.SameFinding file₀ ∧
        ∀ path content, s₀.WorkerHas src path content → s.ParentHas id path content
  /-- No finding is lost. -/
  found : ∀ src file₀, s₀.workerRecord src = some file₀ →
    (∃ file, s.workerRecord src = some file ∧ file.SameFinding file₀) ∨
      ∃ id file, s.committed id = some file ∧ file.SameFinding file₀

theorem Store.WorkerHas.unique {a b : Bytes} (ha : s.WorkerHas src path a)
    (hb : s.WorkerHas src path b) : a = b := by
  obtain ⟨dir, hdir, -, hpath⟩ := ha
  obtain ⟨dir', hdir', -, hpath'⟩ := hb
  obtain rfl : dir = dir' := some.inj (hdir.symm.trans hdir')
  rw [hpath] at hpath'
  exact FileEntry.regular.inj (some.inj hpath')

theorem Tracks.refl (s : Store) : Tracks s s where
  record _ file hfile := ⟨file, hfile, .refl file⟩
  has _ _ _ h := h
  files _ _ _ _ h := .inl h
  committed _ _ _ := .inl rfl
  found _ file hfile := .inl ⟨file, hfile, .refl file⟩

theorem Store.parentHas_iff_of_lookup_eq (h : s'.parent.lookup id = s.parent.lookup id)
    {content : Bytes} : s'.ParentHas id path content ↔ s.ParentHas id path content := by
  rw [Store.ParentHas, Store.ParentHas, h]

theorem Store.ParentHas.mem_parent {content : Bytes} (h : s.ParentHas id path content) :
    id ∈ s.parent := by
  obtain ⟨dir, hdir, -⟩ := h
  exact mem_parent_iff.mpr (by simp [hdir])

theorem Store.mem_parent_of_committed {file : RecordFile} (h : s.committed id = some file) :
    id ∈ s.parent := by
  by_contra hnot
  rw [committed_of_not_mem hnot] at h
  contradiction

namespace Tracks

variable {s₀ s s' : Store} {src : Source} {id : String}

/-- A committed directory that a step leaves alone. -/
theorem committed_of_lookup_eq {file : RecordFile} (h : Tracks s₀ s)
    (hlookup : s'.parent.lookup id = s.parent.lookup id) (hfile : s'.committed id = some file) :
    s'.parent.lookup id = s₀.parent.lookup id ∨
      ∃ src file₀, s₀.workerRecord src = some file₀ ∧ file.SameFinding file₀ ∧
        ∀ path content, s₀.WorkerHas src path content → s'.ParentHas id path content := by
  rw [committed_eq_of_lookup_eq hlookup] at hfile
  rcases h.committed id file hfile with hold | ⟨src, file₀, hfile₀, hfinding, hfiles⟩
  · exact .inl (hlookup.trans hold)
  · refine .inr ⟨src, file₀, hfile₀, hfinding, fun path content hhas ↦ ?_⟩
    exact (parentHas_iff_of_lookup_eq hlookup).mpr (hfiles path content hhas)

/-- A file that has moved ahead of its record, in a directory that a step leaves alone. -/
theorem ahead_of_lookup_eq {content : Bytes}
    (hrecord : s'.workerRecord src = s.workerRecord src)
    (hlookup : s'.parent.lookup id = s.parent.lookup id) (hintent : s.intent src = some id)
    (hnone : s.committed id = none) (hparent : s.ParentHas id path content) :
    ∃ id, s'.intent src = some id ∧ s'.committed id = none ∧ s'.ParentHas id path content :=
  ⟨id, (intent_eq_of_record_eq hrecord).trans hintent,
    (committed_eq_of_lookup_eq hlookup).trans hnone,
    (parentHas_iff_of_lookup_eq hlookup).mpr hparent⟩

theorem quiet (h : Tracks s₀ s) (hq : Quiet s s') : Tracks s₀ s' where
  record src file hfile := h.record src file (hq.record src ▸ hfile)
  has src path content hhas := h.has src path content ((hq.has src path content).mp hhas)
  files src hrecord path content hhas := by
    rw [hq.record] at hrecord
    rcases h.files src hrecord path content hhas with hworker | ⟨id, hintent, hnone, hparent⟩
    · exact .inl ((hq.has src path content).mpr hworker)
    · exact .inr (ahead_of_lookup_eq (hq.record src) (hq.parent id hparent.mem_parent) hintent hnone
        hparent)
  committed id file hfile :=
    have hold := (Prepares.committed (.inl hq) id).symm.trans hfile
    h.committed_of_lookup_eq (hq.parent id (mem_parent_of_committed hold)) hfile
  found src file₀ hfile₀ := by
    rcases h.found src file₀ hfile₀ with ⟨file, hfile, hsame⟩ | ⟨id, file, hfile, hsame⟩
    · exact .inl ⟨file, (hq.record src).trans hfile, hsame⟩
    · exact .inr ⟨id, file, (Prepares.committed (.inl hq) id).trans hfile, hsame⟩

/-- An intent: the files of the finding were all with the worker, since what an older intent names
is committed. -/
theorem intends (h : Tracks s₀ s) (hi : Intends src id s s') : Tracks s₀ s' where
  record src' file hfile := by
    by_cases hsrc : src' = src
    · subst hsrc
      obtain ⟨old, record, bytes, hold, hparsed, hnew⟩ := hi.rewritten
      obtain ⟨file₀, hfile₀, hsame⟩ := h.record src' old hold
      obtain ⟨⟩ := hnew.symm.trans hfile
      refine ⟨file₀, hfile₀, .trans ?_ hsame⟩
      show some (logIntent record id).body = old.parsed.map Record.body
      rw [hparsed, body_logIntent]
      rfl
    · exact h.record src' file (hi.record src' hsrc ▸ hfile)
  has src path content hhas := h.has src path content ((hi.has src path content).mp hhas)
  files src' hrecord path content hhas := by
    by_cases hsrc : src' = src
    · subst hsrc
      obtain ⟨old, record, bytes, hold, hparsed, hnew⟩ := hi.rewritten
      refine .inl ((hi.has src' path content).mpr ?_)
      refine (h.files src' (by simp [hold]) path content hhas).resolve_right ?_
      rintro ⟨old, hintent, hnone, -⟩
      exact hi.stale old hintent hnone
    · rw [hi.record src' hsrc] at hrecord
      rcases h.files src' hrecord path content hhas with hworker | ⟨id', hintent, hnone, hparent⟩
      · exact .inl ((hi.has src' path content).mpr hworker)
      · exact .inr (ahead_of_lookup_eq (hi.record src' hsrc) (hi.parent id' hparent.mem_parent)
          hintent hnone hparent)
  committed id' file hfile :=
    have hold := (Prepares.committed (.inr ⟨src, id, .inl hi⟩) id').symm.trans hfile
    h.committed_of_lookup_eq (hi.parent id' (mem_parent_of_committed hold)) hfile
  found src' file₀ hfile₀ := by
    rcases h.found src' file₀ hfile₀ with ⟨file, hfile, hsame⟩ | ⟨id', file, hfile, hsame⟩
    · by_cases hsrc : src' = src
      · subst hsrc
        obtain ⟨old, record, bytes, hold, hparsed, hnew⟩ := hi.rewritten
        obtain rfl := some.inj (hold.symm.trans hfile)
        refine .inl ⟨_, hnew, .trans ?_ hsame⟩
        show some (logIntent record id).body = old.parsed.map Record.body
        rw [hparsed, body_logIntent]
        rfl
      · exact .inl ⟨file, (hi.record src' hsrc).trans hfile, hsame⟩
    · exact .inr ⟨id', file, (Prepares.committed (.inr ⟨src, id, .inl hi⟩) id').trans hfile, hsame⟩

/-- Moving files: no other finding's files are in the directory. -/
theorem moves (h : Tracks s₀ s) (howned : Owned s) (hm : Moves src id s s') : Tracks s₀ s' where
  record src file hfile := h.record src file (hm.record src ▸ hfile)
  has src' path content hhas := by
    by_cases hsrc : src' = src
    · subst hsrc
      exact h.has src' path content (hm.has_of path content hhas)
    · exact h.has src' path content ((hm.has src' hsrc path content).mp hhas)
  files src' hrecord path content hhas := by
    rw [hm.record] at hrecord
    have hintent' : s'.intent src' = s.intent src' := intent_eq_of_record_eq (hm.record src')
    rcases h.files src' hrecord path content hhas with hworker | ⟨id', hintent, hnone, hparent⟩
    · by_cases hsrc : src' = src
      · subst hsrc
        rcases hm.moved path content hworker with hstays | hmoved
        · exact .inl hstays
        · exact .inr ⟨id, hintent'.trans hm.intent, hm.still, hmoved⟩
      · exact .inl ((hm.has src' hsrc path content).mpr hworker)
    · by_cases hid : id' = id
      · subst hid
        obtain rfl := howned.inj src' src id' hintent hm.intent
        refine .inr ⟨id', hintent'.trans hintent, hm.still, ?_⟩
        rcases hm.kept path content hparent with hkept | ⟨content', hworker, hmoved⟩
        · exact hkept
        · -- What is moved over it is the same file.
          rwa [hhas.unique (h.has src' path content' hworker)]
      · exact .inr (ahead_of_lookup_eq (hm.record src') (hm.parent id' hid) hintent hnone hparent)
  committed id' file hfile := by
    refine h.committed_of_lookup_eq (hm.parent id' ?_) hfile
    rintro rfl
    rw [hm.still] at hfile
    contradiction
  found src' file₀ hfile₀ := by
    rcases h.found src' file₀ hfile₀ with ⟨file, hfile, hsame⟩ | ⟨id', file, hfile, hsame⟩
    · exact .inl ⟨file, (hm.record src').trans hfile, hsame⟩
    · exact .inr ⟨id', file, (Prepares.committed (.inr ⟨src, id, .inr hm⟩) id').trans hfile, hsame⟩

/-- A commit: every file of the finding has arrived. -/
theorem commits (h : Tracks s₀ s) (howned : Owned s) (hc : Commits src id s s') : Tracks s₀ s' where
  record src' file hfile := by
    by_cases hsrc : src' = src
    · rw [hsrc, hc.gone] at hfile
      contradiction
    · exact h.record src' file (hc.record src' hsrc ▸ hfile)
  has src path content hhas := h.has src path content ((hc.has src path content).mp hhas)
  files src' hrecord path content hhas := by
    have hsrc : src' ≠ src := fun heq ↦ hrecord (heq ▸ hc.gone)
    rw [hc.record src' hsrc] at hrecord
    rcases h.files src' hrecord path content hhas with hworker | ⟨id', hintent, hnone, hparent⟩
    · exact .inl ((hc.has src' path content).mpr hworker)
    have hid : id' ≠ id := by
      rintro rfl
      exact hsrc (howned.inj src' src id' hintent hc.intent)
    exact .inr (ahead_of_lookup_eq (hc.record src' hsrc) (hc.parent id' hid) hintent hnone hparent)
  committed id' file hfile := by
    by_cases hid : id' = id
    · subst hid
      obtain ⟨file', hworker, hnew⟩ := hc.moved
      obtain rfl := some.inj (hnew.symm.trans hfile)
      obtain ⟨file₀, hfile₀, hsame⟩ := h.record src file' hworker
      refine .inr ⟨src, file₀, hfile₀, hsame, fun path content hhas ↦ ?_⟩
      refine (hc.target path content).mpr ?_
      rcases h.files src (by simp [hworker]) path content hhas with hleft | ⟨id, hintent, -, hthere⟩
      · exact absurd hleft (hc.emptied path content)
      · rwa [some.inj (hc.intent.symm.trans hintent)]
    · exact h.committed_of_lookup_eq (hc.parent id' hid) hfile
  found src' file₀ hfile₀ := by
    rcases h.found src' file₀ hfile₀ with ⟨file, hfile, hsame⟩ | ⟨id', file, hfile, hsame⟩
    · by_cases hsrc : src' = src
      · subst hsrc
        obtain ⟨file', hworker, hnew⟩ := hc.moved
        obtain rfl := some.inj (hworker.symm.trans hfile)
        exact .inr ⟨id, file', hnew, hsame⟩
      · exact .inl ⟨file, (hc.record src' hsrc).trans hfile, hsame⟩
    · have hid : id' ≠ id := by
        rintro rfl
        rw [hc.uncommitted] at hfile
        contradiction
      exact .inr ⟨id', file, (committed_eq_of_lookup_eq (hc.parent id' hid)).trans hfile, hsame⟩

theorem step (h : Tracks s₀ s) (howned : Owned s) (hstep : Step s s') : Tracks s₀ s' := by
  rcases hstep with (hq | ⟨src, id, hi | hm⟩) | ⟨src, id, hc⟩
  · exact h.quiet hq
  · exact h.intends hi
  · exact h.moves howned hm
  · exact h.commits howned hc

end Tracks

/-- **Along any number of steps** intents stay owned and nothing is lost. -/
theorem owned_tracks_of_steps {s₀ : Store} (hsteps : ReflTransGen Step s s') (howned : Owned s)
    (htracks : Tracks s₀ s) : Owned s' ∧ Tracks s₀ s' := by
  induction hsteps with
  | refl => exact ⟨howned, htracks⟩
  | tail _ hstep ih => exact ⟨ih.1.step hstep, ih.2.step ih.1 hstep⟩

end Bhf.MulticoreFuzz
