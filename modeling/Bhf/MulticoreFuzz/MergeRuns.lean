import Bhf.Lib.Folds
import Bhf.MulticoreFuzz.MergeSteps

/-!
# Repeated and interrupted merges

What holds after any number of runs of the merge, each of which may fail or be cut off at any point
of any finding. Every function of the merge is a sequence of the steps of `MergeSteps`, so no
finding and no file is lost whatever fails.

**One finding per crash has a hole.** A finding that is resumed is not checked against what was
committed in the meantime. As long as a run reads every committed record of the parent
(`Run.SurveysAll`), the property is kept exactly if no finding of a crash that is committed already
is resumed and completed (`Run.ResumesKnownCrash`).
-/

namespace Bhf.MulticoreFuzz

open Bhf.Corpus Relation List Store AList MergeState String Seen

/-! ### Moving files -/

/-- What a move of files does to the files of the two directories. -/
structure Shifted (a b : Files × Files) : Prop where
  /-- Nothing appears at the source. -/
  sub : ∀ path entry, b.1.lookup path = some entry → a.1.lookup path = some entry
  /-- What was there is there or has moved. -/
  moved : ∀ path content, path ≠ recordTmp → a.1.lookup path = some (.regular content) →
    b.1.lookup path = some (.regular content) ∨ b.2.lookup path = some (.regular content)
  /-- The target keeps its files, or they are overwritten by moved ones. -/
  kept : ∀ path entry, a.2.lookup path = some entry → b.2.lookup path = some entry ∨
    ∃ content, path ≠ recordTmp ∧ a.1.lookup path = some (.regular content) ∧
      b.2.lookup path = some (.regular content)

namespace Shifted

variable {a b c : Files × Files}

theorem refl (a : Files × Files) : Shifted a a :=
  ⟨fun _ _ h ↦ h, fun _ _ _ h ↦ .inl h, fun _ _ h ↦ .inl h⟩

theorem trans (hab : Shifted a b) (hbc : Shifted b c) : Shifted a c where
  sub path entry h := hab.sub path entry (hbc.sub path entry h)
  moved path content hpath h := by
    rcases hab.moved path content hpath h with hstays | hmoved
    · exact hbc.moved path content hpath hstays
    · rcases hbc.kept path _ hmoved with hkept | ⟨content', -, hworker, hover⟩
      · exact .inr hkept
      · -- A second file of the same path would be the same file.
        have := (hab.sub path _ hworker).symm.trans h
        rw [Option.some.inj this] at hover
        exact .inr hover
  kept path entry h := by
    rcases hab.kept path entry h with hkept | ⟨content, hpath, hworker, hover⟩
    · rcases hbc.kept path entry hkept with hkept | ⟨content, hpath, hworker, hover⟩
      · exact .inl hkept
      · exact .inr ⟨content, hpath, hab.sub path _ hworker, hover⟩
    · refine .inr ⟨content, hpath, hworker, ?_⟩
      rcases hbc.kept path _ hover with hkept | ⟨content', -, hworker', hover'⟩
      · exact hkept
      · have := (hab.sub path _ hworker').symm.trans hworker
        rwa [Option.some.inj this] at hover'

end Shifted

theorem lookup_of_lookup_erase {files : Files} {path path' : Path} {entry : FileEntry}
    (h : (files.erase path').lookup path = some entry) :
    path ≠ path' ∧ files.lookup path = some entry := by
  by_cases hpath : path = path'
  · rw [hpath, lookup_erase] at h
    contradiction
  · exact ⟨hpath, lookup_erase_ne hpath ▸ h⟩

theorem shifted_moveEntry (files : Files × Files) (path : Path) :
    Shifted files (moveEntry files path) := by
  rw [moveEntry]
  split
  · next htmp =>
    refine ⟨fun _ _ h ↦ (lookup_of_lookup_erase h).2, fun path' content hpath h ↦ .inl ?_,
      fun _ _ h ↦ .inl h⟩
    rw [lookup_erase_ne (htmp ▸ hpath)]
    exact h
  · next htmp =>
    split
    · next content hcontent =>
      refine ⟨fun _ _ h ↦ (lookup_of_lookup_erase h).2, fun path' content' hpath h ↦ ?_,
        fun path' entry h ↦ ?_⟩
      · by_cases heq : path' = path
        · subst heq
          rw [hcontent] at h
          exact .inr ((lookup_insert _).trans h)
        · exact .inl ((lookup_erase_ne heq).trans h)
      · by_cases heq : path' = path
        · subst heq
          exact .inr ⟨content, htmp, hcontent, lookup_insert _⟩
        · exact .inl ((lookup_insert_ne heq).trans h)
    · exact .refl files

theorem shifted_moveContents : ∀ (visited : List Path) (files : Files × Files),
    Shifted files (visited.foldl moveEntry files)
  | [], files => .refl files
  | path :: visited, files =>
    (shifted_moveEntry files path).trans (shifted_moveContents visited _)

/-- A file whose path was visited is not in the source any more. -/
theorem not_regular_of_visited : ∀ {visited : List Path} {files : Files × Files} {path : Path},
    path ∈ visited → path ≠ recordTmp → ∀ content,
      (visited.foldl moveEntry files).1.lookup path ≠ some (.regular content)
  | first :: visited, files, path, hmem, hpath, content, h => by
    rcases mem_cons.mp hmem with rfl | hmem
    · have hfirst := (shifted_moveContents visited (moveEntry files path)).sub path _ h
      rw [moveEntry, if_neg hpath] at hfirst
      split at hfirst
      · simp [lookup_erase] at hfirst
      · next hother => exact hother content hfirst
    · exact not_regular_of_visited hmem hpath content h

/-! ### The functions of the merge are sequences of steps -/

section

variable {s : Store} {src : Source} {id : String}

theorem Store.exists_of_intent (hintent : s.intent src = some id) :
    ∃ dir file record, s.workers.lookup src = some dir ∧ dir.record = some file ∧
      file.parsed = some record := by
  obtain ⟨record, hrecord, -⟩ := Option.bind_eq_some_iff.mp hintent
  obtain ⟨file, hfile, hparsed⟩ := Option.bind_eq_some_iff.mp hrecord
  obtain ⟨dir, hdir, hrecord⟩ := Option.bind_eq_some_iff.mp hfile
  exact ⟨dir, file, record, hdir, hrecord, hparsed⟩

theorem moves_moveInto (hintent : s.intent src = some id) (hnone : s.committed id = none)
    (hmem : id ∈ s.parent) (visited : List Path) : Moves src id s (s.moveInto src id visited) := by
  obtain ⟨dir, file, record, hdir, -, -⟩ := exists_of_intent hintent
  obtain ⟨target, htarget⟩ := Option.ne_none_iff_exists'.mp (mem_parent_iff.mp hmem)
  have hrecord : target.record = none := by
    rwa [committed, htarget] at hnone
  have hshifted := shifted_moveContents visited (dir.files, target.files)
  rw [moveInto]
  simp only [hdir, htarget]
  refine
    { intent := hintent
      uncommitted := hnone
      record := fun src' ↦ ?_
      has := fun src' hsrc path content ↦ ?_
      has_of := ?_
      moved := ?_
      kept := ?_
      parent := fun id' hid ↦ lookup_insert_ne hid
      still := ?_
      exists_target := ⟨hmem, (mem_insert _).mpr (.inl rfl)⟩ }
  · by_cases hsrc : src' = src
    · subst hsrc
      simp [workerRecord, hdir]
    · simp [workerRecord, lookup_insert_ne hsrc]
  · simp [Store.WorkerHas, lookup_insert_ne hsrc]
  · rintro path content ⟨dir', hdir', hpath, hlookup⟩
    rw [lookup_insert] at hdir'
    obtain ⟨⟩ := hdir'
    exact ⟨dir, hdir, hpath, hshifted.sub path _ hlookup⟩
  · rintro path content ⟨dir', hdir', hpath, hlookup⟩
    obtain ⟨⟩ := hdir.symm.trans hdir'
    rcases hshifted.moved path content hpath hlookup with hstays | hmoved
    · exact .inl ⟨_, lookup_insert _, hpath, hstays⟩
    · exact .inr ⟨_, lookup_insert _, hpath, hmoved⟩
  · rintro path content ⟨target', htarget', hpath, hlookup⟩
    obtain ⟨⟩ := htarget.symm.trans htarget'
    rcases hshifted.kept path _ hlookup with hkept | ⟨content', _, hworker, hover⟩
    · exact .inl ⟨_, lookup_insert _, hpath, hkept⟩
    · exact .inr ⟨content', ⟨dir, hdir, hpath, hworker⟩, _, lookup_insert _, hpath, hover⟩
  · simp [committed, hrecord]

/-- Once every path has been visited no file is left. -/
theorem not_workerHas_moveInto_paths (path : Path) (content : Bytes)
    (hmem : id ∈ s.parent) : ¬ (s.moveInto src id (s.paths src)).WorkerHas src path content := by
  rintro ⟨dir', hdir', hpath, hlookup⟩
  obtain ⟨target, htarget⟩ := Option.ne_none_iff_exists'.mp (mem_parent_iff.mp hmem)
  cases hdir : s.workers.lookup src with
  | none =>
    simp [moveInto, hdir] at hdir'
  | some dir =>
    simp only [moveInto, paths, hdir, htarget, lookup_insert] at hdir'
    obtain ⟨⟩ := hdir'
    have hshifted := shifted_moveContents dir.files.keys (dir.files, target.files)
    have hvisited : path ∈ dir.files.keys :=
      mem_keys.mp (lookup_isSome.mp (by simp [hshifted.sub path _ hlookup]))
    exact not_regular_of_visited hvisited hpath content hlookup

theorem commits_commit (hintent : s.intent src = some id) (hnone : s.committed id = none)
    (hmem : id ∈ s.parent) (hempty : ∀ path content, ¬ s.WorkerHas src path content) :
    Commits src id s (s.commit src id) := by
  obtain ⟨dir, file, record, hdir, hfile, -⟩ := exists_of_intent hintent
  obtain ⟨target, htarget⟩ := Option.ne_none_iff_exists'.mp (mem_parent_iff.mp hmem)
  rw [commit]
  simp only [hdir, htarget]
  obtain ⟨workers, hworkers, hself, hother⟩ : ∃ workers, (if dir.files.keys = [] then
      s.workers.erase src else s.workers.insert src { dir with record := none }) = workers ∧
      (workers.lookup src = none ∨ workers.lookup src = some { dir with record := none }) ∧
      ∀ src' ≠ src, workers.lookup src' = s.workers.lookup src' := by
    refine ⟨_, rfl, ?_⟩
    split
    · exact ⟨.inl (lookup_erase _ _), fun _ ↦ lookup_erase_ne⟩
    · exact ⟨.inr (lookup_insert _), fun _ ↦ lookup_insert_ne⟩
  rw [hworkers]
  refine
    { intent := hintent
      uncommitted := hnone
      exists_target := hmem
      emptied := hempty
      moved := ⟨file, by simp [workerRecord, hdir, hfile], by simp [committed, hfile]⟩
      gone := ?_
      record := fun src' hsrc ↦ by rw [workerRecord, hother src' hsrc]; rfl
      has := fun src' path content ↦ ?_
      target := fun path content ↦ ?_
      parent := fun id' hid ↦ lookup_insert_ne hid }
  · rcases hself with h | h <;> simp [workerRecord, h]
  · by_cases hsrc : src' = src
    · subst hsrc
      refine ⟨?_, fun h ↦ absurd h (hempty path content)⟩
      rintro ⟨dir', hdir', hhas⟩
      rcases hself with h | h
      · simp [h] at hdir'
      · obtain ⟨⟩ := h.symm.trans hdir'
        exact ⟨dir, hdir, hhas⟩
    · simp only [Store.WorkerHas, hother src' hsrc]
  · simp only [Store.ParentHas, lookup_insert, htarget, Option.some.injEq, exists_eq_left']
    rfl

/-- A finding that is reserved gets through its second half. -/
def completes : Option FaultPoint → Bool
  | some .reserved | some (.moving _) | some .moved | some .commit => false
  | _ => true

/-- The second half: files move, and the record if nothing fails. -/
theorem complete_spec (point : Option FaultPoint) (hintent : s.intent src = some id)
    (hnone : s.committed id = none) (hmem : id ∈ s.parent) :
    (complete point s src id).2 = completes point ∧
      ∃ mid, ReflTransGen Prepares s mid ∧
        if completes point then Commits src id mid (complete point s src id).1
        else mid = (complete point s src id).1 := by
  have hmoves : ∀ visited, ReflTransGen Prepares s (s.moveInto src id visited) := fun visited ↦
    .single (.inr ⟨src, id, .inr (moves_moveInto hintent hnone hmem visited)⟩)
  have hcommits : Commits src id (s.moveInto src id (s.paths src))
      ((s.moveInto src id (s.paths src)).commit src id) := by
    have hm := moves_moveInto hintent hnone hmem (s.paths src)
    refine commits_commit ?_ hm.still hm.exists_target.2 fun path content ↦
      not_workerHas_moveInto_paths path content hmem
    rw [intent_eq_of_record_eq (hm.record src), hintent]
  match point with
  | some .reserved => exact ⟨rfl, s, .refl, rfl⟩
  | some (.moving visited) => exact ⟨rfl, _, hmoves visited, rfl⟩
  | some .moved | some .commit => exact ⟨rfl, _, hmoves _, rfl⟩
  | none | some .createDir | some (.logIntent _) => exact ⟨rfl, _, hmoves _, hcommits⟩

/-! ### Reserving and resuming -/

/-- The suffix of a parent id is a part of the signature or of the worker's own name. -/
theorem length_idSuffix_le {record : Record} {name : String} (hname : name.toList.length ≤ 105) :
    (idSuffix record name).toList.length ≤ 105 := by
  rw [idSuffix]
  cases hfind : List.find? _ _ with
  | none => exact (by decide +kernel : "merged".toList.length ≤ 105)
  | some suffix =>
    obtain ⟨candidate, hmem, hcandidate⟩ :=
      mem_filterMap.mp (mem_of_find?_eq_some hfind)
    obtain rfl : candidate = some suffix := hcandidate
    rcases mem_cons.mp hmem with hsignature | hmem
    · obtain ⟨signature, -, rfl⟩ := Option.map_eq_some_iff.mp hsignature.symm
      show (ofList _).toList.length ≤ 105
      rw [toList_ofList]
      exact le_trans (length_take_le _ _) (by decide)
    · have hname' := (mem_singleton.mp hmem).symm
      split at hname'
      · split at hname'
        · next first rest hrest =>
          obtain ⟨⟩ := hname'
          show (ofList _).toList.length ≤ 105
          rw [toList_ofList]
          have hdrop := (dropWhile_sublist (fun x ↦ decide (x ≠ '-'))
            (l := name.toList.drop 2)).length_le
          rw [hrest, length_cons, length_drop] at hdrop
          omega
        · contradiction
      · contradiction

variable {ids : FamilyAllocator} {record : Record}

theorem of_resumable (h : resumable ids s.parent record = some id) :
    carriesIntent record ∧ record.id = some id ∧ id ∈ s.parent ∧ s.committed id = none := by
  rw [resumable] at h
  split at h
  · next hcarries =>
    obtain ⟨id', hid, h⟩ := Option.bind_eq_some_iff.mp h
    obtain ⟨dir, hdir, h⟩ := Option.bind_eq_some_iff.mp h
    obtain ⟨target, htarget, h⟩ := Option.bind_eq_some_iff.mp h
    split at h
    · next hnone =>
      obtain ⟨⟩ := h
      rw [FamilyAllocator.reservedDir] at hdir
      split at hdir
      · next hreserved =>
        obtain ⟨⟩ := hdir
        refine ⟨hcarries, hid, mem_keys.mpr hreserved.2, ?_⟩
        rw [committed, htarget]
        exact Option.isNone_iff_eq_none.mp hnone
      · contradiction
    · contradiction
  · contradiction

variable {run : Run} {dir : FindingDir} {file : RecordFile}

theorem quiet_refl (s : Store) : Quiet s s :=
  ⟨fun _ ↦ rfl, fun _ _ _ ↦ .rfl, fun _ _ ↦ rfl, fun _ h ↦ committed_of_not_mem h⟩

variable {count : ℕ} {s' : Store} {ids' : FamilyAllocator} {result : Option String}

/-- Sweeping the temporary file away changes no file of the finding. -/
theorem workerHas_sweep_iff (hdir : s.workers.lookup src = some dir) {parent : Findings}
    {record : Option RecordFile} (src' : Source) (path : Path) (content : Bytes) :
    Store.WorkerHas ⟨parent, count, s.workers.insert src ⟨dir.files.erase recordTmp, record⟩⟩ src'
      path content ↔ s.WorkerHas src' path content := by
  by_cases hsrc : src' = src
  · subst hsrc
    simp only [Store.WorkerHas, lookup_insert, Option.some.injEq, exists_eq_left', hdir]
    refine and_congr_right fun hpath ↦ ?_
    rw [lookup_erase_ne hpath]
  · simp only [Store.WorkerHas, lookup_insert_ne hsrc]

theorem workerRecord_sweep (hdir : s.workers.lookup src = some dir) {parent : Findings}
    (src' : Source) :
    workerRecord
      ⟨parent, count, s.workers.insert src ⟨dir.files.erase recordTmp, dir.record⟩⟩ src' =
      s.workerRecord src' := by
  by_cases hsrc : src' = src
  · subst hsrc
    simp [workerRecord, hdir]
  · simp [workerRecord, lookup_insert_ne hsrc]

/-- A reserved directory is empty, and the others are as they were. -/
theorem lookup_reserved (hfree : id ∉ s.parent) (id' : String) (hid' : id' ∈ s.parent) :
    (s.parent.insert id ⟨∅, none⟩).lookup id' = s.parent.lookup id' :=
  lookup_insert_ne fun heq ↦ hfree (heq ▸ hid')

theorem committed_reserved {workers : AList fun _ : Source ↦ FindingDir} (id' : String)
    (hid' : id' ∉ s.parent) :
    committed ⟨s.parent.insert id ⟨∅, none⟩, count, workers⟩ id' = none := by
  rw [committed]
  by_cases heq : id' = id
  · subst heq
    rw [lookup_insert]
    rfl
  · rw [lookup_insert_ne heq, lookup_eq_none.mpr hid']
    rfl

/-- What the merge of one finding comes to: steps that prepare, and a commit if it returns an id. -/
def Outcome (src : Source) (s s' : Store) (result : Option String) : Prop :=
  ∃ mid, ReflTransGen Prepares s mid ∧
    ((result = none ∧ s' = mid) ∨ ∃ id, result = some id ∧ Commits src id mid s')

/-- The second half, behind the steps of the first. -/
theorem outcome_complete {s₁ : Store} {point : Option FaultPoint}
    (hsteps : ReflTransGen Prepares s s₁) (hintent : s₁.intent src = some id)
    (hnone : s₁.committed id = none) (hmem : id ∈ s₁.parent)
    (hs' : (complete point s₁ src id).1 = s')
    (hresult : (if (complete point s₁ src id).2 then some id else none) = result) :
    Outcome src s s' result ∧ (result ≠ none ↔ completes point) := by
  obtain ⟨hcommitted, mid, hmid, hend⟩ := complete_spec point hintent hnone hmem
  subst hs' hresult
  rw [hcommitted]
  cases hpoint : completes point with
  | true =>
    rw [hpoint] at hend
    exact ⟨⟨mid, hsteps.trans hmid, .inr ⟨id, rfl, hend⟩⟩, by simp⟩
  | false =>
    rw [hpoint] at hend
    exact ⟨⟨mid, hsteps.trans hmid, .inl ⟨rfl, Eq.symm hend⟩⟩, by simp⟩

section

variable (hdir : s.workers.lookup src = some dir) (hfile : dir.record = some file)
  (hrecord : file.parsed = some record)

include hdir hfile hrecord

/-- The first half: nothing that matters, or an intent. -/
theorem reserve_spec (hfamily : ids.family = "F-")
    (hshort : src.2.toList.length ≤ 105)
    (hstale : ∀ old, s.intent src = some old → s.committed old ≠ none)
    (h : reserve run s ids src dir record = (s', ids', result)) :
    ids'.family = "F-" ∧
      ((result = none ∧ Quiet s s') ∨ ∃ id, result = some id ∧ Intends src id s s') := by
  rw [reserve] at h
  split at h
  · obtain ⟨⟩ := h
    exact ⟨hfamily, .inl ⟨rfl, quiet_refl s⟩⟩
  · next id ids₁ hcreate =>
    obtain ⟨hsame, hnames, hsuffix, ordinal, hordinal, hname⟩ :=
      FamilyAllocator.of_createWithSuffix hcreate
    have hfree : id ∉ s.parent := fun hmem ↦ hnames (mem_keys.mp hmem)
    simp only at h
    split at h
    · obtain ⟨rfl, rfl, rfl⟩ := h
      exact ⟨hsame.trans hfamily, .inl ⟨rfl, quiet_refl s⟩⟩
    · next removed _ =>
      obtain ⟨⟩ := h
      refine ⟨hsame.trans hfamily, .inl ⟨rfl, ?_⟩⟩
      cases removed with
      | true =>
        exact ⟨workerRecord_sweep hdir, workerHas_sweep_iff hdir, fun _ _ ↦ rfl,
          fun _ h ↦ committed_of_not_mem h⟩
      | false =>
        exact ⟨workerRecord_sweep hdir, workerHas_sweep_iff hdir, lookup_reserved hfree,
          committed_reserved⟩
    · obtain ⟨⟩ := h
      refine ⟨hsame.trans hfamily, .inr ⟨id, rfl, ?_⟩⟩
      exact
        { free := hfree
          valid := by
            rw [hname, hfamily]
            exact isFamilyId_familyName hordinal hsuffix (length_idSuffix_le hshort)
          stale := hstale
          rewritten := ⟨file, record, run.prettyLen (logIntent record id),
            by simp [workerRecord, hdir, hfile], hrecord,
            by simp [workerRecord, lookup_insert]⟩
          record := fun src' hsrc ↦ by simp [workerRecord, lookup_insert_ne hsrc]
          has := workerHas_sweep_iff hdir
          parent := lookup_reserved hfree
          fresh := committed_reserved
          reserved := (mem_insert _).mpr (.inl rfl) }

theorem intent_eq : s.intent src = if carriesIntent record then record.id else none := by
  simp [intent, workerRecord, hdir, hfile, hrecord]

theorem mergeOne_resumed (hresume : resumable ids s.parent record = some id)
    (h : mergeOne run s ids src dir record (some id) = (s', ids', result)) :
    ids' = ids ∧ Outcome src s s' result ∧
      (result ≠ none ↔ completes ((run.fault src).map Fault.point)) := by
  obtain ⟨hcarries, hid, hmem, hnone⟩ := of_resumable hresume
  have hintent : s.intent src = some id := by
    rw [intent_eq hdir hfile hrecord, if_pos hcarries, hid]
  simp only [mergeOne, Prod.mk.injEq] at h
  obtain ⟨hs', rfl, hresult⟩ := h
  exact ⟨rfl, outcome_complete .refl hintent hnone hmem hs' hresult⟩

theorem mergeOne_fresh (hfamily : ids.family = "F-")
    (hshort : src.2.toList.length ≤ 105) (howned : Owned s)
    (hresume : resumable ids s.parent record = none)
    (h : mergeOne run s ids src dir record none = (s', ids', result)) :
    ids'.family = "F-" ∧ Outcome src s s' result := by
  have hstale : ∀ old, s.intent src = some old → s.committed old ≠ none := by
    intro old hintent
    have hmem := howned.mem src old hintent
    have hvalid := howned.valid src old hintent
    rw [intent_eq hdir hfile hrecord] at hintent
    split at hintent
    · next hcarries =>
      -- it would name an unfinished directory, and the finding would be resumed
      intro hnone
      obtain ⟨target, htarget⟩ := Option.ne_none_iff_exists'.mp (mem_parent_iff.mp hmem)
      have hrecord : target.record = none := by
        rwa [committed, htarget] at hnone
      have hreserved : ids.reservedDir s.parent.keys old = some old :=
        if_pos ⟨hfamily ▸ hvalid, mem_keys.mp hmem⟩
      simp [resumable, hcarries, hintent, hreserved, htarget, hrecord] at hresume
    · contradiction
  obtain ⟨s₁, ids₁, result₁, hreserve⟩ :
      ∃ s₁ ids₁ result₁, reserve run s ids src dir record = (s₁, ids₁, result₁) :=
    ⟨_, _, _, rfl⟩
  obtain ⟨hfamily₁, hfirst⟩ := reserve_spec hdir hfile hrecord hfamily hshort hstale hreserve
  simp only [mergeOne, hreserve] at h
  rcases hfirst with ⟨rfl, hquiet⟩ | ⟨id, rfl, hintends⟩
  · obtain ⟨⟩ := h
    exact ⟨hfamily₁, _, .single (.inl hquiet), .inl ⟨rfl, rfl⟩⟩
  · simp only [Prod.mk.injEq] at h
    obtain ⟨hs', rfl, hresult⟩ := h
    exact ⟨hfamily₁, (outcome_complete (.single (.inr ⟨src, id, .inl hintends⟩))
      hintends.intent_self (hintends.fresh id hintends.free) hintends.reserved hs' hresult).1⟩

end

end

/-! ### Known crashes -/

namespace Store

/-- A committed record of the same harness shares a crash key with a record. -/
def Knows (s : Store) (record : Record) : Prop :=
  ∃ id file record', s.committed id = some file ∧ file.parsed = some record' ∧
    ∃ key ∈ Seen.keys record, key ∈ Seen.keys record'

end Store

section

variable {s s' mid : Store} {src : Source} {id : String} {file : RecordFile} {record : Record}

theorem Store.onePerCrash_congr (h : ∀ id, s'.committed id = s.committed id) :
    s'.OnePerCrash ↔ s.OnePerCrash := by
  simp only [Store.OnePerCrash, h]

theorem committed_of_prepares (h : ReflTransGen Prepares s s') (id : String) :
    s'.committed id = s.committed id := by
  induction h with
  | refl => rfl
  | tail _ hstep ih => exact (hstep.committed id).trans ih

/-- **A commit keeps one finding per crash exactly if the crash is not known.** -/
theorem onePerCrash_commits (hc : Commits src id mid s') (hfile : s'.committed id = some file)
    (hrecord : file.parsed = some record) :
    s'.OnePerCrash ↔ mid.OnePerCrash ∧ ¬ mid.Knows record := by
  have hother : ∀ id' ≠ id, s'.committed id' = mid.committed id' := fun id' hid ↦
    committed_eq_of_lookup_eq (hc.parent id' hid)
  have hne : ∀ {id' file'}, mid.committed id' = some file' → id' ≠ id := by
    rintro id' file' hfile' rfl
    rw [hc.uncommitted] at hfile'
    contradiction
  refine ⟨fun h ↦ ⟨?_, ?_⟩, ?_⟩
  · intro a b fileA fileB recordA recordB hab hA hrecordA hB hrecordB
    exact h a b fileA fileB recordA recordB hab ((hother a (hne hA)).trans hA) hrecordA
      ((hother b (hne hB)).trans hB) hrecordB
  · rintro ⟨id', file', record', hfile', hrecord', key, hkey, hkey'⟩
    exact h id id' file file' record record' (hne hfile').symm hfile hrecord
      ((hother id' (hne hfile')).trans hfile') hrecord' key hkey hkey'
  · rintro ⟨hone, hknown⟩ a b fileA fileB recordA recordB hab hA hrecordA hB hrecordB key
      hkeyA hkeyB
    by_cases ha : a = id
    · subst ha
      obtain ⟨⟩ := hfile.symm.trans hA
      obtain ⟨⟩ := hrecord.symm.trans hrecordA
      rw [hother b (Ne.symm hab)] at hB
      exact hknown ⟨b, fileB, recordB, hB, hrecordB, key, hkeyA, hkeyB⟩
    · rw [hother a ha] at hA
      by_cases hb : b = id
      · subst hb
        obtain ⟨⟩ := hfile.symm.trans hB
        obtain ⟨⟩ := hrecord.symm.trans hrecordB
        exact hknown ⟨a, fileA, recordA, hA, hrecordA, key, hkeyB, hkeyA⟩
      · rw [hother b hb] at hB
        exact hone a b fileA fileB recordA recordB hab hA hrecordA hB hrecordB key hkeyA hkeyB

theorem steps_of_prepares (h : ReflTransGen Prepares s s') : ReflTransGen Step s s' :=
  ReflTransGen.mono (fun _ _ ↦ .inl) s s' h

theorem Outcome.steps {result : Option String} (h : Outcome src s s' result) :
    ReflTransGen Step s s' := by
  obtain ⟨mid, hmid, ⟨-, rfl⟩ | ⟨id, -, hc⟩⟩ := h
  · exact steps_of_prepares hmid
  · exact (steps_of_prepares hmid).tail (.inr ⟨src, id, hc⟩)

/-- What is committed of a finding has its keys. -/
theorem Outcome.committed {result : Option String} (h : Outcome src s s' result)
    (howned : Owned s) (hfile : s.workerRecord src = some file)
    (hrecord : file.parsed = some record) :
    (result = none ∧ ∀ id, s'.committed id = s.committed id) ∨
      ∃ id file' record', result = some id ∧ s'.committed id = some file' ∧
        file'.parsed = some record' ∧ keys record' = keys record ∧
        (∀ id' ≠ id, s'.committed id' = s.committed id') ∧
        (s'.OnePerCrash ↔ s.OnePerCrash ∧ ¬ s.Knows record) := by
  obtain ⟨mid, hmid, ⟨hnone, rfl⟩ | ⟨id, hid, hc⟩⟩ := h
  · exact .inl ⟨hnone, committed_of_prepares hmid⟩
  have htracks : Tracks s mid :=
    (owned_tracks_of_steps (steps_of_prepares hmid) howned (.refl s)).2
  obtain ⟨file', hworker, hcommitted⟩ := hc.moved
  obtain ⟨file₀, hfile₀, hsame⟩ := htracks.record src file' hworker
  obtain ⟨⟩ := hfile.symm.trans hfile₀
  rw [RecordFile.SameFinding, hrecord] at hsame
  obtain ⟨record', hrecord', hbody⟩ := Option.map_eq_some_iff.mp hsame
  have hkeys : Seen.keys record' = Seen.keys record :=
    show Seen.keys record'.body = Seen.keys record.body by rw [hbody]
  refine .inr ⟨id, file', record', hid, hcommitted, hrecord', hkeys, fun id' hne ↦ ?_, ?_⟩
  · exact (committed_eq_of_lookup_eq (hc.parent id' hne)).trans (committed_of_prepares hmid id')
  · rw [onePerCrash_commits hc hcommitted hrecord',
      onePerCrash_congr (committed_of_prepares hmid), Store.Knows, Store.Knows, hkeys]
    simp only [committed_of_prepares hmid]

end

/-! ### One run -/

theorem of_readRecord {limits : Limits} {dir : FindingDir} {record : Record}
    (h : readRecord limits dir = .ok (some record)) :
    ∃ file, dir.record = some file ∧ file.parsed = some record := by
  rw [readRecord] at h
  split at h
  · simp at h
  · next file hfile =>
    split at h
    · contradiction
    split at h
    · contradiction
    · next record' hrecord =>
      exact ⟨file, hfile, by simpa [hrecord] using h⟩

/-- Directory names from which a parent id can be made that is short enough to be resumed into. -/
def Store.ShortNames (s : Store) : Prop :=
  ∀ src, s.workerRecord src ≠ none → src.2.toList.length ≤ 105

/-- What holds of the merge at every turn. -/
structure Sound (s₀ : Store) (st : MergeState) : Prop where
  /-- Intents are apart. -/
  owned : Owned st.store
  /-- Nothing is lost. -/
  tracks : Tracks s₀ st.store
  /-- Ids are of the parent's family. -/
  family : st.ids.family = "F-"

namespace MergeState

/-- The keys of every committed record are held. -/
def SeenAll (st : MergeState) : Prop :=
  ∀ id file record, st.store.committed id = some file → file.parsed = some record →
    ∀ key ∈ Seen.keys record, key ∈ st.seen

/-- A finding whose crash is known is resumed and completed. -/
def ResumesKnown (run : Run) (st : MergeState) : Turn → Prop
  | .unlisted => False
  | .finding src =>
    st.halted = false ∧ ∃ dir record, st.store.workers.lookup src = some dir ∧
      readRecord run.limits dir = .ok (some record) ∧
      resumable st.ids st.store.parent record ≠ none ∧
      completes ((run.fault src).map Fault.point) = true ∧ st.store.Knows record

variable {run : Run} {st : MergeState} {src : Source} {dir : FindingDir} {file : RecordFile}
  {record : Record} {s₀ : Store}

section

variable (hsound : Sound s₀ st) (hdir : st.store.workers.lookup src = some dir)
  (hfile : dir.record = some file) (hrecord : file.parsed = some record)
  (hshort : src.2.toList.length ≤ 105)

include hsound hdir hfile hrecord hshort

/-- A record in one of three ways: a duplicate, a failure, or a commit. -/
theorem mergeRecord_cases (run : Run) :
    (st.mergeRecord run src dir record).ids.family = "F-" ∧
      (((st.mergeRecord run src dir record).store = st.store ∧
          resumable st.ids st.store.parent record = none ∧
          (st.mergeRecord run src dir record).seen = st.seen.insert (keys record)) ∨
        ∃ result, Outcome src st.store (st.mergeRecord run src dir record).store result ∧
          (resumable st.ids st.store.parent record = none →
            st.seen.holds (keys record) = false) ∧
          (resumable st.ids st.store.parent record ≠ none →
            (result ≠ none ↔ completes ((run.fault src).map Fault.point))) ∧
          (st.mergeRecord run src dir record).seen =
            if result = none then st.seen else st.seen.insert (keys record)) := by
  obtain ⟨s', ids', result, hone⟩ : ∃ s' ids' result, mergeOne run st.store st.ids src dir record
      (resumable st.ids st.store.parent record) = (s', ids', result) := ⟨_, _, _, rfl⟩
  by_cases hdup : (resumable st.ids st.store.parent record).isNone ∧
      st.seen.holds (Seen.keys record)
  · rw [mergeRecord, if_pos hdup]
    exact ⟨hsound.family, .inl ⟨rfl, Option.isNone_iff_eq_none.mp hdup.1, rfl⟩⟩
  · have hholds : resumable st.ids st.store.parent record = none →
        st.seen.holds (Seen.keys record) = false := by
      intro hnone
      rw [hnone] at hdup
      simpa using hdup
    have hspec : ids'.family = "F-" ∧ Outcome src st.store s' result ∧
        (resumable st.ids st.store.parent record ≠ none →
          (result ≠ none ↔ completes ((run.fault src).map Fault.point))) := by
      cases hresume : resumable st.ids st.store.parent record with
      | none =>
        rw [hresume] at hone
        obtain ⟨hfamily, houtcome⟩ := mergeOne_fresh hdir hfile hrecord hsound.family hshort
          hsound.owned hresume hone
        exact ⟨hfamily, houtcome, fun h ↦ absurd rfl h⟩
      | some id =>
        rw [hresume] at hone
        obtain ⟨rfl, houtcome, hiff⟩ := mergeOne_resumed hdir hfile hrecord hresume hone
        exact ⟨hsound.family, houtcome, fun _ ↦ hiff⟩
    rw [mergeRecord, if_neg hdup, hone]
    cases result with
    | none | some => exact ⟨hspec.1, .inr ⟨_, hspec.2.1, hholds, hspec.2.2, rfl⟩⟩

theorem sound_mergeRecord : Sound s₀ (st.mergeRecord run src dir record) := by
  obtain ⟨hfamily, ⟨hstore, -⟩ | ⟨result, houtcome, -⟩⟩ :=
    mergeRecord_cases hsound hdir hfile hrecord hshort run
  · exact ⟨hstore ▸ hsound.owned, hstore ▸ hsound.tracks, hfamily⟩
  · obtain ⟨howned, htracks⟩ := owned_tracks_of_steps houtcome.steps hsound.owned hsound.tracks
    exact ⟨howned, htracks, hfamily⟩

/-- **One record keeps one finding per crash exactly if it is not resumed although its crash is
known.** A record that is not resumed was compared with every committed one. -/
theorem onePerCrash_mergeRecord (run : Run) (hseen : st.SeenAll) :
    (st.mergeRecord run src dir record).SeenAll ∧
      ((st.mergeRecord run src dir record).store.OnePerCrash ↔ st.store.OnePerCrash ∧
        ¬ (resumable st.ids st.store.parent record ≠ none ∧
          completes ((run.fault src).map Fault.point) ∧ st.store.Knows record)) := by
  have hworker : st.store.workerRecord src = some file := by
    simp [workerRecord, hdir, hfile]
  obtain ⟨-, ⟨hstore, hnone, hkeys⟩ | ⟨result, houtcome, hholds, hiff, hkeys⟩⟩ :=
    mergeRecord_cases hsound hdir hfile hrecord hshort run
  · constructor
    · intro id file' record' hfile' hrecord' key hkey
      rw [hkeys]
      exact mem_append_left _ (hseen id file' record' (hstore ▸ hfile') hrecord' key hkey)
    · rw [hstore]
      exact (and_iff_left fun h ↦ h.1 hnone).symm
  · rcases houtcome.committed hsound.owned hworker hrecord with ⟨rfl, hsame⟩ |
      ⟨id, file', record', rfl, hfile', hrecord', hkeys', hother, hone⟩
    · constructor
      · intro id file' record' hfile' hrecord' key hkey
        rw [hkeys]
        exact hseen id file' record' (hsame id ▸ hfile') hrecord' key hkey
      · rw [onePerCrash_congr hsame]
        exact (and_iff_left fun h ↦ (hiff h.1).mpr h.2.1 rfl).symm
    · constructor
      · intro id'' file'' record'' hfile'' hrecord'' key hkey
        rw [hkeys]
        by_cases hid : id'' = id
        · subst hid
          obtain ⟨⟩ := hfile'.symm.trans hfile''
          obtain ⟨⟩ := hrecord'.symm.trans hrecord''
          exact mem_append_right _ (hkeys' ▸ hkey)
        · rw [hother id'' hid] at hfile''
          exact mem_append_left _ (hseen id'' file'' record'' hfile'' hrecord'' key hkey)
      · rw [hone]
        refine and_congr_right fun _ ↦ not_congr ⟨fun hknows ↦ ?_, fun h ↦ h.2.2⟩
        have hresume : resumable st.ids st.store.parent record ≠ none := by
          intro hnone
          obtain ⟨id', known, record'', hknown, hparsed, key, hkey, hshared⟩ := hknows
          have hmem := hseen id' known record'' hknown hparsed key hshared
          have := hholds hnone
          rw [Seen.holds, any_eq_false] at this
          exact this key hkey (contains_iff_mem.mpr hmem)
        exact ⟨hresume, (hiff hresume).mp (by simp), hknows⟩

end

/-- A turn does nothing that matters, or is one of a record that can be read. -/
theorem turn_cases (run : Run) (st : MergeState) (t : Turn) :
    ((st.turn run t).store = st.store ∧ (st.turn run t).seen = st.seen ∧
        (st.turn run t).ids = st.ids ∧ ¬ st.ResumesKnown run t) ∨
      ∃ src dir record, t = .finding src ∧ st.halted = false ∧
        st.store.workers.lookup src = some dir ∧
        readRecord run.limits dir = .ok (some record) ∧
        st.turn run t = st.mergeRecord run src dir record := by
  cases t with
  | unlisted =>
    refine .inl ?_
    rw [turn]
    split <;> exact ⟨rfl, rfl, rfl, id⟩
  | finding src =>
    rw [turn]
    split
    · next hhalted =>
      refine .inl ⟨rfl, rfl, rfl, ?_⟩
      rintro ⟨hnot, -⟩
      simp [hhalted] at hnot
    · next hhalted =>
      rw [mergeFinding]
      split
      · next hdir =>
        refine .inl ⟨rfl, rfl, rfl, ?_⟩
        rintro ⟨-, dir, record, hdir', -⟩
        simp [hdir] at hdir'
      · next dir hdir =>
        -- A record that cannot be read, or none, is passed over.
        have hpassed : (∀ record, readRecord run.limits dir ≠ .ok (some record)) →
            ¬ st.ResumesKnown run (.finding src) := by
          rintro hunread ⟨-, dir', record, hdir', hread, -⟩
          obtain ⟨⟩ := hdir.symm.trans hdir'
          exact hunread record hread
        split
        iterate 2 · next hread => exact .inl ⟨rfl, rfl, rfl, hpassed (by simp [hread])⟩
        · next record hread =>
          exact .inr ⟨src, dir, record, rfl, by simpa using hhalted, hdir, hread, rfl⟩

theorem length_name_le (hshort : s₀.ShortNames) (hsound : Sound s₀ st)
    (hdir : st.store.workers.lookup src = some dir) (hfile : dir.record = some file) :
    src.2.toList.length ≤ 105 := by
  obtain ⟨file₀, hfile₀, -⟩ := hsound.tracks.record src file (by
    simp [workerRecord, hdir, hfile])
  exact hshort src (by simp [hfile₀])

theorem sound_turn (hshort : s₀.ShortNames) (hsound : Sound s₀ st) (t : Turn) :
    Sound s₀ (st.turn run t) := by
  rcases turn_cases run st t with
    ⟨hstore, -, hids, -⟩ | ⟨src, dir, record, -, -, hdir, hread, hturn⟩
  · exact ⟨hstore ▸ hsound.owned, hstore ▸ hsound.tracks, hids ▸ hsound.family⟩
  · obtain ⟨file, hfile, hrecord⟩ := of_readRecord hread
    rw [hturn]
    exact sound_mergeRecord hsound hdir hfile hrecord (length_name_le hshort hsound hdir hfile)

/-- **One turn**, from one record. -/
theorem onePerCrash_turn (hshort : s₀.ShortNames) (hsound : Sound s₀ st) (hseen : st.SeenAll)
    (t : Turn) : (st.turn run t).SeenAll ∧
      ((st.turn run t).store.OnePerCrash ↔ st.store.OnePerCrash ∧ ¬ st.ResumesKnown run t) := by
  rcases turn_cases run st t with
    ⟨hstore, hkeys, -, hnot⟩ | ⟨src, dir, record, rfl, hhalted, hdir, hread, hturn⟩
  · constructor
    · rw [SeenAll, hstore, hkeys]
      exact hseen
    · rw [hstore]
      exact (and_iff_left hnot).symm
  · obtain ⟨file, hfile, hrecord⟩ := of_readRecord hread
    obtain ⟨hseen', hiff⟩ := onePerCrash_mergeRecord hsound hdir hfile hrecord
      (length_name_le hshort hsound hdir hfile) run hseen
    rw [hturn]
    refine ⟨hseen', hiff.trans (and_congr_right fun _ ↦ not_congr ⟨fun h ↦ ?_, ?_⟩)⟩
    · exact ⟨hhalted, dir, record, hdir, hread, h⟩
    · rintro ⟨-, dir', record', hdir', hread', h⟩
      obtain ⟨⟩ := hdir.symm.trans hdir'
      obtain rfl : record = record' := by simpa [hread] using hread'
      exact h

end MergeState

/-- A run that reads every committed record of the parent at its start. -/
structure Run.SurveysAll (run : Run) (s : Store) : Prop where
  /-- There are not too many entries. -/
  entries : s.parent.keys.length ≤ run.limits.entries
  /-- No record is too long. -/
  bytes : ∀ id file, s.committed id = some file → file.bytes ≤ run.limits.recordBytes

/-- A finding whose crash is committed already is resumed and completed in a run. -/
def Run.ResumesKnownCrash (run : Run) (s : Store) : Prop :=
  ¬ Along (MergeState.turn run) (.start run s) (s.turns run) fun st t ↦ ¬ st.ResumesKnown run t

section

variable {run : Run} {s s₀ : Store}

/-- Every committed record is held at the start of a run that reads them all. -/
theorem seenAll_start (h : run.SurveysAll s) : (start run s).SeenAll := by
  intro id file record hfile hrecord key hkey
  obtain ⟨dir, hdir, hdirRecord⟩ : ∃ dir, s.parent.lookup id = some dir ∧
      dir.record = some file := Option.bind_eq_some_iff.mp hfile
  have hlisted : id ∈ (realSubdirs run s.parent.keys).dirs := by
    have hperm := run.readDir_perm s.parent.keys
    refine (mergeSort_perm _ _).mem_iff.mpr ?_
    rw [take_of_length_le (hperm.length_eq ▸ h.entries), hperm.mem_iff]
    exact mem_keys.mp (lookup_isSome.mp (by simp [hdir]))
  have hread : readRecord run.limits dir = .ok (some record) := by
    rw [readRecord, hdirRecord]
    simp [not_lt.mpr (h.bytes id file hfile), hrecord]
  obtain ⟨pre, post, hdirs⟩ := append_of_mem hlisted
  show key ∈ (realSubdirs run s.parent.keys).dirs.foldl (survey run s) []
  rw [hdirs, foldl_append, foldl_cons]
  -- Its keys are held once its directory is read, and nothing that is held is dropped.
  refine foldlRecOn (motive := (key ∈ ·)) post _ ?_ fun seen hmem name _ ↦ ?_
  · rw [survey, hdir]
    simp only [Option.map_some, hread]
    exact mem_append_right _ hkey
  · rw [survey]
    split
    · exact mem_append_left _ hmem
    · exact hmem

theorem sound_mergeWith (run : Run) (hshort : s₀.ShortNames) (howned : Owned s)
    (htracks : Tracks s₀ s) : Sound s₀ (mergeWith run s) :=
  foldlRecOn _ _ ⟨howned, htracks, rfl⟩ fun _ hsound t _ ↦ sound_turn hshort hsound t

/-- **One run**, from its turns. -/
theorem onePerCrash_mergeWith (hshort : s₀.ShortNames) (howned : Owned s) (htracks : Tracks s₀ s)
    (hsurvey : run.SurveysAll s) :
    (mergeWith run s).store.OnePerCrash ↔ s.OnePerCrash ∧ ¬ run.ResumesKnownCrash s := by
  rw [Run.ResumesKnownCrash, not_not]
  exact good_foldl_iff (fun st ↦ Sound s₀ st ∧ st.SeenAll) (fun st ↦ st.store.OnePerCrash)
    (fun _ _ ↦ True) _ (fun st t h ↦ ⟨sound_turn hshort h.1 t,
      (onePerCrash_turn hshort h.1 h.2 t).1⟩) (fun st t h _ ↦ (onePerCrash_turn hshort h.1 h.2 t).2)
    ⟨⟨howned, htracks, rfl⟩, seenAll_start hsurvey⟩ (fun _ _ _ _ ↦ trivial)

/-- **No finding is lost**: each record of a worker, or one of the same finding, is in the parent or
still with the worker. -/
def Store.NothingLost (s₀ s : Store) : Prop :=
  ∀ src file₀, s₀.workerRecord src = some file₀ →
    (∃ file, s.workerRecord src = some file ∧ file.SameFinding file₀) ∨
      ∃ id file, s.committed id = some file ∧ file.SameFinding file₀

/-- **Committed directories are complete**: each is one of the parent's own, or has a worker
finding's record and all its files. -/
def Store.FilesKept (s₀ s : Store) : Prop :=
  ∀ id file, s.committed id = some file →
    s.parent.lookup id = s₀.parent.lookup id ∨
      ∃ src file₀, s₀.workerRecord src = some file₀ ∧ file.SameFinding file₀ ∧
        ∀ path content, s₀.WorkerHas src path content → s.ParentHas id path content

/-- **Repeated and interrupted merges.** Whatever fails in them, no finding is lost and committed
directories are complete; and if every run reads all committed records at its start, there is one
finding per crash exactly if no run resumes and completes a finding whose crash is committed. -/
theorem merges_one_per_crash_iff (howned : Owned s₀) (hshort : s₀.ShortNames)
    (hone : s₀.OnePerCrash) (runs : List Run) :
    s₀.NothingLost (mergeAll runs s₀) ∧ s₀.FilesKept (mergeAll runs s₀) ∧
      (Along (fun s run ↦ (mergeWith run s).store) s₀ runs (fun s run ↦ run.SurveysAll s) →
        ((mergeAll runs s₀).OnePerCrash ↔
          Along (fun s run ↦ (mergeWith run s).store) s₀ runs
            fun s run ↦ ¬ run.ResumesKnownCrash s)) := by
  have hstep : ∀ (s : Store) (run : Run), Owned s ∧ Tracks s₀ s →
      Owned (mergeWith run s).store ∧ Tracks s₀ (mergeWith run s).store := by
    intro s run h
    have hsound := sound_mergeWith run hshort h.1 h.2
    exact ⟨hsound.owned, hsound.tracks⟩
  have hstart : Owned s₀ ∧ Tracks s₀ s₀ := ⟨howned, .refl s₀⟩
  have hend : Owned (mergeAll runs s₀) ∧ Tracks s₀ (mergeAll runs s₀) :=
    foldlRecOn (motive := fun s ↦ Owned s ∧ Tracks s₀ s) runs _ hstart fun s h run _ ↦ hstep s run h
  refine ⟨hend.2.found, hend.2.committed, fun hsurvey ↦ ?_⟩
  have hiff := good_foldl_iff (fun s ↦ Owned s ∧ Tracks s₀ s) Store.OnePerCrash
    (fun s run ↦ Run.SurveysAll run s) (fun s run ↦ Run.ResumesKnownCrash run s) hstep
    (fun s run h hsurvey ↦ onePerCrash_mergeWith hshort h.1 h.2 hsurvey) hstart hsurvey
  exact hiff.trans (and_iff_right hone)

end

/-! ### Merges that go wrong -/

variable {s : Store}

theorem Store.mem_keys_of_workerRecord {src : Source} (h : s.workerRecord src ≠ none) :
    src ∈ s.workers.keys := by
  refine mem_keys.mp (lookup_isSome.mp ?_)
  cases hdir : s.workers.lookup src with
  | none => simp [workerRecord, hdir] at h
  | some _ => rfl

/-- Worker findings without an intent own theirs. -/
theorem owned_of_no_intent (h : ∀ src ∈ s.workers.keys, s.intent src = none) : Owned s := by
  have hnone : ∀ src, s.intent src = none := by
    intro src
    by_cases hrecord : s.workerRecord src = none
    · simp [intent, hrecord]
    · exact h src (mem_keys_of_workerRecord hrecord)
  exact ⟨by simp [hnone], by simp [hnone], by simp [hnone]⟩

/-- A run that reads directories as they are listed, with the failures that are given. -/
def Run.failing (fault : Source → Option Fault) : Run where
  limits := defaultLimits
  readDir names := names
  readDir_perm _ := .refl _
  unlisted _ := false
  prettyLen _ := 512
  fault := fault

/-- A worker finding with one file. -/
def workerFinding (cluster signature : Option String) : FindingDir where
  files := (∅ : Files).insert ["testcase.bin"] (.regular [1])
  record := some ⟨256, some
    { id := some "F-0000", history := none, harnessId := some "H-MULTI", ruleId := some "BHF-201",
      oracleName := none, oracleApi := none, clusterFallback := none, clusterKeyFull := cluster,
      signature }⟩

/-- Two workers that found the same crash. -/
def twoWorkers : Store where
  parent := ∅
  workerCount := 2
  workers := ((∅ : AList fun _ : Source ↦ FindingDir).insert (0, "F-0000-aaaaaaaa")
      (workerFinding (some "X") (some "aaaaaaaa11111111"))).insert (1, "F-0000-aaaaaaaa")
      (workerFinding (some "X") (some "aaaaaaaa11111111"))

/-- One worker, with a finding whose name has a suffix of 122 letters. -/
def longName : Store where
  parent := ∅
  workerCount := 1
  workers := (∅ : AList fun _ : Source ↦ FindingDir).insert
    (0, "F-0000-" ++ String.ofList (List.replicate 122 'a')) (workerFinding (some "X") none)

/-- A parent without findings has one finding per crash. -/
theorem onePerCrash_of_empty (h : s.parent = ∅) : s.OnePerCrash := by
  intro id _ file _ _ _ _ hfile
  simp [committed, h] at hfile

theorem exists_of_committed_keys {id : String} {keys : List (String × String)}
    (h : ((s.committed id).bind RecordFile.parsed).map Seen.keys = some keys) :
    ∃ file record, s.committed id = some file ∧ file.parsed = some record ∧
      Seen.keys record = keys := by
  obtain ⟨record, hrecord, hkeys⟩ := Option.map_eq_some_iff.mp h
  obtain ⟨file, hfile, hparsed⟩ := Option.bind_eq_some_iff.mp hrecord
  exact ⟨file, record, hfile, hparsed, hkeys⟩

/-- **A finding that was cut off is merged beside its duplicate**: the first worker's finding fails
once it is reserved, the second one's is merged, and the next run resumes the first. And a finding
whose parent id is too long to be resumed into is merged without the files that had moved. -/
theorem interrupted_merges_diverge :
    (Owned twoWorkers ∧ twoWorkers.OnePerCrash ∧
      ¬ (mergeAll [.failing fun src ↦ if src.1 = 0 then some ⟨.reserved, false⟩ else none,
        .failing fun _ ↦ none] twoWorkers).OnePerCrash) ∧
    (Owned longName ∧ longName.OnePerCrash ∧
      ¬ longName.FilesKept (mergeAll [.failing fun _ ↦ some ⟨.moved, false⟩,
        .failing fun _ ↦ none] longName)) := by
  refine ⟨⟨owned_of_no_intent (by decide +kernel), onePerCrash_of_empty rfl, fun hone ↦ ?_⟩,
    owned_of_no_intent (by decide +kernel), onePerCrash_of_empty rfl, fun hkept ↦ ?_⟩
  · have hmerged : ∀ id ∈ ["F-0000-aaaaaaaa", "F-0001-aaaaaaaa"], (((mergeAll [.failing fun src ↦
        if src.1 = 0 then some ⟨.reserved, false⟩ else none, .failing fun _ ↦ none]
        twoWorkers).committed id).bind RecordFile.parsed).map Seen.keys =
        some [("H-MULTI", "X"), ("H-MULTI", "signature:aaaaaaaa11111111")] := by decide +kernel
    obtain ⟨fileA, recordA, hfileA, hrecordA, hkeysA⟩ :=
      exists_of_committed_keys (hmerged "F-0000-aaaaaaaa" (by simp))
    obtain ⟨fileB, recordB, hfileB, hrecordB, hkeysB⟩ :=
      exists_of_committed_keys (hmerged "F-0001-aaaaaaaa" (by simp))
    exact hone _ _ fileA fileB recordA recordB (by decide) hfileA hrecordA hfileB hrecordB
      ("H-MULTI", "X") (by simp [hkeysA]) (by simp [hkeysB])
  · -- the directory that is committed by the second run, without the file that was moved
    have hmerged : ((mergeAll [.failing fun _ ↦ some ⟨.moved, false⟩, .failing fun _ ↦ none]
        longName).parent.lookup ("F-0001-" ++ ofList (replicate 122 'a'))).map
        (fun dir ↦ (dir.record.isSome, dir.files.lookup ["testcase.bin"])) = some (true, none) := by
      decide +kernel
    obtain ⟨dir, hdir, hparts⟩ := Option.map_eq_some_iff.mp hmerged
    obtain ⟨hrecord, hfree⟩ := Prod.mk.inj hparts
    obtain ⟨file, hfile⟩ := Option.isSome_iff_exists.mp hrecord
    rcases hkept _ file (by rw [committed, hdir]; exact hfile) with
      hold | ⟨src, file₀, hfile₀, -, hfiles⟩
    · rw [hdir] at hold
      simp [longName] at hold
    · have hsrc : src = (0, "F-0000-" ++ ofList (replicate 122 'a')) := by
        have hmem : src ∈ longName.workers.keys :=
          mem_keys_of_workerRecord (by simp [hfile₀])
        simpa [longName] using hmem
      obtain ⟨target, htarget, -, hlookup⟩ := hfiles ["testcase.bin"] [1]
        ⟨workerFinding (some "X") none, hsrc ▸ lookup_insert _, by decide, by decide⟩
      obtain ⟨⟩ := hdir.symm.trans htarget
      rw [hfree] at hlookup
      contradiction

/-- The run that cuts the first worker's finding off: it reads the whole parent, which is empty. -/
theorem merges_one_per_crash_iff_two_workers :
    twoWorkers.NothingLost (mergeAll
        [.failing fun src ↦ if src.1 = 0 then some ⟨.reserved, false⟩ else none] twoWorkers) ∧
      twoWorkers.FilesKept (mergeAll
        [.failing fun src ↦ if src.1 = 0 then some ⟨.reserved, false⟩ else none] twoWorkers) ∧
      ((mergeAll [.failing fun src ↦ if src.1 = 0 then some ⟨.reserved, false⟩ else none]
          twoWorkers).OnePerCrash ↔
        Along (fun s run ↦ (mergeWith run s).store) twoWorkers
          [.failing fun src ↦ if src.1 = 0 then some ⟨.reserved, false⟩ else none]
          fun s run ↦ ¬ run.ResumesKnownCrash s) := by
  have hshort : twoWorkers.ShortNames := by
    intro src hrecord
    have hall : ∀ src ∈ twoWorkers.workers.keys, src.2.toList.length ≤ 105 := by
      decide +kernel
    exact hall src (mem_keys_of_workerRecord hrecord)
  obtain ⟨hlost, hkept, hiff⟩ := merges_one_per_crash_iff
    (owned_of_no_intent (by decide +kernel)) hshort (onePerCrash_of_empty rfl)
    [.failing fun src ↦ if src.1 = 0 then some ⟨.reserved, false⟩ else none]
  refine ⟨hlost, hkept, hiff (along_cons.mpr ⟨⟨?_, fun id file hfile ↦ ?_⟩, along_nil⟩)⟩
  · exact Nat.zero_le _
  · simp [committed, twoWorkers] at hfile

end Bhf.MulticoreFuzz
