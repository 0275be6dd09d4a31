import Bhf.Lib.Interleaving

/-!
# A directory tree and the calls on it

Directories and files below one root, as the file-system calls of POSIX see them. A `Place` is the
list of names from the root inwards, so that a subtree is what has a common beginning and `rename`
replaces that beginning. The listing of a directory is part of the tree (`names`), which keeps the
tree finite where it is looked at and every call computable. Symbolic links are not modelled.

A call looks at the tree or changes it in one step (`DirTree.serve`), and says why it failed if it
did. `removeDir` takes empty directories only; **`rename` of a directory may replace an empty
directory and nothing else**. Programs over these calls are `DirTree.Fs`.
-/

namespace Bhf

open List

/-- The names from the root inwards. -/
abbrev Place := List String

namespace DirTree

inductive Entry
  | dir
  | file (content : List UInt8)
  deriving DecidableEq

inductive Errno
  | notFound
  | notADirectory
  | isADirectory
  | alreadyExists
  | directoryNotEmpty
  | invalidInput
  | resourceBusy

end DirTree

open DirTree

/-- What stands at each place, and the names in each directory. -/
structure DirTree where
  entry : Place → Option Entry
  names : Place → List String
  mem_names : ∀ d n, n ∈ names d ↔ entry (d ++ [n]) ≠ none
  root_dir : entry [] = some .dir
  parent_dir : ∀ d n, entry (d ++ [n]) ≠ none → entry d = some .dir

namespace DirTree

/-- The tree that has only a root. -/
def bare : DirTree where
  entry p := if p = [] then some .dir else none
  names _ := []
  mem_names d n := by simp
  root_dir := rfl
  parent_dir d n h := by simp at h

variable (fs : DirTree)

theorem names_eq_nil_iff {d : Place} : fs.names d = [] ↔ ∀ n, fs.entry (d ++ [n]) = none := by
  rw [eq_nil_iff_forall_not_mem]
  refine forall_congr' fun n ↦ ?_
  rw [fs.mem_names, not_not]

/-! ### Changes -/

/-- Remove a file or an empty directory. -/
def erase (p : Place) (hroot : p ≠ []) (hleaf : fs.names p = []) : DirTree where
  entry q := if q = p then none else fs.entry q
  names d := (fs.names d).filter fun n ↦ d ++ [n] ≠ p
  mem_names d n := by
    rw [List.mem_filter, fs.mem_names, decide_eq_true_iff]
    by_cases h : d ++ [n] = p <;> simp [h]
  root_dir := by rw [if_neg hroot.symm, fs.root_dir]
  parent_dir d n h := by
    have hn : fs.entry (d ++ [n]) ≠ none := fun hnone ↦ h (by simp [hnone])
    have hd : d ≠ p := by
      rintro rfl
      exact hn (fs.names_eq_nil_iff.1 hleaf n)
    rw [if_neg hd]
    exact fs.parent_dir d n hn

/-- Add a file or an empty directory. -/
def add (d : Place) (n : String) (leaf : Entry) (hdir : fs.entry d = some .dir)
    (hfresh : fs.entry (d ++ [n]) = none) : DirTree where
  entry q := if q = d ++ [n] then some leaf else fs.entry q
  names d' := if d' = d then n :: fs.names d' else fs.names d'
  mem_names d' n' := by
    by_cases hd : d' = d
    · subst hd
      by_cases hn : n' = n
      · simp [hn]
      · simp [hn, fs.mem_names]
    · have hne : d' ++ [n'] ≠ d ++ [n] := fun h ↦ hd (List.append_inj_left' h rfl)
      simp [hd, hne, fs.mem_names]
  root_dir := by rw [if_neg (by simp), fs.root_dir]
  parent_dir d' n' h := by
    have hd : fs.entry d' = some .dir := by
      by_cases heq : d' ++ [n'] = d ++ [n]
      · rw [List.append_inj_left' heq rfl, hdir]
      · rw [if_neg heq] at h
        exact fs.parent_dir d' n' h
    rw [if_neg fun hnew ↦ by simp [hnew, hfresh] at hd, hd]

/-- What stands at `q` once the subtree at `old` has been moved to `new`. -/
def movedEntry (old new q : Place) : Option Entry :=
  if new <+: q then fs.entry (old ++ q.drop new.length)
  else if old <+: q then none
  else fs.entry q

/-- The names in `q` once the subtree at `old` has been moved to `new`. -/
def movedNames (old new q : Place) : List String :=
  if new <+: q then fs.names (old ++ q.drop new.length)
  else if old <+: q then []
  else (fs.names q).filter (fun n ↦ q ++ [n] ≠ old ∧ q ++ [n] ≠ new) ++
    (if new.dropLast = q then new.getLast?.toList else [])

variable {fs} in
theorem movedEntry_append (old new r : Place) :
    fs.movedEntry old new (new ++ r) = fs.entry (old ++ r) := by
  rw [movedEntry, if_pos (prefix_append new r), drop_left]

variable {fs} in
theorem movedEntry_of_not {old new q : Place} (hnew : ¬new <+: q) :
    fs.movedEntry old new q = if old <+: q then none else fs.entry q := by
  rw [movedEntry, if_neg hnew]

/-- Move a subtree. -/
def move (old new : Place) (hroot : new ≠ []) (hold : fs.entry old ≠ none)
    (hparent : fs.entry new.dropLast = some .dir) (hapart : ¬old <+: new) : DirTree where
  entry := fs.movedEntry old new
  names := fs.movedNames old new
  mem_names q n := by
    by_cases hnew : new <+: q
    · obtain ⟨r, rfl⟩ := hnew
      rw [List.append_assoc, movedEntry_append, movedNames, if_pos (List.prefix_append new r),
        List.drop_left, fs.mem_names, List.append_assoc]
    by_cases hq : q ++ [n] = new
    · have holdq : ¬old <+: q := fun h ↦ hapart (hq ▸ h.trans (List.prefix_append q [n]))
      have hentry : fs.movedEntry old new (q ++ [n]) = fs.entry old := by
        have h : fs.movedEntry old new (new ++ []) = _ := movedEntry_append old new []
        rw [List.append_nil, List.append_nil] at h
        rw [hq, h]
      rw [hentry, movedNames, if_neg hnew, if_neg holdq,
        if_pos (by rw [← hq, List.dropLast_concat]), ← hq]
      simp [hold]
    · have hnewq : ¬new <+: q ++ [n] := by
        rw [List.prefix_concat_iff]
        exact not_or.2 ⟨fun h ↦ hq h.symm, hnew⟩
      rw [movedEntry_of_not hnewq, movedNames, if_neg hnew]
      by_cases holdq : old <+: q
      · rw [if_pos holdq, if_pos (holdq.trans (List.prefix_append q [n]))]
        simp
      rw [if_neg holdq]
      have hlast : n ∉ (if new.dropLast = q then new.getLast?.toList else []) := by
        split
        · next hdrop =>
          intro hmem
          refine hq ?_
          rw [← hdrop]
          exact List.dropLast_append_getLast? n (by simpa using hmem)
        · simp
      rw [List.mem_append, or_iff_left hlast, List.mem_filter, fs.mem_names, decide_eq_true_iff]
      by_cases hold' : q ++ [n] = old
      · rw [if_pos (by rw [hold'])]
        simp [hold']
      · have hnot : ¬old <+: q ++ [n] := by
          rw [List.prefix_concat_iff]
          exact not_or.2 ⟨fun h ↦ hold' h.symm, holdq⟩
        rw [if_neg hnot]
        simp [hold', hq]
  root_dir := by
    have hnew : ¬new <+: [] := fun h ↦ hroot (List.prefix_nil.1 h)
    have hold' : ¬old <+: [] := fun h ↦ hapart (List.prefix_nil.1 h ▸ List.nil_prefix)
    rw [movedEntry_of_not hnew, if_neg hold', fs.root_dir]
  parent_dir d n h := by
    by_cases hnew : new <+: d
    · obtain ⟨r, rfl⟩ := hnew
      rw [List.append_assoc, movedEntry_append, ← List.append_assoc] at h
      rw [movedEntry_append]
      exact fs.parent_dir _ n h
    rw [movedEntry_of_not hnew]
    by_cases hd : d ++ [n] = new
    · have hdrop : new.dropLast = d := by rw [← hd, List.dropLast_concat]
      have holdd : ¬old <+: d := fun h ↦ hapart (hd ▸ h.trans (List.prefix_append d [n]))
      rw [if_neg holdd, ← hdrop, hparent]
    · have hnewd : ¬new <+: d ++ [n] := by
        rw [List.prefix_concat_iff]
        exact not_or.2 ⟨fun h ↦ hd h.symm, hnew⟩
      rw [movedEntry_of_not hnewd] at h
      split at h
      · simp at h
      · next hold' =>
        rw [if_neg fun hpre ↦ hold' (hpre.trans (List.prefix_append d [n]))]
        exact fs.parent_dir d n h

/-! ### Calls -/

def isFile : Option Entry → Bool
  | some (.file _) => true
  | _ => false

@[simp] theorem isFile_none : isFile none = false :=
  rfl

@[simp] theorem isFile_dir : isFile (some .dir) = false :=
  rfl

@[simp] theorem isFile_file (content : List UInt8) : isFile (some (.file content)) :=
  rfl

/-- Why there is nothing at a place. -/
def missing (p : Place) : Errno :=
  if p.inits.any fun q ↦ isFile (fs.entry q) then .notADirectory else .notFound

def removeFile (p : Place) : Except Errno Unit × DirTree :=
  match _h : fs.entry p with
  | none => (.error (fs.missing p), fs)
  | some .dir => (.error .isADirectory, fs)
  | some (.file _) =>
    (.ok (), fs.erase p (by rintro rfl; simp [fs.root_dir] at _h) (by
      rw [fs.names_eq_nil_iff]
      intro n
      by_contra hn
      simp [fs.parent_dir p n hn] at _h))

def removeDir (p : Place) : Except Errno Unit × DirTree :=
  match fs.entry p with
  | none => (.error (fs.missing p), fs)
  | some (.file _) => (.error .notADirectory, fs)
  | some .dir =>
    if hroot : p = [] then (.error .resourceBusy, fs)
    else if hleaf : fs.names p = [] then (.ok (), fs.erase p hroot hleaf)
    else (.error .directoryNotEmpty, fs)

def createDir (p : Place) : Except Errno Unit × DirTree :=
  match _h : fs.entry p, hlast : p.getLast? with
  | some _, _ | none, none => (.error .alreadyExists, fs)
  | none, some n =>
    if hdir : fs.entry p.dropLast = some .dir then
      (.ok (), fs.add p.dropLast n .dir hdir
        (by rw [List.dropLast_append_getLast? n hlast, _h]))
    else (.error (fs.missing p), fs)

/-- What forbids moving an entry onto what stands at the new place. -/
def blocked (e : Entry) (new : Place) : Option Errno :=
  match e, fs.entry new with
  | _, none => none
  | .dir, some (.file _) => some .notADirectory
  | .dir, some .dir => if fs.names new = [] then none else some .directoryNotEmpty
  | .file _, some .dir => some .isADirectory
  | .file _, some (.file _) => none

def rename (old new : Place) : Except Errno Unit × DirTree :=
  match _h : fs.entry old with
  | none => (.error (fs.missing old), fs)
  | some e =>
    if hroot : new = [] then (.error .resourceBusy, fs)
    else if hdir : fs.entry new.dropLast = some .dir then
      if old = new then (.ok (), fs)
      else if hapart : old <+: new then (.error .invalidInput, fs)
      else
        match fs.blocked e new with
        | some errno => (.error errno, fs)
        | none => (.ok (), fs.move old new hroot (by simp [_h]) hdir hapart)
    else (.error (fs.missing new.dropLast), fs)

/-! ### What the calls do -/

variable {fs} {p old new : Place}

theorem missing_eq_notFound (h : ∀ q, q <+: p → isFile (fs.entry q) = false) :
    fs.missing p = .notFound := by
  rw [missing, if_neg]
  simpa [any_eq_true, mem_inits] using h

theorem removeFile_reply (p : Place) : (fs.removeFile p).1 =
    match fs.entry p with
    | none => .error (fs.missing p)
    | some .dir => .error .isADirectory
    | some (.file _) => .ok () := by
  rw [removeFile]
  split <;> simp_all

/-- Whatever happens, at most the file is gone. -/
theorem removeFile_entry (p q : Place) : (fs.removeFile p).2.entry q =
    if q = p ∧ isFile (fs.entry p) then none else fs.entry q := by
  rw [removeFile]
  split
  · next h => simp [h]
  · next h => simp [h]
  · next h => simp [h, erase]

theorem removeDir_of_empty (h : fs.entry p = some .dir) (hroot : p ≠ []) (hleaf : fs.names p = []) :
    (fs.removeDir p).1 = .ok () ∧
      ∀ q, (fs.removeDir p).2.entry q = if q = p then none else fs.entry q := by
  simp only [removeDir, h, dif_neg hroot, dif_pos hleaf]
  exact ⟨trivial, fun q ↦ rfl⟩

theorem removeDir_of_none (h : fs.entry p = none) :
    fs.removeDir p = (.error (fs.missing p), fs) := by
  simp only [removeDir, h]

variable {e : Entry}

theorem createDir_of_some (h : fs.entry p = some e) :
    fs.createDir p = (.error .alreadyExists, fs) := by
  rw [createDir]
  split <;> simp_all

theorem createDir_of_none {n : String} {d : Place} (h : fs.entry (d ++ [n]) = none)
    (hdir : fs.entry d = some .dir) :
    (fs.createDir (d ++ [n])).1 = .ok () ∧ ∀ q, (fs.createDir (d ++ [n])).2.entry q =
      if q = d ++ [n] then some .dir else fs.entry q := by
  rw [createDir]
  split
  · next hp => simp [h] at hp
  · next hp => simp at hp
  · next n' _ hlast =>
    obtain rfl : n = n' := by simpa using hlast
    rw [dif_pos (by rw [dropLast_concat, hdir])]
    refine ⟨rfl, fun q ↦ ?_⟩
    simp only [add, dropLast_concat]

theorem rename_of_none (h : fs.entry old = none) :
    fs.rename old new = (.error (fs.missing old), fs) := by
  rw [rename]
  split <;> simp_all

/-- A directory is moved if nothing stands at the new place. -/
theorem rename_of_free (hold : fs.entry old = some .dir) (hroot : new ≠ [])
    (hdir : fs.entry new.dropLast = some .dir) (hapart : ¬old <+: new)
    (hfree : fs.entry new = none) :
    (fs.rename old new).1 = .ok () ∧
      ∀ q, (fs.rename old new).2.entry q = fs.movedEntry old new q := by
  have hne : old ≠ new := by
    rintro rfl
    exact hapart prefix_rfl
  rw [rename]
  split
  · next h => simp [hold] at h
  next e h =>
  obtain rfl : e = .dir := by simpa [hold] using h.symm
  have hunblocked : fs.blocked .dir new = none := by simp only [blocked, hfree]
  rw [dif_neg hroot, dif_pos hdir, if_neg hne, dif_neg hapart]
  split
  · next hblocked => simp [hunblocked] at hblocked
  · exact ⟨rfl, fun q ↦ rfl⟩

/-! ### Programs -/

inductive Call
  | symlinkMetadata (p : Place)
  | pathExists (p : Place)
  | isDir (p : Place)
  | readDir (p : Place)
  | removeFile (p : Place)
  | removeDir (p : Place)
  | createDir (p : Place)
  | rename (old new : Place)

def Reply : Call → Type
  | .symlinkMetadata _ => Except Errno Entry
  | .pathExists _ => Bool
  | .isDir _ => Bool
  | .readDir _ => Except Errno (List String)
  | .removeFile _ => Except Errno Unit
  | .removeDir _ => Except Errno Unit
  | .createDir _ => Except Errno Unit
  | .rename _ _ => Except Errno Unit

/-- Answer a call. -/
def serve : (c : Call) → DirTree → Reply c × DirTree
  | .symlinkMetadata p, fs =>
    (match fs.entry p with
      | some e => .ok e
      | none => .error (fs.missing p), fs)
  | .pathExists p, fs => ((fs.entry p).isSome, fs)
  | .isDir p, fs => (decide (fs.entry p = some .dir), fs)
  | .readDir p, fs =>
    (match fs.entry p with
      | some .dir => .ok (fs.names p)
      | some (.file _) => .error .notADirectory
      | none => .error (fs.missing p), fs)
  | .removeFile p, fs => fs.removeFile p
  | .removeDir p, fs => fs.removeDir p
  | .createDir p, fs => fs.createDir p
  | .rename old new, fs => fs.rename old new

theorem serve_symlinkMetadata_of_some (h : fs.entry p = some e) :
    serve (.symlinkMetadata p) fs = (.ok e, fs) := by
  rw [serve, h]

theorem serve_pathExists_of_some (h : fs.entry p = some e) :
    serve (.pathExists p) fs = (true, fs) := by
  rw [serve, h]
  rfl

theorem serve_pathExists_of_none (h : fs.entry p = none) :
    serve (.pathExists p) fs = (false, fs) := by
  rw [serve, h]
  rfl

theorem serve_readDir_of_dir (h : fs.entry p = some .dir) :
    serve (.readDir p) fs = (.ok (fs.names p), fs) := by
  rw [serve, h]

/-- Programs that work on a directory tree. -/
abbrev Fs := Prog Reply

namespace Fs

def symlinkMetadata (p : Place) : Fs (Except Errno Entry) :=
  Prog.perform (Call.symlinkMetadata p)

def pathExists (p : Place) : Fs Bool :=
  Prog.perform (Call.pathExists p)

def isDir (p : Place) : Fs Bool :=
  Prog.perform (Call.isDir p)

def readDir (p : Place) : Fs (Except Errno (List String)) :=
  Prog.perform (Call.readDir p)

def removeFile (p : Place) : Fs (Except Errno Unit) :=
  Prog.perform (Call.removeFile p)

def removeDir (p : Place) : Fs (Except Errno Unit) :=
  Prog.perform (Call.removeDir p)

def createDir (p : Place) : Fs (Except Errno Unit) :=
  Prog.perform (Call.createDir p)

def rename (old new : Place) : Fs (Except Errno Unit) :=
  Prog.perform (Call.rename old new)

/-- A failed `createDir` is no failure if the directory is there. -/
def orIsDir (p : Place) (e : Errno) : Fs (Except Errno Unit) := do
  if ← isDir p then return .ok ()
  else return .error e

/-- Create a directory and its missing parents, given the names from the directory outwards. -/
def createDirAllRev : List String → Fs (Except Errno Unit)
  | [] => return .ok ()
  | n :: ns => do
    match ← createDir (n :: ns).reverse with
    | .ok () => return .ok ()
    | .error .notFound =>
      match ← createDirAllRev ns with
      | .error e => return .error e
      | .ok () =>
        match ← createDir (n :: ns).reverse with
        | .ok () => return .ok ()
        | .error e => orIsDir (n :: ns).reverse e
    | .error e => orIsDir (n :: ns).reverse e

def createDirAll (p : Place) : Fs (Except Errno Unit) :=
  createDirAllRev p.reverse

end Fs

end DirTree

end Bhf
