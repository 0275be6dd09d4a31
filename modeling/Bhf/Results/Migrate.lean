import Bhf.Lib.DirTree

/-!
# Moving a legacy work directory

`migrate_legacy` moves `<work>/findings` to `<work>/results/findings`, once. Several processes may
open the same work directory, so the code expects to be overtaken: wherever a call fails it asks
whether the legacy directory is gone, which only a migration can have done, and then leaves quietly.

The code is given as a program over the file-system calls it makes, one call for each call of the
source and in the same order; places are relative to the work directory. Reading a directory is one
call.
-/

namespace Bhf.Results

open DirTree

inductive MigrationOutcome
  | notNeeded
  | migrated

inductive ResultsError
  | io (path : Place) (source : Errno)
  | migrationConflict (legacy target : Place)

inductive ReclaimOutcome
  | proceed
  | peerMigrated

def resultsDir : Place := ["results"]

def findingsDir : Place := ["results", "findings"]

def legacyFindingsDir : Place := ["findings"]

/-- Index files of the old layout, which the next rebuild writes anew. -/
def legacyDerived : List Place :=
  [["FINDINGS.md"], ["findings.csv"], ["auto", "findings.csv"]]

/-- A peer has finished: the legacy directory is gone. -/
def peerMigrated (legacy : Place) : Fs Bool := do
  return !(← Fs.pathExists legacy)

def isNonemptyDir (path : Place) : Fs Bool := do
  match ← Fs.readDir path with
  | .ok (_ :: _) => return true
  | _ => return false

/-- The target was seen empty: remove it, unless a peer has left it so. -/
def reclaimEmptyTarget (legacy target : Place) : Fs (Except ResultsError ReclaimOutcome) := do
  if ← peerMigrated legacy then return .ok .peerMigrated
  match ← Fs.removeDir target with
  | .ok () => return .ok .proceed
  | .error source =>
    if ← peerMigrated legacy then return .ok .peerMigrated
    else return .error (.io target source)

/-- Make room at the target, or notice that a peer has taken it. -/
def reclaimTarget (legacy target : Place) : Fs (Except ResultsError ReclaimOutcome) := do
  if !(← Fs.pathExists target) then return .ok .proceed
  if ← isNonemptyDir target then
    if ← peerMigrated legacy then return .ok .peerMigrated
    else return .error (.migrationConflict legacy target)
  reclaimEmptyTarget legacy target

/-- Move the legacy directory, or notice that a peer has done so. -/
def renameOrDetectPeer (legacy target : Place) : Fs (Except ResultsError MigrationOutcome) := do
  match ← Fs.rename legacy target with
  | .ok () => return .ok .migrated
  | .error source =>
    if ← peerMigrated legacy then return .ok .notNeeded
    else return .error (.io legacy source)

/-- Delete the derived index files; a missing one is fine. -/
def removeDerived : List Place → Fs (Except ResultsError Unit)
  | [] => return .ok ()
  | path :: paths => do
    match ← Fs.removeFile path with
    | .ok () => removeDerived paths
    | .error .notFound => removeDerived paths
    | .error source => return .error (.io path source)

/-- Delete the generated scripts below the entries of a directory, whatever comes of it. -/
def removeReplays (target : Place) : List String → Fs Unit
  | [] => return ()
  | entry :: entries => do
    let _ ← Fs.removeFile (target ++ [entry, "replay.py"])
    removeReplays target entries

/-- The move itself and what surrounds it. -/
def moveFindings (legacy target : Place) : Fs (Except ResultsError MigrationOutcome) := do
  match ← removeDerived legacyDerived with
  | .error e => return .error e
  | .ok () =>
    match ← Fs.createDirAll resultsDir with
    | .error e => return .error (.io resultsDir e)
    | .ok () =>
      match ← renameOrDetectPeer legacy target with
      | .error e => return .error e
      | .ok .notNeeded => return .ok .notNeeded
      | .ok .migrated =>
        match ← Fs.readDir target with
        | .ok entries => removeReplays target entries
        | .error _ => pure ()
        return .ok .migrated

def migrateInner (legacy target : Place) : Fs (Except ResultsError MigrationOutcome) := do
  match ← reclaimTarget legacy target with
  | .error e => return .error e
  | .ok .peerMigrated => return .ok .notNeeded
  | .ok .proceed => moveFindings legacy target

/-- Move the legacy findings of a work directory. -/
def migrateLegacy : Fs (Except ResultsError MigrationOutcome) := do
  match ← Fs.symlinkMetadata legacyFindingsDir with
  | .ok .dir => migrateInner legacyFindingsDir findingsDir
  | .ok (.file _) => return .ok .notNeeded
  | .error .notFound => return .ok .notNeeded
  | .error source => return .error (.io legacyFindingsDir source)

end Bhf.Results
