
/-!
# Finding records and their crash keys

The parts of a `finding.json` object that the merge of worker findings reads or writes. A field is
`none` where the object lacks it or holds a value of another kind, which the code does not tell
apart. A record's crash is named by its **keys**: the key a fuzz run dedupes on, and its signature.
-/

namespace Bhf.Corpus

/-- An entry of a record's history. -/
structure HistoryEntry where
  command : Option String
  fields : Option (List String)

structure Record where
  /-- The id under which the finding is filed. -/
  id : Option String
  /-- What happened to it before. -/
  history : Option (List HistoryEntry)
  /-- The harness that found it. -/
  harnessId : Option String
  /-- The rule that fired. -/
  ruleId : Option String
  /-- The oracle that reported it. -/
  oracleName : Option String
  /-- The call that the oracle watched. -/
  oracleApi : Option String
  /-- There were no frames to cluster on. -/
  clusterFallback : Option Bool
  /-- The digest of the cluster. -/
  clusterKeyFull : Option String
  /-- The digest of the crash. -/
  signature : Option String

/-- Record that a command rewrote some fields. -/
def appendHistory (record : Record) (command : String) (fields : List String) : Record :=
  let entry : HistoryEntry := ⟨some command, some fields⟩
  { record with
    history := match record.history with
      | some history => some (history ++ [entry])
      | none => some [entry] }

/-- The key a fuzz run dedupes an emitted finding on, by the set it lives in. -/
inductive RunDedupeKey where
  | oracle (key : String)
  | cluster (key : String)

def RunDedupeKey.key : RunDedupeKey → String
  | .oracle key => key
  | .cluster key => key

def runDedupeKey (record : Record) : Option RunDedupeKey :=
  match record.ruleId, record.oracleName, record.oracleApi with
  | some ruleId, some name, some api => some (.oracle (ruleId ++ "|" ++ name ++ "|" ++ api))
  | ruleId, _, _ =>
    if record.clusterFallback.getD false then
      (ruleId.filter (· ≠ "")).map fun ruleId ↦ .cluster ("rule:" ++ ruleId)
    else
      (record.clusterKeyFull.filter (· ≠ "")).map .cluster

/-- Every key that names a record's crash. -/
def dedupeKeys (record : Record) : List String :=
  let run := (runDedupeKey record).map RunDedupeKey.key
  let signature := (record.signature.filter (· ≠ "")).map ("signature:" ++ ·)
  run.toList ++ signature.toList

/-- A record without what a merge rewrites in it. -/
def Record.body (record : Record) : Record :=
  { record with id := none, history := none }

end Bhf.Corpus
