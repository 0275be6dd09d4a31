import Bhf.FuzzEngine.Rng
import Bhf.ProtocolSession.Testcase

/-!
# Editing the sequence of a session

A structural mutation inserts, deletes, replaces or swaps messages and then **walks the whole new
sequence** through the state graph and checks the producers of its references (`finish`). An edit
that fails either check is an error, so whatever comes out of one is drivable and carries the path
it walked (`Edited.drivable_and_records`), however the edit was made.

`mutateSequence` draws one edit. When it cannot be made the testcase is returned as it was, with the
path it happened to carry.
-/

namespace Bhf.ProtocolSession

open AdaStateMachine FuzzEngine StateExcept List

inductive MutateError where
  | tooManyMessages (limit : ℕ)
  | illegalTransition (message state : String)
  | strandedRef (message reference : String)
  | unknownMessage (name : String)
  | indexOutOfRange (index : ℕ)

/-- The name of a state, or a question mark. -/
def displayName (graph : ProtocolStateGraph) (id : StateId) : String :=
  (graph.stateName id).getD "?"

def stateIdsFrom (graph : ProtocolStateGraph) : StateId → List String → Option (List StateId)
  | cur, [] => some [cur]
  | cur, name :: names => do
    let next ← graph.nextState cur name
    let path ← stateIdsFrom graph next names
    return cur :: path

def stateIds (model : ProtocolModel) (names : List String) : Option (List StateId) :=
  stateIdsFrom model.graph model.graph.initial names

def statePathFrom (graph : ProtocolStateGraph) :
    StateId → List String → Except MutateError (List String)
  | cur, [] => .ok [displayName graph cur]
  | cur, name :: names =>
    match graph.nextState cur name with
    | some next => (statePathFrom graph next names).map (displayName graph cur :: ·)
    | none => .error (.illegalTransition name (displayName graph cur))

def statePathNames (model : ProtocolModel) (names : List String) :
    Except MutateError (List String) :=
  statePathFrom model.graph model.graph.initial names

/-- A reference needs its producer among the messages before it. -/
def checkRef (message : String) (before : List MessageInstance) (field : CompiledField) :
    Except MutateError Unit :=
  match field.role with
  | .ref source _ _ =>
    if before.any fun m ↦ m.message == producerOf source then .ok ()
    else .error (.strandedRef message source)
  | _ => .ok ()

def checkRefsFrom (model : ProtocolModel) (before : List MessageInstance) :
    List MessageInstance → Except MutateError Unit
  | [] => .ok ()
  | self :: after => do
    let compiled ← okOr (.unknownMessage self.message) (model.message self.message)
    compiled.fields.forM (checkRef self.message before)
    checkRefsFrom model (before ++ [self]) after

def checkRefs (model : ProtocolModel) (messages : List MessageInstance) : Except MutateError Unit :=
  checkRefsFrom model [] messages

/-- Check a new sequence; the evidence of earlier runs is dropped. -/
def finish (testcase : SessionTestcase) (model : ProtocolModel) (messages : List MessageInstance) :
    Except MutateError SessionTestcase := do
  let statePath ← statePathNames model (messages.map MessageInstance.message)
  checkRefs model messages
  return {
    profileSha256 := testcase.profileSha256
    messages := messages
    statePath := statePath
    capturedResponses := []
    bindings := ∅ }

/-! ### Edits -/

section

variable (testcase : SessionTestcase) (model : ProtocolModel)

def insertMessage (index : ℕ) (message : String) (maxMessages : ℕ) :
    Except MutateError SessionTestcase :=
  if testcase.messages.length + 1 > maxMessages then .error (.tooManyMessages maxMessages)
  else do
    let compiled ← okOr (.unknownMessage message) (model.message message)
    finish testcase model
      (testcase.messages.insertIdx (min index testcase.messages.length) (.fromSeed compiled))

def deleteMessage (index : ℕ) : Except MutateError SessionTestcase :=
  if index ≥ testcase.messages.length then .error (.indexOutOfRange index)
  else finish testcase model (testcase.messages.eraseIdx index)

def replaceMessage (index : ℕ) (message : String) : Except MutateError SessionTestcase := do
  let compiled ← okOr (.unknownMessage message) (model.message message)
  if index ≥ testcase.messages.length then .error (.indexOutOfRange index)
  else finish testcase model (testcase.messages.set index (.fromSeed compiled))

/-- Swap the messages at two indices. -/
def reorder (i j : ℕ) : Except MutateError SessionTestcase :=
  match testcase.messages[i]?, testcase.messages[j]? with
  | some a, some b => finish testcase model ((testcase.messages.set i b).set j a)
  | _, _ => .error (.indexOutOfRange (max i j))

/-! ### Drawing an edit -/

/-- A message that is open in the state before a position; a testcase has a state there. -/
def chooseEntry (states : List StateId) (pos : ℕ) : Gen String := do
  let state ← orGiveUp states[pos]?
  let entries := model.graph.openEntriesAt state
  let i ← chooseIndex entries.length
  orGiveUp entries[i]?

/-- Draw one of the four edits; giving up leaves the testcase alone. -/
def drawEdit (maxMessages : ℕ) (states : List StateId) :
    Gen (Except MutateError SessionTestcase) := do
  let len := testcase.messages.length
  match (← nextU64).toNat % 4 with
  | 0 => do
    let pos ← chooseIndex (len + 1)
    let entry ← chooseEntry model states pos
    return insertMessage testcase model pos entry maxMessages
  | 1 => do
    let pos ← chooseIndex len
    return deleteMessage testcase model pos
  | 2 => do
    let pos ← chooseIndex len
    let entry ← chooseEntry model states pos
    return replaceMessage testcase model pos entry
  | _ => do
    giveUpIf (len < 2)
    let i ← chooseIndex len
    let j ← chooseIndex len
    return reorder testcase model i j

/-- The edited testcase, or the given one when there is no edit or it fails. -/
def orUnchanged : Except Unit (Except MutateError SessionTestcase) → SessionTestcase
  | .ok (.ok edited) => edited
  | _ => testcase

def mutateSequence (maxMessages : ℕ) (rng : MutationRng) : SessionTestcase × MutationRng :=
  match stateIds model testcase.messageNames with
  | none => (testcase, rng)
  | some states =>
    let outcome := (drawEdit testcase model maxMessages states).exec rng
    (orUnchanged testcase outcome.1, outcome.2)

end

/-! ### What the checks establish -/

theorem walk_of_statePathFrom {graph : ProtocolStateGraph} {cur : StateId} {names : List String}
    {statePath : List String} (h : statePathFrom graph cur names = .ok statePath) :
    ∃ path, Walk graph.nextState cur names path ∧ statePath = path.map (displayName graph) := by
  induction names generalizing cur statePath with
  | nil => exact ⟨[cur], .nil cur, (Except.ok.inj h).symm⟩
  | cons name names ih =>
    rw [statePathFrom] at h
    split at h
    · next t ht =>
      obtain ⟨rest, hrest, rfl⟩ := except_map_eq_ok h
      obtain ⟨path, hwalk, rfl⟩ := ih hrest
      exact ⟨cur :: path, .cons ht hwalk, rfl⟩
    · contradiction

variable {model : ProtocolModel}

/-- The messages checked so far count as earlier ones. -/
theorem produced_of_checkRefsFrom {earlier messages : List MessageInstance}
    (h : checkRefsFrom model earlier messages = .ok ()) :
    ∀ before self after, messages = before ++ self :: after →
      ∀ compiled, model.message self.message = some compiled →
        ∀ field ∈ compiled.fields, ∀ source width endian, field.role = .ref source width endian →
          ∃ m ∈ earlier ++ before, m.message = producerOf source := by
  induction messages generalizing earlier with
  | nil => simp
  | cons m messages ih =>
    obtain ⟨compiled, hcompiled, h⟩ := ok_of_bind h
    obtain ⟨⟨⟩, hfields, hrest⟩ := ok_of_bind h
    intro before self after heq
    cases before with
    | nil =>
      obtain ⟨rfl, rfl⟩ := cons.inj heq
      intro compiled' hcompiled' field hfield source width endian hrole
      obtain rfl : compiled = compiled' := by simpa [hcompiled', okOr] using hcompiled.symm
      rw [append_nil]
      have hcheck := of_forM_eq_ok hfields field hfield
      simp only [checkRef, hrole] at hcheck
      split at hcheck
      · next hany => simpa using hany
      · contradiction
    | cons b before =>
      obtain ⟨rfl, rfl⟩ := cons.inj heq
      simpa using ih hrest before self after rfl

/-- A sequence that passes the checks is drivable if it is not too long, and the testcase made of
it carries its path. -/
theorem drivable_and_records_of_finish {testcase edited : SessionTestcase}
    {messages : List MessageInstance} {maxMessages : ℕ} (hwired : Wired model)
    (h : finish testcase model messages = .ok edited) (hlen : messages.length ≤ maxMessages) :
    Drivable model maxMessages edited.messages ∧ Records model edited := by
  obtain ⟨statePath, hpath, h⟩ := ok_of_bind h
  obtain ⟨⟨⟩, hrefs, h⟩ := ok_of_bind h
  obtain ⟨⟩ := h
  obtain ⟨path, hwalk, rfl⟩ := walk_of_statePathFrom hpath
  have hproduced : Produced model messages := by
    simpa [Produced] using produced_of_checkRefsFrom hrefs
  refine ⟨⟨⟨path, hwalk⟩, hlen, hproduced⟩, path, hwalk, ?_⟩
  -- every state on a walk is shown under its own name
  rw [map_map]
  refine map_congr_left fun s hs ↦ ?_
  obtain ⟨name, hname⟩ := hwalk.forall_mem hwired.initial_named (fun _ _ _ ↦ hwired.named) s hs
  show model.graph.stateName s = some ((model.graph.stateName s).getD "?")
  rw [hname, Option.getD_some]

/-! ### Edits that were made -/

/-- The result of an insertion, a deletion, a replacement or a swap that succeeded. -/
inductive Edited (model : ProtocolModel) (maxMessages : ℕ) (testcase edited : SessionTestcase) :
    Prop
  | insert (index : ℕ) (message : String)
      (h : insertMessage testcase model index message maxMessages = .ok edited)
  | delete (index : ℕ) (h : deleteMessage testcase model index = .ok edited)
  | replace (index : ℕ) (message : String)
      (h : replaceMessage testcase model index message = .ok edited)
  | reorder (i j : ℕ) (h : ProtocolSession.reorder testcase model i j = .ok edited)

section

variable {model : ProtocolModel} {maxMessages : ℕ} {testcase edited : SessionTestcase}

/-- An edit ends in the checks on a sequence that is not too long. -/
theorem Edited.exists_finish (h : Edited model maxMessages testcase edited)
    (hlen : testcase.messages.length ≤ maxMessages) :
    ∃ messages, messages.length ≤ maxMessages ∧ finish testcase model messages = .ok edited := by
  cases h with
  | insert index message h =>
    rw [insertMessage] at h
    split at h
    · contradiction
    next hroom =>
    obtain ⟨compiled, -, h⟩ := ok_of_bind h
    refine ⟨_, ?_, h⟩
    rw [length_insertIdx_of_le_length (min_le_right _ _)]
    omega
  | delete index h =>
    rw [deleteMessage] at h
    split at h
    · contradiction
    · exact ⟨_, (length_eraseIdx_le _ _).trans hlen, h⟩
  | replace index message h =>
    obtain ⟨compiled, -, h⟩ := ok_of_bind h
    split at h
    · contradiction
    · exact ⟨_, by rwa [length_set], h⟩
  | reorder i j h =>
    rw [ProtocolSession.reorder] at h
    split at h
    · exact ⟨_, by rwa [length_set, length_set], h⟩
    · contradiction

/-- A sequence that was edited can be driven, and its testcase carries the path it walks. -/
theorem Edited.drivable_and_records (hwired : Wired model)
    (h : Edited model maxMessages testcase edited) (hlen : testcase.messages.length ≤ maxMessages) :
    Drivable model maxMessages edited.messages ∧ Records model edited := by
  obtain ⟨messages, hmessages, hfinish⟩ := h.exists_finish hlen
  exact drivable_and_records_of_finish hwired hfinish hmessages

variable (model maxMessages testcase) in
theorem yields_drawEdit (states : List StateId) :
    Yields (drawEdit testcase model maxMessages states) fun result ↦
      ∀ edited, result = .ok edited → Edited model maxMessages testcase edited := by
  refine yields_bind fun draw ↦ ?_
  split
  · exact yields_bind fun pos ↦ yields_bind fun entry ↦ yields_pure fun _ h ↦ .insert pos entry h
  · exact yields_bind fun pos ↦ yields_pure fun _ h ↦ .delete pos h
  · exact yields_bind fun pos ↦ yields_bind fun entry ↦ yields_pure fun _ h ↦ .replace pos entry h
  · refine yields_bind fun _ ↦ yields_bind fun i ↦ yields_bind fun j ↦ yields_pure fun _ h ↦ ?_
    exact .reorder i j h

/-- The states that the edits are drawn by are those of the walk. -/
theorem stateIdsFrom_of_walk {graph : ProtocolStateGraph} {cur : StateId} {names : List String}
    {path : List StateId} (h : Walk graph.nextState cur names path) :
    stateIdsFrom graph cur names = some path := by
  induction h with
  | nil => rfl
  | cons hstep _ ih => simp [stateIdsFrom, hstep, ih]

/-- **A mutant is what the edit drawn makes of the testcase**, or the testcase itself if no edit was
drawn or the one that was failed. -/
theorem mutateSequence_eq (maxMessages : ℕ) {states : List StateId}
    (h : stateIds model testcase.messageNames = some states) (rng : MutationRng) :
    (∀ edited, (exec (drawEdit testcase model maxMessages states) rng).1 = .ok (.ok edited) →
      (mutateSequence testcase model maxMessages rng).1 = edited ∧
        Edited model maxMessages testcase edited) ∧
    ((∀ edited, (exec (drawEdit testcase model maxMessages states) rng).1 ≠ .ok (.ok edited)) →
      (mutateSequence testcase model maxMessages rng).1 = testcase) := by
  have hmutant : (mutateSequence testcase model maxMessages rng).1 =
      orUnchanged testcase (exec (drawEdit testcase model maxMessages states) rng).1 := by
    rw [mutateSequence, h]
  rw [hmutant]
  rcases hdraw : exec (drawEdit testcase model maxMessages states) rng with ⟨_ | _ | edited, rng'⟩
  · simp [orUnchanged]
  · simp [orUnchanged]
  · have hedit := yields_drawEdit model maxMessages testcase states rng _ _ hdraw edited rfl
    simpa [orUnchanged] using hedit

end

end Bhf.ProtocolSession
