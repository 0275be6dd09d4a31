import Bhf.ProtocolSession.Runner

/-!
# Mutants can be driven

A drivable sequence is never refused by the runner. Its messages are known because they are on edges
of the graph, and its steps are legal because it is a walk. When a message is encoded the producers
of its references have been sent, so their captures are bound (`Bound`).

What is left is the **type of the capture**. A profile may refer to a capture of bytes, which is
bound like any other and then has no integer view; only such a reference can still be unresolved.
-/

namespace Bhf.ProtocolSession

open AdaStateMachine FuzzEngine FuzzEngine.BinFrame StateExcept ProtocolModel

/-! ### Errors of a drive -/

/-- One of the messages has a reference of this name whose source is a capture of bytes. -/
def TakesBytes (model : ProtocolModel) (messages : List MessageInstance) (name source : String) :
    Prop :=
  ∃ self ∈ messages, ∃ compiled, model.message self.message = some compiled ∧
    ∃ field ∈ compiled.fields, field.name = name ∧
      (∃ width endian, field.role = .ref source width endian) ∧
        ∃ len, model.referenced source = some (.bytes len)

/-- The errors that remain when a drivable sequence is driven. -/
def Remaining (model : ProtocolModel) (messages : List MessageInstance) : RunnerError → Prop
  | .unknownMessage _ => False
  | .illegalTransition .. => False
  | .encode (.unknownMessage _) => False
  | .encode (.unresolved name source) => TakesBytes model messages name source
  | _ => True

section

variable {σ : Type} {model : ProtocolModel} {transport : SessionTransport σ}
  {messages : List MessageInstance}

/-- A capture of a name is there if any is. -/
theorem exists_captured {m : CompiledMessage} {name : String}
    (h : ∃ c ∈ m.response, c.name = name) : ∃ spec, m.captured name = some spec := by
  obtain ⟨c, hc, hname⟩ := h
  have hsome : (m.response.reverse.find? fun c ↦ c.name == name).isSome :=
    List.find?_isSome.mpr ⟨c, List.mem_reverse.mpr hc, by simpa using hname⟩
  obtain ⟨c', hc'⟩ := Option.isSome_iff_exists.mp hsome
  exact ⟨c'.spec, by rw [CompiledMessage.captured, hc']; rfl⟩

variable {sent : List MessageInstance}

/-- With the producers sent, a reference that stays open names a capture of bytes. -/
theorem settles_encodeMessage (hwired : Wired model)
    {bindings : Bindings} (hbound : Bound model sent bindings) {self : MessageInstance}
    (hself : self ∈ messages) {compiled : CompiledMessage}
    (hcompiled : model.message self.message = some compiled)
    (hproduced : ∀ field ∈ compiled.fields, ∀ source width endian,
      field.role = .ref source width endian → ∃ m ∈ sent, m.message = producerOf source) :
    Settles ((encodeMessage model self bindings).mapError RunnerError.encode) (fun _ ↦ True)
      (Remaining model messages) := by
  have hframe := settles_buildFrame compiled self.values bindings
  rw [encodeMessage, hcompiled]
  refine hframe.mapError fun e he ↦ ?_
  cases e with
  | unknownMessage name => exact he
  | unresolved name source =>
    obtain ⟨field, hfield, hname, ⟨width, endian, hrole⟩, hnone⟩ := he
    obtain ⟨message, capture, producer, hsplit, hproducer, hcapture⟩ :=
      hwired.sourced hcompiled hfield hrole
    obtain ⟨spec, hspec⟩ := exists_captured hcapture
    have hreferenced : model.referenced source = some spec := by
      simp only [ProtocolModel.referenced, hsplit, hproducer, Option.bind_some, hspec]
    have hsent := hproduced field hfield source width endian hrole
    rw [producerOf, hsplit] at hsent
    obtain ⟨value, hvalue, hbytes⟩ := hbound source message capture hsplit hsent spec hreferenced
    obtain ⟨len, rfl⟩ := hbytes (by simpa [hvalue] using hnone)
    exact ⟨self, hself, compiled, hcompiled, field, hfield, hname, ⟨width, endian, hrole⟩, len,
      hreferenced⟩
  | missingValue | typeMismatch | valueTooWide | boundExceeded | unknownSymbol | frame => trivial

/-- One round: the step is taken and what was captured is bound. -/
theorem ends_driveStep (hwired : Wired model) {p : Progress}
    (hbound : Bound model sent p.bindings) {self : MessageInstance} (hself : self ∈ messages)
    {next : StateId} (hnext : model.graph.nextState p.cur self.message = some next)
    (hproduced : ∀ compiled, model.message self.message = some compiled →
      ∀ field ∈ compiled.fields, ∀ source width endian,
        field.role = .ref source width endian → ∃ m ∈ sent, m.message = producerOf source) :
    Ends (driveStep model transport p self)
      (fun p' ↦ p'.cur = next ∧ Bound model (sent ++ [self]) p'.bindings)
      (Remaining model messages) := by
  obtain ⟨compiled, hcompiled⟩ := hwired.known hnext
  rw [driveStep, hcompiled, hnext]
  refine (ends_pure (P := fun c ↦ compiled = c) rfl).bind ?_
  rintro _ rfl
  refine (ends_pure (P := fun s ↦ next = s) rfl).bind ?_
  rintro _ rfl
  refine (ends_fromExcept (settles_encodeMessage hwired hbound hself hcompiled
    (hproduced _ hcompiled))).bind fun encoded _ ↦ ?_
  refine ((ends_true _).mapError fun _ _ ↦ trivial).bind fun reply _ ↦ ?_
  have hextract : Settles (extract self.message compiled.response reply)
      (fun captures ↦ extract self.message compiled.response reply = .ok captures) fun _ ↦ True :=
    settles_of_ok fun _ h ↦ h
  refine (ends_fromExcept (hextract.mapError fun _ _ ↦ trivial)).bind fun captures hcaptures ↦ ?_
  exact ends_pure ⟨rfl, hbound.send hcompiled hcaptures⟩

/-- The rest of a drivable sequence, after the messages that were sent. -/
theorem ends_driveFrom (hwired : Wired model) (hproduced : Produced model messages)
    {rest : List MessageInstance} (hsplit : messages = sent ++ rest) {p : Progress}
    (hbound : Bound model sent p.bindings) {path : List StateId}
    (hwalk : Walk model.graph.nextState p.cur (rest.map MessageInstance.message) path) :
    Ends (driveFrom model transport p rest) (fun _ ↦ True) (Remaining model messages) := by
  induction rest generalizing sent p path with
  | nil => exact ends_pure trivial
  | cons self rest ih =>
    cases hwalk with
    | cons hnext hrest =>
      refine (ends_driveStep hwired hbound (by simp [hsplit]) hnext
        (hproduced sent self rest hsplit)).bind fun p' hp' ↦ ?_
      obtain ⟨rfl, hbound'⟩ := hp'
      split
      · exact ends_pure trivial
      · exact ih (by simp [hsplit]) hbound' hrest

/-- A drivable sequence is driven to its end, to a finding, or to one of the remaining errors. -/
theorem ends_drive (hwired : Wired model) {maxMessages : ℕ}
    (h : Drivable model maxMessages messages) :
    Ends (drive model transport messages) (fun _ ↦ True) (Remaining model messages) := by
  obtain ⟨path, hwalk⟩ := h.legal
  have hbound : Bound model [] (Progress.initial model).bindings := by
    rintro source message capture - ⟨m, hm, -⟩
    exact absurd hm List.not_mem_nil
  refine ((ends_true _).mapError fun _ _ ↦ trivial).bind fun _ _ ↦ ?_
  exact (ends_driveFrom hwired h.produced rfl hbound hwalk).bind fun _ _ ↦ ends_pure trivial

end

/-! ### Mutants -/

/-- **Mutants are drivable.** An edit that succeeds keeps the sequence drivable and records the path
it walks; a mutant is what the edit drawn makes of the testcase, and the testcase unchanged only if
that edit cannot be made. Whatever the values of its fields and
the replies are, driving a drivable sequence stops at no unknown message and at no illegal step, and
a reference is unresolved only where its capture takes bytes. -/
theorem mutants_drivable {parseToml : String → Except String RawProfile}
    {hexSha256 : Bytes → String} {source : String} {profile : Profile} {model : ProtocolModel}
    (hprofile : Profile.fromToml parseToml hexSha256 source = .ok profile)
    (hmodel : ProtocolModel.fromProfile profile = .ok model) {maxMessages : ℕ}
    {testcase : SessionTestcase} (h : Drivable model maxMessages testcase.messages) :
    (∀ edited, Edited model maxMessages testcase edited →
      Drivable model maxMessages edited.messages ∧ Records model edited) ∧
    (∃ states, stateIds model testcase.messageNames = some states ∧ ∀ rng,
      Drivable model maxMessages (mutateSequence testcase model maxMessages rng).1.messages ∧
      (∀ edited, (exec (drawEdit testcase model maxMessages states) rng).1 = .ok (.ok edited) →
        (mutateSequence testcase model maxMessages rng).1 = edited ∧
          Edited model maxMessages testcase edited ∧ Records model edited) ∧
      ((∀ edited, (exec (drawEdit testcase model maxMessages states) rng).1 ≠ .ok (.ok edited)) →
        (mutateSequence testcase model maxMessages rng).1 = testcase)) ∧
    ∀ (σ : Type) (transport : SessionTransport σ) (s : σ) (error : RunnerError),
      (exec (drive model transport testcase.messages) s).1 = .error error →
        (∀ name, error ≠ .unknownMessage name) ∧
        (∀ message state, error ≠ .illegalTransition message state) ∧
        ∀ name reference, error = .encode (.unresolved name reference) →
          TakesBytes model testcase.messages name reference := by
  have hwired := wired_of_fromProfile (accepted_of_fromToml hprofile) hmodel
  have hedited : ∀ edited, Edited model maxMessages testcase edited →
      Drivable model maxMessages edited.messages ∧ Records model edited :=
    fun _ hedit ↦ hedit.drivable_and_records hwired h.short
  obtain ⟨states, hwalk⟩ := h.legal
  have hstates : stateIds model testcase.messageNames = some states := stateIdsFrom_of_walk hwalk
  refine ⟨hedited, ⟨states, hstates, fun rng ↦ ?_⟩, fun σ transport s error herror ↦ ?_⟩
  · obtain ⟨hmade, hunchanged⟩ := mutateSequence_eq maxMessages hstates rng
    refine ⟨?_, fun edited hdraw ↦ ?_, hunchanged⟩
    · by_cases hdraw : ∃ edited,
          (exec (drawEdit testcase model maxMessages states) rng).1 = .ok (.ok edited)
      · obtain ⟨edited, hdraw⟩ := hdraw
        obtain ⟨hmutant, hedit⟩ := hmade edited hdraw
        exact hmutant ▸ (hedited _ hedit).1
      · exact (hunchanged (not_exists.1 hdraw)).symm ▸ h
    · obtain ⟨hmutant, hedit⟩ := hmade edited hdraw
      exact ⟨hmutant, hedit, (hedited _ hedit).2⟩
  · have hremaining : Settles (exec (drive model transport testcase.messages) s).1 _ _ :=
      ends_drive hwired h s
    rw [herror] at hremaining
    refine ⟨?_, ?_, ?_⟩
    · rintro name rfl
      exact hremaining
    · rintro message state rfl
      exact hremaining
    · rintro name reference rfl
      exact hremaining

/-- A profile with two messages; the second one echoes a handle that the reply to the first one
holds. -/
def openWrite (handle : FieldType) : RawProfile where
  schema := "bhf.protocol.v1"
  maxMessages := none
  start := none
  message := [
    { name := "OPEN", fields := [{ name := "op", ty := .u8 }]
      response := some ⟨[{ name := "handle", ty := handle, pos := 0, len := some 4 }]⟩ },
    { name := "WRITE", fields := [
      { name := "handle", ty := .u32, reference := some "OPEN.response.handle" }] }]
  transition := [⟨"start", "OPEN", "opened"⟩, ⟨"opened", "WRITE", "opened"⟩]
  oracle := []

def openWriteProfile (handle : FieldType) : Profile where
  schema := "bhf.protocol.v1"
  maxMessages := 64
  startState := "start"
  messages := (openWrite handle).message
  transitions := (openWrite handle).transition
  oracles := []
  sourceSha256 := ""

def openWriteModel (handle : CaptureSpec) : ProtocolModel where
  profileSha256 := ""
  maxMessages := 64
  startState := "start"
  messages := [
    { name := "OPEN", maxLen := 65536
      fields := [{ name := "op", optional := false, role := .data (.int .u8 .big), seed := none }]
      response := [{ name := "handle", pos := 0, spec := handle }] },
    { name := "WRITE", maxLen := 65536
      fields := [{
        name := "handle", optional := false, role := .ref "OPEN.response.handle" .u32 .big
        seed := none }]
      response := [] }]
  graph := {
    states := ["start", "opened"]
    openEntries := [["OPEN"], ["WRITE"]]
    initial := 0
    edges := [⟨0, "OPEN", 1⟩, ⟨1, "WRITE", 1⟩] }
  oracles := []

/-- The seed instances of the two messages. -/
def openWriteSession : List MessageInstance :=
  [⟨"OPEN", [⟨"op", .int 0⟩]⟩, ⟨"WRITE", []⟩]

theorem wired_openWriteModel (handle : FieldType) (spec : CaptureSpec)
    (h : fromProfile (openWriteProfile handle) = .ok (openWriteModel spec)) :
    Wired (openWriteModel spec) := by
  have hprofile : Profile.fromToml (fun _ ↦ .ok (openWrite handle)) (fun _ ↦ "") "" =
      .ok (openWriteProfile handle) := by
    cases handle <;> rfl
  exact wired_of_fromProfile (accepted_of_fromToml hprofile) h

theorem drivable_openWriteSession (handle : FieldType) (spec : CaptureSpec)
    (h : fromProfile (openWriteProfile handle) = .ok (openWriteModel spec)) :
    Drivable (openWriteModel spec) 64 openWriteSession :=
  (drivable_and_records_of_finish (wired_openWriteModel handle spec h)
    (show finish (.fromMessages "" []) (openWriteModel spec) openWriteSession = .ok _ from rfl)
    (by decide)).1

theorem mutants_drivable_open_write :
    (∃ mutant, (mutateSequence (.fromMessages "" openWriteSession)
        (openWriteModel (.int .u32 .big)) 64 ⟨6⟩).1 = mutant ∧
      mutant.messageNames = ["OPEN", "WRITE", "WRITE"] ∧
      Drivable (openWriteModel (.int .u32 .big)) 64 mutant.messages ∧
      Records (openWriteModel (.int .u32 .big)) mutant) ∧
    (exec (drive (openWriteModel (.int .u32 .big)) ScriptedTransport.transport openWriteSession)
      (.single [[0, 0, 0, 1], []])).1 ≠ .error (.illegalTransition "WRITE" "opened") := by
  have hprofile : Profile.fromToml (fun _ ↦ .ok (openWrite .u32)) (fun _ ↦ "") "" =
      .ok (openWriteProfile .u32) := rfl
  have hmodel : ProtocolModel.fromProfile (openWriteProfile .u32) =
      .ok (openWriteModel (.int .u32 .big)) := rfl
  have hdrivable : Drivable (openWriteModel (.int .u32 .big)) 64
      (SessionTestcase.fromMessages "" openWriteSession).messages :=
    drivable_openWriteSession .u32 _ hmodel
  have h := mutants_drivable hprofile hmodel hdrivable
  obtain ⟨states, hstates, hmutant⟩ := h.2.1
  obtain rfl : [0, 1, 1] = states := Option.some_inj.1 hstates
  obtain ⟨hdrivable', hmade, -⟩ := hmutant ⟨6⟩
  -- The edit drawn is the insertion of a second `WRITE`.
  have hdraw : ((exec (drawEdit (.fromMessages "" openWriteSession)
      (openWriteModel (.int .u32 .big)) 64 [0, 1, 1]) ⟨6⟩).1.toOption.bind
        Except.toOption).isSome := by decide +kernel
  rcases hedited : (exec (drawEdit (.fromMessages "" openWriteSession)
      (openWriteModel (.int .u32 .big)) 64 [0, 1, 1]) ⟨6⟩).1 with _ | _ | edited
  iterate 2
    · rw [hedited] at hdraw
      contradiction
  obtain ⟨hmutant, -, hrecords⟩ := hmade edited hedited
  refine ⟨⟨_, rfl, by decide +kernel, hdrivable', hmutant ▸ hrecords⟩, fun herror ↦ ?_⟩
  exact (h.2.2 _ _ _ _ herror).2.1 _ _ rfl

/-- The path of a testcase is not recorded when it is returned unchanged, and a handle of four bytes
is accepted by the profile, captured and bound, but cannot be written into the reference. -/
theorem unchanged_mutant_and_bytes_reference :
    Profile.fromToml (fun _ ↦ .ok (openWrite .bytes)) (fun _ ↦ "") "" =
      .ok (openWriteProfile .bytes) ∧
    ProtocolModel.fromProfile (openWriteProfile .bytes) = .ok (openWriteModel (.bytes 4)) ∧
    Drivable (openWriteModel (.bytes 4)) 64 openWriteSession ∧
    ¬Records (openWriteModel (.bytes 4)) (mutateSequence (.fromMessages "" openWriteSession)
      (openWriteModel (.bytes 4)) 64 ⟨0⟩).1 ∧
    (exec (drive (openWriteModel (.bytes 4)) ScriptedTransport.transport openWriteSession)
      (.single [[0, 0, 0, 1], []])).1 =
        .error (.encode (.unresolved "handle" "OPEN.response.handle")) := by
  refine ⟨rfl, rfl, drivable_openWriteSession .bytes _ rfl, ?_, rfl⟩
  rintro ⟨path, hwalk, hpath⟩
  have hunchanged : (mutateSequence (.fromMessages "" openWriteSession) (openWriteModel (.bytes 4))
      64 ⟨0⟩).1.statePath = [] := by decide +kernel
  rw [hunchanged, List.map_nil, List.map_eq_nil_iff] at hpath
  exact absurd hwalk.start_mem (by simp [hpath])

end Bhf.ProtocolSession
