import Bhf.Lib.Stream

/-!
# The protocol of the on-target agent

The host sends inputs as length-prefixed frames; the agent answers each with a response that carries
the exit status, the coverage edges and, if there was one, the fault. Records follow each other
without separators, so a reader has to consume exactly what the writer produced.

**A response is read back exactly when its outcome is `Carried`** (`parses_readResponse`,
`yields_readResponse`): its counts fit their 32-bit fields, which `encode_response` does not check,
and its fault kind is not `Other` with one of the codes of the named kinds. No response at all is
read as an outcome that is not carried, whatever the bytes.
-/

namespace Bhf.TargetTransport

open StateExcept Reader List

/-! ### Outcomes -/

inductive ExitKind where
  | ok
  | crash
  | timeout
  deriving DecidableEq

inductive FaultKind where
  | cpuException
  | memoryProtection
  | watchdog
  | assertionPanic
  | stackOverflow
  | timeout
  | other (code : UInt32)
  deriving DecidableEq

namespace FaultKind

def fromWire (code : UInt32) : FaultKind :=
  if code = 0 then cpuException
  else if code = 1 then memoryProtection
  else if code = 2 then watchdog
  else if code = 3 then assertionPanic
  else if code = 4 then stackOverflow
  else if code = 5 then timeout
  else other code

def toWire : FaultKind → UInt32
  | cpuException => 0
  | memoryProtection => 1
  | watchdog => 2
  | assertionPanic => 3
  | stackOverflow => 4
  | timeout => 5
  | other code => code

end FaultKind

structure Fault where
  kind : FaultKind
  address : Option UInt64
  detail : String
  deriving DecidableEq

structure RunOutcome where
  exit : ExitKind
  coverageEdges : List UInt32
  fault : Option Fault
  stdout : Bytes := []
  coverageIncomplete : Option String := none
  inconclusive : Option String := none
  deriving DecidableEq

/-! ### Errors and field readers -/

/-- The errors of the agent protocol. `notUtf8` is the protocol error that ends with what the
standard library says about the bytes. -/
inductive TransportError where
  | protocol (message : String)
  | notUtf8 (what : String) (bytes : Bytes)
  | lengthCap (field : String) (declared : UInt64) (cap : ℕ)

/-- The error of a stream that ends inside a field. -/
def truncated (context : String) : TransportError :=
  .protocol s!"truncated stream while reading {context}"

/-- A leading `u32`, or nothing at the end of the stream. -/
def readU32LeOpt (context : String) : Reader TransportError (Option UInt32) := do
  match ← readByte with
  | none => return none
  | some first =>
    let rest ← readExact (truncated context) 3
    return some (UInt32.ofNat (leValue (first :: rest)))

def capLen (declared : UInt32) (cap : ℕ) (field : String) : Reader TransportError ℕ :=
  if declared.toNat > cap then throw (.lengthCap field declared.toUInt64 cap)
  else return declared.toNat

structure AgentLimits where
  maxInputLen : ℕ := 16 * 1024 * 1024
  maxEdges : ℕ := 2 ^ 20
  maxDetailLen : ℕ := 64 * 1024

def statusOf : ExitKind → UInt32
  | .ok => 0
  | .crash => 1
  | .timeout => 2

def exitOf (status : UInt32) : Reader TransportError ExitKind :=
  if status = 0 then return .ok
  else if status = 1 then return .crash
  else if status = 2 then return .timeout
  else throw (.protocol
    s!"agent status word {status} is not one of ok(0)/crash(1)/timeout(2)")

/-! ### Input frames -/

/-- The state is what was written to the channel so far. -/
def writeInputFrame (input : Bytes) : StateExcept TransportError Bytes Unit :=
  match u32TryFrom input.length with
  | none => throw (.protocol
      s!"input length {input.length} exceeds the 32-bit frame length field")
  | some len => do
    modify (· ++ leBytes 4 len.toNat)
    modify (· ++ input)

def readInputFrame (limits : AgentLimits) : Reader TransportError (Option Bytes) := do
  match ← readU32LeOpt "agent input frame length" with
  | none => return none
  | some len =>
    let len ← capLen len limits.maxInputLen "agent input"
    return some (← readExact (truncated "agent input bytes") len)

/-! ### Responses -/

def encodeFault : Option Fault → Bytes
  | none => leBytes 4 0
  | some fault =>
    leBytes 4 1 ++ (leBytes 4 fault.kind.toWire.toNat ++
      (leBytes 8 (fault.address.getD 0).toNat ++
        (leBytes 4 (UInt32.ofNat (utf8Bytes fault.detail).length).toNat ++
          utf8Bytes fault.detail)))

def encodeResponse (outcome : RunOutcome) : Bytes :=
  leBytes 4 (statusOf outcome.exit).toNat ++
    (leBytes 4 (UInt32.ofNat outcome.coverageEdges.length).toNat ++
      (outcome.coverageEdges.flatMap (fun edge ↦ leBytes 4 edge.toNat) ++
        encodeFault outcome.fault))

def readDetail (limits : AgentLimits) : Reader TransportError String := do
  let declared ← readU32Le (truncated "agent fault detail length")
  let len ← capLen declared limits.maxDetailLen "agent fault detail"
  let bytes ← readExact (truncated "agent fault detail bytes") len
  match String.fromUTF8? bytes.toByteArray with
  | none => throw (.notUtf8 "agent fault detail" bytes)
  | some detail => return detail

def readFault (limits : AgentLimits) : Reader TransportError (Option Fault) := do
  let present ← readU32Le (truncated "agent response fault-present")
  if present = 0 then return none
  else if present = 1 then
    let kind ← readU32Le (truncated "agent fault kind")
    let address ← readU64Le (truncated "agent fault address")
    let detail ← readDetail limits
    return some ⟨.fromWire kind, some address, detail⟩
  else throw (.protocol s!"agent fault-present word {present} is not 0 or 1")

def readResponse (limits : AgentLimits) : Reader TransportError RunOutcome := do
  let status ← readU32Le (truncated "agent response status")
  let exit ← exitOf status
  let declared ← readU32Le (truncated "agent response edge count")
  let count ← capLen declared limits.maxEdges "agent edge count"
  let edges ← times (readU32Le (truncated "agent response edge")) count
  let fault ← readFault limits
  return { exit := exit, coverageEdges := edges, fault := fault }

/-! ### Which outcomes a response carries -/

/-- Not `other` with the code of a named kind. -/
def FaultKind.Proper : FaultKind → Prop
  | other code => 5 < code
  | _ => True

theorem FaultKind.proper_fromWire (code : UInt32) : (fromWire code).Proper := by
  rw [fromWire]
  split_ifs with h0 h1 h2 h3 h4 h5
  all_goals try trivial
  show 5 < code
  rw [UInt32.lt_iff_toNat_lt]
  rw [← UInt32.toNat_inj] at h0 h1 h2 h3 h4 h5
  have : (5 : UInt32).toNat = 5 := rfl
  simp only [UInt32.reduceToNat] at h0 h1 h2 h3 h4 h5
  omega

theorem FaultKind.fromWire_toWire {kind : FaultKind} (h : kind.Proper) :
    fromWire kind.toWire = kind := by
  cases kind with
  | other code =>
    have hlt : 5 < code.toNat := UInt32.lt_iff_toNat_lt.1 (show 5 < code from h)
    have hne (reserved : UInt32) (hle : reserved.toNat ≤ 5) : code ≠ reserved := by
      rintro rfl
      omega
    rw [toWire, fromWire, if_neg (hne 0 (by decide)), if_neg (hne 1 (by decide)),
      if_neg (hne 2 (by decide)), if_neg (hne 3 (by decide)), if_neg (hne 4 (by decide)),
      if_neg (hne 5 (by decide))]
  | _ => rfl

/-- The fault survives its encoding. -/
structure Fault.Carried (fault : Fault) : Prop where
  /-- The kind has a code of its own. -/
  kind : fault.kind.Proper
  /-- The length of the text fits its field. -/
  detail : (utf8Bytes fault.detail).length < 2 ^ 32

/-- The outcome survives its encoding. -/
structure RunOutcome.Carried (outcome : RunOutcome) : Prop where
  /-- The number of edges fits its field. -/
  edges : outcome.coverageEdges.length < 2 ^ 32
  /-- The fault survives. -/
  fault : ∀ fault ∈ outcome.fault, fault.Carried

/-- The outcome keeps the limits of the reader. -/
structure RunOutcome.Within (limits : AgentLimits) (outcome : RunOutcome) : Prop where
  /-- There are not too many edges. -/
  edges : outcome.coverageEdges.length ≤ limits.maxEdges
  /-- The text of the fault is not too long. -/
  detail : ∀ fault ∈ outcome.fault, (utf8Bytes fault.detail).length ≤ limits.maxDetailLen

/-- A fault without an address arrives with address zero. -/
def Fault.delivered (fault : Fault) : Fault :=
  { fault with address := some (fault.address.getD 0) }

/-- What the protocol has a field for. -/
def RunOutcome.delivered (outcome : RunOutcome) : RunOutcome where
  exit := outcome.exit
  coverageEdges := outcome.coverageEdges
  fault := outcome.fault.map Fault.delivered

variable {limits : AgentLimits}

/-! ### Responses are read back -/

theorem parses_capLen {declared : UInt32} {cap : ℕ} (field : String) (h : declared.toNat ≤ cap) :
    Parses (capLen declared cap field) [] declared.toNat := by
  rw [capLen, if_neg (not_lt.2 h)]
  exact parses_pure _

theorem parses_exitOf (exit : ExitKind) : Parses (exitOf (statusOf exit)) [] exit := by
  cases exit <;> exact parses_pure _

theorem parses_readDetail {detail : String} (hfits : (utf8Bytes detail).length < 2 ^ 32)
    (hlimit : (utf8Bytes detail).length ≤ limits.maxDetailLen) :
    Parses (readDetail limits)
      (leBytes 4 (UInt32.ofNat (utf8Bytes detail).length).toNat ++ utf8Bytes detail) detail := by
  have hlen := UInt32.toNat_ofNat_of_lt' hfits
  refine (parses_readU32Le _ _).bind ?_
  refine (parses_capLen _ (le_of_eq_of_le hlen hlimit)).silent ?_
  rw [hlen]
  refine (parses_readExact _ _).finish ?_
  rw [fromUTF8?_utf8Bytes]
  exact parses_pure detail

theorem parses_readFault {fault : Option Fault} (hcarried : ∀ f ∈ fault, f.Carried)
    (hlimit : ∀ f ∈ fault, (utf8Bytes f.detail).length ≤ limits.maxDetailLen) :
    Parses (readFault limits) (encodeFault fault) (fault.map Fault.delivered) := by
  cases fault with
  | none =>
    refine (parses_readU32Le _ 0).finish ?_
    exact parses_pure none
  | some fault =>
    obtain ⟨hkind, hdetail⟩ := hcarried fault rfl
    refine (parses_readU32Le _ 1).bind ?_
    refine (parses_readU32Le _ fault.kind.toWire).bind ?_
    refine (parses_readU64Le _ _).bind ?_
    have h := (parses_readDetail hdetail (hlimit fault rfl)).map fun detail ↦
      some (⟨.fromWire fault.kind.toWire, some (fault.address.getD 0), detail⟩ : Fault)
    rw [FaultKind.fromWire_toWire hkind] at h
    rw [FaultKind.fromWire_toWire hkind]
    exact h

/-- **A response whose outcome is carried is read back**, up to what the protocol has no field
for. -/
theorem parses_readResponse {outcome : RunOutcome} (hcarried : outcome.Carried)
    (hwithin : outcome.Within limits) :
    Parses (readResponse limits) (encodeResponse outcome) outcome.delivered := by
  have hlen := UInt32.toNat_ofNat_of_lt' hcarried.edges
  have hedges : Parses (times (readU32Le (truncated "agent response edge"))
      outcome.coverageEdges.length) _ (outcome.coverageEdges.map id) :=
    parses_times (fun edge : UInt32 ↦ leBytes 4 edge.toNat) id fun edge _ ↦ parses_readU32Le _ edge
  rw [map_id] at hedges
  refine (parses_readU32Le _ _).bind ?_
  refine (parses_exitOf outcome.exit).silent ?_
  refine (parses_readU32Le _ _).bind ?_
  refine (parses_capLen _ (le_of_eq_of_le hlen hwithin.edges)).silent ?_
  rw [hlen]
  refine hedges.bind ?_
  exact (parses_readFault hcarried.fault hwithin.detail).map fun fault ↦
    ({ exit := outcome.exit, coverageEdges := outcome.coverageEdges, fault := fault } : RunOutcome)

/-! ### What a response can be read as -/

theorem yields_capLen (declared : UInt32) (cap : ℕ) (field : String) :
    Yields (capLen declared cap field) fun len ↦ len < 2 ^ 32 ∧ len ≤ cap :=
  yields_ite (fun _ ↦ yields_throw _) fun hle ↦
    yields_pure ⟨declared.toNat_lt, Nat.le_of_not_lt hle⟩

theorem yields_readDetail (limits : AgentLimits) :
    Yields (readDetail limits) fun detail ↦
      (utf8Bytes detail).length < 2 ^ 32 ∧ (utf8Bytes detail).length ≤ limits.maxDetailLen := by
  refine yields_bind fun declared ↦ (yields_capLen _ _ _).bind fun len hlen ↦
    (yields_readExact _ _).bind fun bytes hbytes ↦ ?_
  split
  · exact yields_throw _
  · next hdetail =>
    refine yields_pure ?_
    rw [utf8Bytes_of_fromUTF8? hdetail, hbytes]
    exact hlen

theorem yields_readFault (limits : AgentLimits) :
    Yields (readFault limits) fun fault ↦ ∀ f ∈ fault,
      f.Carried ∧ (utf8Bytes f.detail).length ≤ limits.maxDetailLen := by
  refine yields_bind fun present ↦ yields_ite (fun _ ↦ yields_pure (by simp)) fun _ ↦
    yields_ite (fun _ ↦ ?_) fun _ ↦ yields_throw _
  refine yields_bind fun kind ↦ yields_bind fun address ↦
    (yields_readDetail limits).bind fun detail hdetail ↦ yields_pure fun f hf ↦ ?_
  obtain ⟨⟩ := hf
  exact ⟨⟨FaultKind.proper_fromWire kind, hdetail.1⟩, hdetail.2⟩

/-- **Every outcome that is read is carried and within the limits**, whatever the bytes are. -/
theorem yields_readResponse (limits : AgentLimits) :
    Yields (readResponse limits) fun outcome ↦ outcome.Carried ∧ outcome.Within limits := by
  refine yields_bind fun status ↦ yields_bind fun exit ↦ yields_bind fun declared ↦
    (yields_capLen _ _ _).bind fun count hcount ↦
    (yields_times (P := fun _ ↦ True) (fun _ _ _ _ ↦ trivial) _).bind fun edges hedges ↦
    (yields_readFault limits).bind fun fault hfault ↦ yields_pure ?_
  have hlen : edges.length = count := hedges.1
  refine ⟨⟨?_, fun f hf ↦ (hfault f hf).1⟩, ⟨?_, fun f hf ↦ (hfault f hf).2⟩⟩
  · show edges.length < 2 ^ 32
    exact hlen ▸ hcount.1
  · show edges.length ≤ limits.maxEdges
    exact hlen ▸ hcount.2

theorem RunOutcome.carried_of_delivered {outcome : RunOutcome} (h : outcome.delivered.Carried) :
    outcome.Carried := by
  refine ⟨h.edges, fun fault hfault ↦ ?_⟩
  obtain ⟨hkind, hdetail⟩ := h.fault fault.delivered (Option.mem_map_of_mem _ hfault)
  exact ⟨hkind, hdetail⟩

/-! ### Input frames -/

/-- The bytes of an input frame. -/
def inputFrame (input : Bytes) : Bytes :=
  leBytes 4 input.length ++ input

/-- Frames written one after the other. -/
def writeInputFrames : List Bytes → StateExcept TransportError Bytes Unit
  | [] => return ()
  | input :: inputs => do
    writeInputFrame input
    writeInputFrames inputs

theorem runs_writeInputFrame {input channel channel' : Bytes} {u : Unit}
    (h : Runs (writeInputFrame input) channel u channel') :
    input.length < 2 ^ 32 ∧ channel' = channel ++ inputFrame input := by
  rw [writeInputFrame] at h
  split at h
  · simp [Runs] at h
  next len hlen =>
  have hnat := toNat_of_u32TryFrom hlen
  have heq : (Except.ok (), channel ++ leBytes 4 len.toNat ++ input) = (.ok u, channel') := h
  rw [inputFrame, ← append_assoc, ← (Prod.mk.inj heq).2, hnat]
  exact ⟨hnat ▸ len.toNat_lt, rfl⟩

theorem runs_writeInputFrames {inputs : List Bytes} :
    ∀ {channel channel' : Bytes} {u : Unit},
      Runs (writeInputFrames inputs) channel u channel' →
        (∀ input ∈ inputs, input.length < 2 ^ 32) ∧
          channel' = channel ++ inputs.flatMap inputFrame := by
  induction inputs with
  | nil =>
    intro channel channel' u h
    have heq : (Except.ok (), channel) = (.ok u, channel') := h
    rw [← (Prod.mk.inj heq).2]
    simp
  | cons input inputs ih =>
    intro channel channel' u h
    obtain ⟨_, middle, hinput, hinputs⟩ := runs_bind_iff.1 h
    obtain ⟨hlen, rfl⟩ := runs_writeInputFrame hinput
    obtain ⟨hlens, rfl⟩ := ih hinputs
    refine ⟨forall_mem_cons.2 ⟨hlen, hlens⟩, ?_⟩
    rw [flatMap_cons, append_assoc]

theorem parses_readU32LeOpt (context : String) (v : UInt32) :
    Parses (readU32LeOpt context) (leBytes 4 v.toNat) (some v) := by
  intro rest
  have h := (parses_readExact (truncated context) (leBytes 4 v.toNat).tail).map fun bytes ↦
    some (UInt32.ofNat (leValue (UInt8.ofNat v.toNat :: bytes)))
  have hvalue := leValue_leBytes (n := 4) v.toNat_lt
  have hfirst : leBytes 4 v.toNat = UInt8.ofNat v.toNat :: (leBytes 4 v.toNat).tail := rfl
  rw [← hfirst, hvalue, UInt32.ofNat_toNat] at h
  exact h rest

theorem parses_readInputFrame {input : Bytes} (hfits : input.length < 2 ^ 32)
    (hlimit : input.length ≤ limits.maxInputLen) :
    Parses (readInputFrame limits) (inputFrame input) (some input) := by
  have hlen := UInt32.toNat_ofNat_of_lt' hfits
  have hfield := parses_readU32LeOpt "agent input frame length" (UInt32.ofNat input.length)
  rw [hlen] at hfield
  refine hfield.bind ?_
  refine (parses_capLen _ (le_of_eq_of_le hlen hlimit)).silent ?_
  rw [hlen]
  exact (parses_readExact _ input).map some

/-- The frames are read back, and then the end of the stream. -/
theorem runs_readInputFrames {inputs : List Bytes}
    (hfits : ∀ input ∈ inputs, input.length < 2 ^ 32)
    (hlimit : ∀ input ∈ inputs, input.length ≤ limits.maxInputLen) :
    Runs (times (readInputFrame limits) (inputs.length + 1)) (inputs.flatMap inputFrame)
      (inputs.map some ++ [none]) [] := by
  induction inputs with
  | nil => rfl
  | cons input inputs ih =>
    have hrest := ih (fun other h ↦ hfits other (.tail _ h)) fun other h ↦ hlimit other (.tail _ h)
    have hinput := parses_readInputFrame (hfits input (.head _)) (hlimit input (.head _))
      (inputs.flatMap inputFrame)
    exact hinput.bind (hrest.bind (Runs.pure _ _))

/-- **The agent protocol as a stream.** Outcomes within the limits are read back from their
concatenated responses, with whatever follows them untouched, exactly when each of them is carried.
Input frames are read back without exception, followed by a clean end. What is read is within the
limits whatever the bytes are. -/
theorem responses_read_back_iff_carried (limits : AgentLimits) :
    (∀ outcomes : List RunOutcome, (∀ outcome ∈ outcomes, outcome.Within limits) →
      ((∀ rest, exec (times (readResponse limits) outcomes.length)
          (outcomes.flatMap encodeResponse ++ rest) =
            (.ok (outcomes.map RunOutcome.delivered), rest)) ↔
        ∀ outcome ∈ outcomes, outcome.Carried)) ∧
    (∀ inputs : List Bytes, (∀ input ∈ inputs, input.length ≤ limits.maxInputLen) →
      ∀ channel, exec (writeInputFrames inputs) [] = (.ok (), channel) →
        exec (times (readInputFrame limits) (inputs.length + 1)) channel =
          (.ok (inputs.map some ++ [none]), [])) ∧
    (∀ stream outcome rest, exec (readResponse limits) stream = (.ok outcome, rest) →
      outcome.Within limits) := by
  refine ⟨fun outcomes hwithin ↦ ⟨fun hread outcome hmem ↦ ?_, fun hcarried rest ↦ ?_⟩,
    fun inputs hlimit channel hwrite ↦ ?_, fun stream outcome rest hread ↦ ?_⟩
  · -- the value that was read tells, wherever the reader stood
    have hvalues := yields_times (yields_readResponse limits) _ _ _ _ (hread [])
    exact (hvalues.2 _ (mem_map_of_mem hmem)).1 |> RunOutcome.carried_of_delivered
  · exact parses_times encodeResponse RunOutcome.delivered
      (fun outcome hmem ↦ parses_readResponse (hcarried outcome hmem) (hwithin outcome hmem)) rest
  · obtain ⟨hfits, rfl⟩ := runs_writeInputFrames hwrite
    exact runs_readInputFrames hfits hlimit
  · exact (yields_readResponse limits stream outcome rest hread).2

/-- A crash with a fault address and a clean run, back to back. -/
theorem two_responses_read_back :
    exec (times (readResponse {}) 2)
        ([⟨.crash, [4, 2], some ⟨.other 9, some 16, "bus"⟩, [1], none, none⟩,
          ⟨.ok, [], none, [], none, none⟩].flatMap encodeResponse ++ [7]) =
      (.ok [⟨.crash, [4, 2], some ⟨.other 9, some 16, "bus"⟩, [], none, none⟩,
        ⟨.ok, [], none, [], none, none⟩], [7]) := by
  refine ((responses_read_back_iff_carried {}).1
    [⟨.crash, [4, 2], some ⟨.other 9, some 16, "bus"⟩, [1], none, none⟩,
      ⟨.ok, [], none, [], none, none⟩] ?_).2 ?_ [7]
  · rw [forall_mem_cons, forall_mem_singleton]
    refine ⟨⟨by decide, ?_⟩, ⟨by decide, by simp⟩⟩
    rintro fault ⟨⟩
    decide
  · rw [forall_mem_cons, forall_mem_singleton]
    refine ⟨⟨by decide, ?_⟩, ⟨by decide, by simp⟩⟩
    rintro fault ⟨⟩
    exact ⟨show (5 : UInt32) < 9 by decide, by decide⟩

/-- **A fault kind is lost.** The kind `Other(3)` is sent with the code of an assertion and read
back as one. -/
theorem other_three_read_as_assertion :
    exec (times (readResponse {}) 1)
        ([⟨.crash, [], some ⟨.other 3, some 0, ""⟩, [], none, none⟩].flatMap encodeResponse) =
      (.ok [⟨.crash, [], some ⟨.assertionPanic, some 0, ""⟩, [], none, none⟩], []) ∧
    (⟨.crash, [], some ⟨.assertionPanic, some 0, ""⟩, [], none, none⟩ : RunOutcome) ≠
      RunOutcome.delivered ⟨.crash, [], some ⟨.other 3, some 0, ""⟩, [], none, none⟩ := by
  exact ⟨rfl, by decide⟩

end Bhf.TargetTransport
