import Bhf.Iiop.Giop

/-!
# Reassembling fragmented messages

`reassembleMessages12` walks over a byte string frame by frame. A complete message goes to the
output; an initial frame with the fragment flag is kept open, `Fragment` frames with its request id
extend it, and the one without the flag completes it. Complete messages may stand between the
frames of an open one.

Two things are proved about it.

* **Every successful run accounts for every byte once** (`CoversExactly`): the frame ranges of the
  output are disjoint and make up the input. This needs nothing about the sender; it is an invariant
  of the step.
* **Reassembly inverts fragmentation**: a sender is described by what it sends (`Sent`), messages
  cut into pieces with complete messages anywhere between the frames, every frame with a byte order
  of its own. Running over what it puts on the wire returns the messages in the order in which they
  complete.
-/

namespace Bhf.Iiop

open StateExcept List ByteOrder

/-! ### The code -/

structure ParsedFragment12 where
  requestId : UInt32
  data : Bytes
  dataAlignmentBase : ℕ
  endian : Endianness

def readFragment12 (frame : ParsedMessage) : Except GiopError ParsedFragment12 :=
  if frame.header.messageType ≠ .fragment then
    .error (.unexpectedMessageType .fragment frame.header.messageType)
  else if frame.header.version ≠ version12 then
    .error (.unsupportedVersion frame.header.version)
  else
    match exec CdrReader.readU32 frame.bodyReader with
    | (.error error, _) => .error (.cdr error)
    | (.ok requestId, reader) =>
      .ok ⟨requestId, frame.body.drop reader.position, headerLen + reader.position,
        frame.header.endian⟩

def requestIdForFragmentedInitial (frame : ParsedMessage) : Except GiopError UInt32 :=
  match frame.header.messageType with
  | .request | .reply | .locateRequest | .locateReply | .cancelRequest =>
    (exec CdrReader.readU32 frame.bodyReader).1.mapError .cdr
  | other => .error (.unsupportedMessageType other)

/-- Where a frame was in the input. -/
structure GiopFrameRange where
  offset : ℕ
  len : ℕ
  messageType : MessageType
  fragmented : Bool

structure ReassembledGiop12Message where
  header : MessageHeader
  body : Bytes
  frameRanges : List GiopFrameRange

structure OpenFragmentedMessage where
  requestId : UInt32
  header : MessageHeader
  body : Bytes
  frameRanges : List GiopFrameRange

inductive GiopReassemblyError
  | giop (error : GiopError)
  | fragmentWithoutInitial (requestId : UInt32) (offset : ℕ)
  | duplicateInitial (requestId : UInt32) (offset : ℕ)
  | fragmentRequestIdMismatch (expected actual : UInt32) (offset : ℕ)
  | unfinishedFragmentedMessage (requestId : UInt32)

/-- The variables of the loop. -/
structure Reassembly where
  output : List ReassembledGiop12Message
  openMessage : Option OpenFragmentedMessage
  remaining : Bytes
  offset : ℕ

namespace Reassembly

/-- A `Fragment` frame extends the open message, and completes it if the flag is clear. -/
def acceptFragment (s : Reassembly) (frame : ParsedMessage) (range : GiopFrameRange) :
    Except GiopReassemblyError Reassembly :=
  match readFragment12 frame with
  | .error error => .error (.giop error)
  | .ok fragment =>
    match s.openMessage with
    | none => .error (.fragmentWithoutInitial fragment.requestId s.offset)
    | some message =>
      if fragment.requestId ≠ message.requestId then
        .error (.fragmentRequestIdMismatch message.requestId fragment.requestId s.offset)
      else
        let body := message.body ++ fragment.data
        let frameRanges := message.frameRanges ++ [range]
        if frame.header.fragmented then
          .ok { s with openMessage := some { message with body, frameRanges } }
        else
          let header := { message.header with
            fragmented := false, bodyLen := UInt32.ofNat body.length }
          .ok { s with openMessage := none, output := s.output ++ [⟨header, body, frameRanges⟩] }

/-- A frame with the flag set opens a message. -/
def acceptInitial (s : Reassembly) (frame : ParsedMessage) (range : GiopFrameRange) :
    Except GiopReassemblyError Reassembly :=
  match requestIdForFragmentedInitial frame with
  | .error error => .error (.giop error)
  | .ok requestId =>
    if s.openMessage.isSome then .error (.duplicateInitial requestId s.offset)
    else .ok { s with openMessage := some ⟨requestId, frame.header, frame.body, [range]⟩ }

/-- What one frame does to the output and the open message. -/
def accept (s : Reassembly) (frame : ParsedMessage) (range : GiopFrameRange) :
    Except GiopReassemblyError Reassembly :=
  if frame.header.messageType = .fragment then s.acceptFragment frame range
  else if frame.header.fragmented then s.acceptInitial frame range
  else .ok { s with output := s.output ++ [⟨frame.header, frame.body, [range]⟩] }

/-- One round of the loop. -/
def step (s : Reassembly) : Except GiopReassemblyError Reassembly :=
  match parseMessage s.remaining with
  | .error error => .error (.giop error)
  | .ok frame =>
    if frame.header.version ≠ version12 then
      .error (.giop (.unsupportedVersion frame.header.version))
    else
      let frameLen := headerLen + frame.body.length
      match s.accept frame
          ⟨s.offset, frameLen, frame.header.messageType, frame.header.fragmented⟩ with
      | .error error => .error error
      | .ok s' => .ok { s' with remaining := frame.remaining, offset := s.offset + frameLen }

/-- The ranges recorded so far, in the output and in the open message. -/
def ranges (s : Reassembly) : List GiopFrameRange :=
  s.output.flatMap (·.frameRanges) ++ (s.openMessage.map (·.frameRanges)).getD []

variable {s s' : Reassembly}

/-- A frame that is accepted adds its range, wherever it goes, and leaves the loop's other
variables alone. -/
theorem ranges_of_accept {frame : ParsedMessage} {range : GiopFrameRange}
    (h : s.accept frame range = .ok s') : s'.ranges.Perm (s.ranges ++ [range]) := by
  rw [accept] at h
  split at h
  · rw [acceptFragment] at h
    split at h
    · simp at h
    split at h
    · simp at h
    rename_i fragment _ _ message hopen
    split at h
    · simp at h
    · split at h <;> obtain rfl := Except.ok.inj h <;> simp [ranges, hopen]
  · split at h
    · rw [acceptInitial] at h
      split at h
      · simp at h
      split at h
      · simp at h
      rename_i hopen
      have hnone : s.openMessage = none := by simpa using hopen
      obtain ⟨⟩ := h
      simp [ranges, hnone]
    · obtain ⟨⟩ := h
      have hswap : ([range] ++ (s.openMessage.map (·.frameRanges)).getD []).Perm
          ((s.openMessage.map (·.frameRanges)).getD [] ++ [range]) := perm_append_comm
      simpa [ranges] using hswap.append_left (s.output.flatMap (·.frameRanges))

/-- What a round does to the position and to the ranges: it takes one frame off the front and
records it. -/
theorem step_eq_ok (h : s.step = .ok s') :
    ∃ range : GiopFrameRange, range.offset = s.offset ∧ 0 < range.len ∧
      s'.offset = s.offset + range.len ∧ s.remaining.length = range.len + s'.remaining.length ∧
      s'.ranges.Perm (s.ranges ++ [range]) := by
  rw [step] at h
  split at h
  · simp at h
  rename_i frame hparse
  split at h
  · simp at h
  dsimp only at h
  split at h
  · simp at h
  rename_i s₁ haccept
  obtain ⟨⟩ := h
  have hranges := ranges_of_accept haccept
  refine ⟨_, rfl, ?_, rfl, length_of_parseMessage hparse, hranges⟩
  exact lt_of_lt_of_le (by decide) (Nat.le_add_right headerLen _)

theorem length_remaining_lt_of_step (h : s.step = .ok s') :
    s'.remaining.length < s.remaining.length := by
  obtain ⟨range, -, hpos, -, hlen, -⟩ := step_eq_ok h
  omega

/-- Rounds until the input is used up. -/
def loop (s : Reassembly) : Except GiopReassemblyError Reassembly :=
  if s.remaining.isEmpty then .ok s
  else
    match _hstep : s.step with
    | .error error => .error error
    | .ok s' => loop s'
termination_by s.remaining.length
decreasing_by exact length_remaining_lt_of_step _hstep

end Reassembly

def reassembleMessages12 (input : Bytes) :
    Except GiopReassemblyError (List ReassembledGiop12Message) :=
  match Reassembly.loop ⟨[], none, input, 0⟩ with
  | .error error => .error error
  | .ok s =>
    match s.openMessage with
    | some message => .error (.unfinishedFragmentedMessage message.requestId)
    | none => .ok s.output

namespace Reassembly

variable {s : Reassembly}

theorem loop_of_isEmpty (h : s.remaining = []) : s.loop = .ok s := by
  rw [loop, h]
  rfl

theorem loop_of_step {s' : Reassembly} (h : s.step = .ok s') : s.loop = s'.loop := by
  have hlt := length_remaining_lt_of_step h
  have hne : s.remaining.isEmpty = false := by
    rw [isEmpty_eq_false_iff, ← length_pos_iff]
    omega
  rw [loop, hne]
  simp only [Bool.false_eq_true, if_false]
  split
  · rename_i hstep
    rw [h] at hstep
    simp at hstep
  · rename_i s₁ hstep
    rw [h] at hstep
    rw [Except.ok.inj hstep]

/-- What every round preserves holds at the end, where the input is used up. -/
theorem of_loop {I : Reassembly → Prop} (hstep : ∀ s s', s.step = .ok s' → I s → I s')
    {s' : Reassembly} (hloop : s.loop = .ok s') (hs : I s) : I s' ∧ s'.remaining = [] := by
  induction s using loop.induct with
  | case1 s hempty =>
    rw [List.isEmpty_iff] at hempty
    rw [loop_of_isEmpty hempty] at hloop
    obtain ⟨⟩ := hloop
    exact ⟨hs, hempty⟩
  | case2 s hempty error herror =>
    rw [loop] at hloop
    simp only [hempty, Bool.false_eq_true, if_false] at hloop
    split at hloop
    · simp at hloop
    · rename_i s₁ hok
      rw [herror] at hok
      simp at hok
  | case3 s _ s₁ hok ih =>
    rw [loop_of_step hok] at hloop
    exact ih hloop (hstep s s₁ hok hs)

end Reassembly

/-! ### Every byte is accounted for once -/

namespace GiopFrameRange

/-- The positions of a frame. -/
def Contains (range : GiopFrameRange) (i : ℕ) : Prop :=
  range.offset ≤ i ∧ i < range.offset + range.len

/-- Two frames share no position. -/
def Disjoint (a b : GiopFrameRange) : Prop :=
  a.offset + a.len ≤ b.offset ∨ b.offset + b.len ≤ a.offset

theorem Disjoint.symm {a b : GiopFrameRange} (h : a.Disjoint b) : b.Disjoint a :=
  Or.symm h

end GiopFrameRange

/-- The ranges cover the positions below `n`, each once. -/
structure CoversExactly (ranges : List GiopFrameRange) (n : ℕ) : Prop where
  /-- No two overlap. -/
  disjoint : ranges.Pairwise GiopFrameRange.Disjoint
  /-- None reaches beyond the end. -/
  bounded : ∀ range ∈ ranges, range.offset + range.len ≤ n
  /-- No position is left out. -/
  covers : ∀ i < n, ∃ range ∈ ranges, range.Contains i

namespace CoversExactly

variable {ranges : List GiopFrameRange} {n : ℕ}

theorem perm {ranges' : List GiopFrameRange} (h : CoversExactly ranges n)
    (hperm : ranges'.Perm ranges) : CoversExactly ranges' n where
  disjoint := (hperm.pairwise_iff fun h ↦ h.symm).mpr h.disjoint
  bounded := fun range hrange ↦ h.bounded range (hperm.mem_iff.mp hrange)
  covers := fun i hi ↦ by
    obtain ⟨range, hrange, hcontains⟩ := h.covers i hi
    exact ⟨range, hperm.mem_iff.mpr hrange, hcontains⟩

/-- A range that starts where the others end. -/
theorem append_singleton (h : CoversExactly ranges n) {range : GiopFrameRange}
    (hoffset : range.offset = n) : CoversExactly (ranges ++ [range]) (n + range.len) where
  disjoint := by
    rw [pairwise_append]
    refine ⟨h.disjoint, pairwise_singleton _ _, ?_⟩
    intro a ha b hb
    obtain rfl := mem_singleton.mp hb
    exact .inl (hoffset ▸ h.bounded a ha)
  bounded := forall_mem_append.mpr ⟨fun a ha ↦ le_trans (h.bounded a ha) (Nat.le_add_right _ _),
    forall_mem_singleton.mpr (by rw [hoffset])⟩
  covers := by
    intro i hi
    by_cases hlt : i < n
    · obtain ⟨a, ha, hcontains⟩ := h.covers i hlt
      exact ⟨a, mem_append_left _ ha, hcontains⟩
    · refine ⟨range, mem_append_right _ (mem_singleton_self _), ?_, ?_⟩ <;> omega

end CoversExactly

/-- What has been read is covered, and what has not is what remains of the input. -/
def Reassembly.Accounted (length : ℕ) (s : Reassembly) : Prop :=
  CoversExactly s.ranges s.offset ∧ s.offset + s.remaining.length = length

theorem Reassembly.accounted_of_step {length : ℕ} {s s' : Reassembly} (h : s.step = .ok s')
    (hs : s.Accounted length) : s'.Accounted length := by
  obtain ⟨hcovers, hlength⟩ := hs
  obtain ⟨range, hoffset, -, hoffset', hlen, hperm⟩ := step_eq_ok h
  refine ⟨?_, by omega⟩
  rw [hoffset']
  exact (hcovers.append_singleton hoffset).perm hperm

/-- **Every successful reassembly accounts for every byte of its input once.** -/
theorem coversExactly_of_reassemble {input : Bytes}
    {output : List ReassembledGiop12Message} (h : reassembleMessages12 input = .ok output) :
    CoversExactly (output.flatMap (·.frameRanges)) input.length := by
  rw [reassembleMessages12] at h
  split at h
  · simp at h
  rename_i s hloop
  split at h
  · simp at h
  rename_i hopen
  obtain ⟨⟩ := h
  have hstart : Reassembly.Accounted input.length ⟨[], none, input, 0⟩ :=
    ⟨⟨List.Pairwise.nil, by simp [Reassembly.ranges], by simp⟩, by simp⟩
  obtain ⟨⟨hcovers, hlength⟩, hempty⟩ :=
    Reassembly.of_loop (fun _ _ ↦ Reassembly.accounted_of_step) hloop hstart
  rw [hempty] at hlength
  have hranges : s.ranges = s.output.flatMap (·.frameRanges) := by
    simp [Reassembly.ranges, hopen]
  rw [← hranges, ← hlength]
  exact hcovers

/-! ### What a sender puts on the wire -/

/-- A message sent as one frame. -/
structure CompleteMessage where
  endian : Endianness
  type : UInt8
  body : Bytes
  /-- It is not itself a `Fragment`. -/
  type_ne : MessageType.ofByte type ≠ .fragment

/-- A further piece of a message, with the complete messages sent before it. -/
structure Piece where
  before : List CompleteMessage
  endian : Endianness
  data : Bytes

/-- A message with a request id, cut into a first piece that holds the id and further pieces. -/
structure CutMessage where
  endian : Endianness
  type : UInt8
  body : Bytes
  first : Bytes
  pieces : List Piece
  /-- Only these types carry a request id at the start of the body. -/
  type_mem : MessageType.ofByte type ∈
    [.request, .reply, .cancelRequest, .locateRequest, .locateReply]
  id_le : 4 ≤ first.length
  cut : body = first ++ pieces.flatMap (·.data)

/-- One thing sent. -/
inductive Sent
  | complete (message : CompleteMessage)
  | cut (message : CutMessage)

def CompleteMessage.wire (message : CompleteMessage) : Bytes :=
  giopFrame12 message.endian false message.type message.body

/-- The type byte of a `Fragment`. -/
def fragmentByte : UInt8 := 7

/-- The `Fragment` frames of the pieces; only the last has the flag clear. -/
def wirePieces (requestId : UInt32) : List Piece → Bytes
  | [] => []
  | piece :: rest =>
    piece.before.flatMap CompleteMessage.wire ++
      giopFrame12 piece.endian (!rest.isEmpty) fragmentByte
        (piece.endian.bytes 4 requestId.toNat ++ piece.data) ++ wirePieces requestId rest

/-- The request id at the start of the body, in the byte order of the first frame. -/
def CutMessage.requestId (message : CutMessage) : UInt32 :=
  UInt32.ofNat (message.endian.value (message.body.take 4))

/-- The first frame, flagged if pieces follow, and the pieces. -/
def CutMessage.wire (message : CutMessage) : Bytes :=
  giopFrame12 message.endian (!message.pieces.isEmpty) message.type message.first ++
    wirePieces message.requestId message.pieces

def Sent.wire : Sent → Bytes
  | .complete message => message.wire
  | .cut message => message.wire

/-- A header and a body, as they should come out. -/
def wholeMessage (endian : Endianness) (type : UInt8) (body : Bytes) : MessageHeader × Bytes :=
  (⟨version12, endian, false, MessageType.ofByte type, UInt32.ofNat body.length⟩, body)

def CompleteMessage.whole (message : CompleteMessage) : MessageHeader × Bytes :=
  wholeMessage message.endian message.type message.body

/-- The messages in the order in which they are complete on the wire: those between the pieces come
before the message they stand in. -/
def Sent.completed : Sent → List (MessageHeader × Bytes)
  | .complete message => [message.whole]
  | .cut message =>
    (message.pieces.flatMap (·.before)).map CompleteMessage.whole ++
      [wholeMessage message.endian message.type message.body]

/-! ### Running over the wire -/

/-- An aligned word at the start of a frame body. -/
theorem exec_readU32_bodyReader (frame : ParsedMessage) (h : 4 ≤ frame.body.length) :
    exec CdrReader.readU32 frame.bodyReader =
      (.ok (UInt32.ofNat (frame.header.endian.value (frame.body.take 4))),
        { frame.bodyReader with offset := 4 }) := by
  have halign : alignOffset frame.bodyReader.offset 4 frame.bodyReader.alignmentBase = some 0 := by
    show alignOffset 0 4 headerLen = some 0
    decide
  have hlt : 0 + 4 < usizeSize := by decide
  rw [CdrReader.readU32, exec_get_bind, exec_bind, CdrReader.exec_takeAligned halign hlt h]
  rfl

/-- What matters of a state for the rest of the run: the completed messages, the open one and the
bytes to come. -/
structure ReassemblyView where
  completed : List (MessageHeader × Bytes)
  opened : Option (UInt32 × MessageHeader × Bytes)
  remaining : Bytes

def Reassembly.view (s : Reassembly) : ReassemblyView :=
  ⟨s.output.map fun message ↦ (message.header, message.body),
    s.openMessage.map fun message ↦ (message.requestId, message.header, message.body), s.remaining⟩

/-- From every state with the first view the loop gets to one with the second. -/
def Leads (v v' : ReassemblyView) : Prop :=
  ∀ s : Reassembly, s.view = v → ∃ s' : Reassembly, s.loop = s'.loop ∧ s'.view = v'

namespace Leads

theorem refl (v : ReassemblyView) : Leads v v :=
  fun s hs ↦ ⟨s, rfl, hs⟩

theorem trans {v₁ v₂ v₃ : ReassemblyView} (h₁ : Leads v₁ v₂) (h₂ : Leads v₂ v₃) : Leads v₁ v₃ := by
  intro s hs
  obtain ⟨s₁, hloop₁, hs₁⟩ := h₁ s hs
  obtain ⟨s₂, hloop₂, hs₂⟩ := h₂ s₁ hs₁
  exact ⟨s₂, hloop₁.trans hloop₂, hs₂⟩

/-- One frame at the front: it is enough to say what accepting it does. -/
theorem of_accept {v v' : ReassemblyView} {endian : Endianness} {fragmented : Bool} {type : UInt8}
    {body rest : Bytes}
    (hremaining : v.remaining = giopFrame12 endian fragmented type body ++ rest)
    (hbody : body.length < 2 ^ 32) (hrest : v'.remaining = rest)
    (haccept : ∀ (s : Reassembly) (range : GiopFrameRange), s.view = v →
      ∃ s', s.accept ⟨⟨version12, endian, fragmented, MessageType.ofByte type,
        UInt32.ofNat body.length⟩, body, rest⟩ range = .ok s' ∧
        s'.view.completed = v'.completed ∧ s'.view.opened = v'.opened) : Leads v v' := by
  intro s hs
  have hparse : parseMessage s.remaining = .ok ⟨⟨version12, endian, fragmented,
      MessageType.ofByte type, UInt32.ofNat body.length⟩, body, rest⟩ := by
    rw [show s.remaining = v.remaining from congrArg ReassemblyView.remaining hs, hremaining]
    exact parseMessage_giopFrame12 endian fragmented type body rest hbody
  obtain ⟨s', hs', hcompleted, hopened⟩ := haccept s
    ⟨s.offset, headerLen + body.length, MessageType.ofByte type, fragmented⟩ hs
  refine ⟨{ s' with remaining := rest, offset := s.offset + (headerLen + body.length) },
    Reassembly.loop_of_step ?_, ?_⟩
  · rw [Reassembly.step, hparse]
    simp only [ne_eq, not_true_eq_false, if_false, hs']
  · cases v'
    simp only at hcompleted hopened hrest
    rw [← hcompleted, ← hopened, hrest]
    rfl

end Leads

section Run

variable {done : List (MessageHeader × Bytes)}
  {opened : Option (UInt32 × MessageHeader × Bytes)} {rest : Bytes}

/-- A complete message goes to the output, whatever is open. -/
theorem leads_complete (message : CompleteMessage) (hbody : message.body.length < 2 ^ 32) :
    Leads ⟨done, opened, message.wire ++ rest⟩ ⟨done ++ [message.whole], opened, rest⟩ := by
  refine Leads.of_accept rfl hbody rfl fun s range hs ↦ ?_
  obtain ⟨rfl, rfl, -⟩ := ReassemblyView.mk.inj hs
  refine ⟨{ s with output := s.output ++ [⟨message.whole.1, message.body, [range]⟩] }, ?_, ?_, rfl⟩
  · rw [Reassembly.accept, if_neg message.type_ne]
    rfl
  · simp [Reassembly.view, CompleteMessage.whole, wholeMessage]

theorem leads_completes (messages : List CompleteMessage)
    (hbodies : ∀ message ∈ messages, message.body.length < 2 ^ 32) :
    Leads ⟨done, opened, messages.flatMap CompleteMessage.wire ++ rest⟩
      ⟨done ++ messages.map CompleteMessage.whole, opened, rest⟩ := by
  induction messages generalizing done with
  | nil => simpa using Leads.refl _
  | cons message messages ih =>
    have hrest : Leads ⟨done ++ [message.whole], opened,
        messages.flatMap CompleteMessage.wire ++ rest⟩ _ :=
      ih fun m hm ↦ hbodies m (mem_cons_of_mem _ hm)
    simpa using (leads_complete message (hbodies message (mem_cons_self ..))).trans hrest

variable {requestId : UInt32} {endian : Endianness} {data body : Bytes}
  {header : MessageHeader}

/-- The parts of what is sent for the pieces are as short as the whole. -/
theorem wirePieces_cons_sizes {piece : Piece} {pieces : List Piece} {n : ℕ}
    (h : (wirePieces requestId (piece :: pieces)).length < n) :
    (∀ message ∈ piece.before, message.body.length < n) ∧ 4 + piece.data.length < n ∧
      (wirePieces requestId pieces).length < n := by
  simp only [wirePieces, length_append, length_giopFrame12, length_bytes] at h
  refine ⟨fun message hmem ↦ ?_, by omega, by omega⟩
  have hsub : message.wire.Sublist (piece.before.flatMap CompleteMessage.wire) :=
    sublist_flatten_of_mem (mem_map_of_mem hmem)
  have hle := hsub.length_le
  rw [CompleteMessage.wire, length_giopFrame12] at hle
  omega

/-- A flagged first frame is kept open under its request id. -/
theorem leads_initial {type : UInt8} {first : Bytes} (htype : MessageType.ofByte type ∈
      [.request, .reply, .cancelRequest, .locateRequest, .locateReply]) (hid : 4 ≤ first.length)
    (hfirst : first.length < 2 ^ 32) :
    Leads ⟨done, none, giopFrame12 endian true type first ++ rest⟩
      ⟨done, some (UInt32.ofNat (endian.value (first.take 4)),
        ⟨version12, endian, true, MessageType.ofByte type, UInt32.ofNat first.length⟩, first),
        rest⟩ := by
  refine Leads.of_accept rfl hfirst rfl fun s range hs ↦ ?_
  obtain ⟨rfl, hnone, -⟩ := ReassemblyView.mk.inj hs
  have hopen : s.openMessage = none := Option.map_eq_none_iff.mp hnone
  have hrequest : ∀ frame : ParsedMessage, frame.header.messageType = MessageType.ofByte type →
      frame.header.endian = endian → frame.body = first → requestIdForFragmentedInitial frame =
          .ok (UInt32.ofNat (endian.value (first.take 4))) := by
    rintro frame hmessage rfl rfl
    simp only [mem_cons, not_mem_nil, or_false] at htype
    rw [requestIdForFragmentedInitial, hmessage]
    rcases htype with h | h | h | h | h <;>
      simp only [h, exec_readU32_bodyReader _ hid] <;> rfl
  have hne : MessageType.ofByte type ≠ .fragment := by
    intro h
    rw [h] at htype
    exact absurd htype (by decide)
  refine ⟨{ s with openMessage := some ⟨UInt32.ofNat _,
    ⟨version12, endian, true, MessageType.ofByte type, UInt32.ofNat first.length⟩, first,
    [range]⟩ }, ?_, rfl, rfl⟩
  rw [Reassembly.accept, if_neg hne, if_pos rfl, Reassembly.acceptInitial, hrequest _ rfl rfl rfl]
  simp only [hopen, Option.isSome_none, Bool.false_eq_true, if_false]

/-- The fragment a frame of a piece carries. -/
theorem readFragment12_piece {fragmented : Bool} {bodyLen : UInt32} :
    readFragment12 ⟨⟨version12, endian, fragmented, .fragment, bodyLen⟩,
      endian.bytes 4 requestId.toNat ++ data, rest⟩ =
        .ok ⟨requestId, data, headerLen + 4, endian⟩ := by
  have hlen := length_bytes endian 4 requestId.toNat
  have hread := exec_readU32_bodyReader ⟨⟨version12, endian, fragmented, .fragment, bodyLen⟩,
    endian.bytes 4 requestId.toNat ++ data, rest⟩ (by simp)
  simp only [take_left' hlen, ofNat_value_bytes_u32] at hread
  rw [readFragment12, if_neg (by simp), if_neg (by simp), hread]
  simp only [CdrReader.position, drop_left' hlen]

/-- A flagged piece extends the open message, and the last one completes it. -/
theorem leads_piece (fragmented : Bool) (hdata : 4 + data.length < 2 ^ 32) :
    Leads ⟨done, some (requestId, header, body), giopFrame12 endian fragmented fragmentByte
        (endian.bytes 4 requestId.toNat ++ data) ++ rest⟩
      (if fragmented then ⟨done, some (requestId, header, body ++ data), rest⟩
      else ⟨done ++ [({ header with
        fragmented := false, bodyLen := UInt32.ofNat (body ++ data).length }, body ++ data)],
        none, rest⟩) := by
  cases fragmented
  all_goals
    refine Leads.of_accept rfl (by simpa using hdata) rfl fun s range hs ↦ ?_
    obtain ⟨⟨_, _, _, frameRanges⟩, hopen, hmessage⟩ :=
      Option.map_eq_some_iff.mp (congrArg ReassemblyView.opened hs)
    obtain ⟨⟩ := hmessage
    obtain ⟨rfl, -, -⟩ := ReassemblyView.mk.inj hs
    apply Exists.intro
    refine ⟨?_, ?_, ?_⟩
    · show s.accept ⟨⟨version12, endian, _, .fragment, _⟩, _, rest⟩ range = _
      rw [Reassembly.accept, Reassembly.acceptFragment]
      simp only [readFragment12_piece, hopen, ne_eq]
      rfl
    · simp [Reassembly.view]
    · rfl

/-- The pieces complete the open message, and the messages between them complete before it. -/
theorem leads_pieces (piece : Piece) (pieces : List Piece)
    (hlen : (wirePieces requestId (piece :: pieces)).length < 2 ^ 32) :
    Leads ⟨done, some (requestId, header, body), wirePieces requestId (piece :: pieces) ++ rest⟩
      ⟨done ++ ((piece :: pieces).flatMap (·.before)).map CompleteMessage.whole ++
        [({ header with
          fragmented := false
          bodyLen := UInt32.ofNat (body ++ (piece :: pieces).flatMap (·.data)).length },
          body ++ (piece :: pieces).flatMap (·.data))], none, rest⟩ := by
  induction pieces generalizing piece done body with
  | nil =>
    obtain ⟨hbodies, hdata, -⟩ := wirePieces_cons_sizes hlen
    simpa [wirePieces] using (leads_completes piece.before hbodies).trans (leads_piece false hdata)
  | cons next pieces ih =>
    obtain ⟨hbodies, hdata, hrest⟩ := wirePieces_cons_sizes hlen
    have hpieces : Leads ⟨done, some (requestId, header, body),
        piece.before.flatMap CompleteMessage.wire ++ (giopFrame12 piece.endian true fragmentByte
          (piece.endian.bytes 4 requestId.toNat ++ piece.data) ++
            (wirePieces requestId (next :: pieces) ++ rest))⟩ _ :=
      ((leads_completes piece.before hbodies).trans (leads_piece true hdata)).trans (ih next hrest)
    rw [wirePieces]
    simpa using hpieces

/-- Whatever is sent comes out as it completes. -/
theorem leads_sent (sent : Sent) (hlen : sent.wire.length < 2 ^ 32) :
    Leads ⟨done, none, sent.wire ++ rest⟩ ⟨done ++ sent.completed, none, rest⟩ := by
  cases sent with
  | complete message =>
    have hbody : message.body.length < 2 ^ 32 := by
      simp only [Sent.wire, CompleteMessage.wire, length_giopFrame12] at hlen
      omega
    exact leads_complete message hbody
  | cut message =>
    obtain ⟨endian, type, body, first, pieces, htype, hid, rfl⟩ := message
    have hsizes : first.length < 2 ^ 32 ∧ (wirePieces
        (UInt32.ofNat (endian.value (first.take 4))) pieces).length < 2 ^ 32 := by
      simp only [Sent.wire, CutMessage.wire, CutMessage.requestId, length_append,
        length_giopFrame12, take_append_of_le_length hid] at hlen
      omega
    cases pieces with
    | nil =>
      -- a message in one piece is a complete frame
      have hne : MessageType.ofByte type ≠ .fragment := by
        intro h
        rw [h] at htype
        exact absurd htype (by decide)
      have hleads : Leads ⟨done, none, _ ++ rest⟩ _ :=
        leads_complete ⟨endian, type, first, hne⟩ hsizes.1
      simpa [Sent.wire, CutMessage.wire, wirePieces, Sent.completed, CompleteMessage.wire,
        CompleteMessage.whole] using hleads
    | cons piece pieces =>
      have hleads : Leads ⟨done, none, giopFrame12 endian true type first ++ (_ ++ rest)⟩ _ :=
        (leads_initial htype hid hsizes.1).trans (leads_pieces piece pieces hsizes.2)
      simpa [Sent.wire, CutMessage.wire, CutMessage.requestId, Sent.completed, wholeMessage,
        take_append_of_le_length hid] using hleads

theorem leads_sents (sents : List Sent) (hlen : (sents.flatMap Sent.wire).length < 2 ^ 32) :
    Leads ⟨done, none, sents.flatMap Sent.wire ++ rest⟩
      ⟨done ++ sents.flatMap Sent.completed, none, rest⟩ := by
  induction sents generalizing done with
  | nil => simpa using Leads.refl _
  | cons sent sents ih =>
    simp only [flatMap_cons, length_append] at hlen
    have hrest : Leads ⟨done ++ sent.completed, none, sents.flatMap Sent.wire ++ rest⟩ _ :=
      ih (by omega)
    simpa using (leads_sent sent (by omega)).trans hrest

end Run

/-- A message that is whole: it is not marked as fragmented, and declares its own length. -/
def IsWhole (message : MessageHeader × Bytes) : Prop :=
  message.1.fragmented = false ∧ message.1.bodyLen.toNat = message.2.length

theorem isWhole_wholeMessage {endian : Endianness} {type : UInt8} {body : Bytes}
    (h : body.length < 2 ^ 32) : IsWhole (wholeMessage endian type body) :=
  ⟨rfl, UInt32.toNat_ofNat_of_lt' h⟩

/-- The data of the pieces is part of what is sent for them. -/
theorem length_data_le (requestId : UInt32) (pieces : List Piece) :
    (pieces.flatMap (·.data)).length ≤ (wirePieces requestId pieces).length := by
  induction pieces with
  | nil => simp
  | cons piece pieces ih =>
    simp only [wirePieces, flatMap_cons, length_append, length_giopFrame12]
    omega

/-- The messages between the pieces are as short as what is sent with them. -/
theorem length_before_lt {requestId : UInt32} {pieces : List Piece} {n : ℕ}
    (h : (wirePieces requestId pieces).length < n) :
    ∀ message ∈ pieces.flatMap (·.before), message.body.length < n := by
  induction pieces with
  | nil => simp
  | cons piece pieces ih =>
    obtain ⟨hbodies, -, hrest⟩ := wirePieces_cons_sizes h
    intro message hmem
    rw [flatMap_cons, mem_append] at hmem
    rcases hmem with hmem | hmem
    · exact hbodies message hmem
    · exact ih hrest message hmem

theorem isWhole_of_mem_completed {sent : Sent} (hlen : sent.wire.length < 2 ^ 32) :
    ∀ message ∈ sent.completed, IsWhole message := by
  intro message hmem
  cases sent with
  | complete whole =>
    obtain rfl := mem_singleton.mp hmem
    simp only [Sent.wire, CompleteMessage.wire, length_giopFrame12] at hlen
    exact isWhole_wholeMessage (by omega)
  | cut cut =>
    simp only [Sent.wire, CutMessage.wire, length_append, length_giopFrame12] at hlen
    rcases mem_append.mp hmem with hmem | hmem
    · obtain ⟨before, hbefore, rfl⟩ := mem_map.mp hmem
      have hpieces : (wirePieces cut.requestId cut.pieces).length < 2 ^ 32 := by omega
      exact isWhole_wholeMessage (length_before_lt hpieces before hbefore)
    · obtain rfl := mem_singleton.mp hmem
      have hdata := length_data_le cut.requestId cut.pieces
      refine isWhole_wholeMessage ?_
      rw [cut.cut, length_append]
      omega

/-- **Reassembly inverts fragmentation.** Whatever was sent, in fewer than `2 ^ 32` bytes: the run
succeeds, the messages come out whole in the order in which they were complete, none of them is
marked as fragmented and each declares its own length, and the frame ranges account for every byte
once. -/
theorem reassembleMessages12_wire (sents : List Sent)
    (hlen : (sents.flatMap Sent.wire).length < 2 ^ 32) :
    ∃ output, reassembleMessages12 (sents.flatMap Sent.wire) = .ok output ∧
      (output.map fun message ↦ (message.header, message.body)) = sents.flatMap Sent.completed ∧
      (∀ message ∈ output, message.header.fragmented = false ∧
        message.header.bodyLen.toNat = message.body.length) ∧
      CoversExactly (output.flatMap (·.frameRanges)) (sents.flatMap Sent.wire).length := by
  have hleads : Leads ⟨[], none, sents.flatMap Sent.wire ++ []⟩
      ⟨[] ++ sents.flatMap Sent.completed, none, []⟩ := leads_sents sents hlen
  rw [append_nil, nil_append] at hleads
  obtain ⟨s, hloop, hview⟩ := hleads ⟨[], none, sents.flatMap Sent.wire, 0⟩ rfl
  obtain ⟨hcompleted, hopened, hremaining⟩ := ReassemblyView.mk.inj hview
  have hok : reassembleMessages12 (sents.flatMap Sent.wire) = .ok s.output := by
    rw [reassembleMessages12, hloop, Reassembly.loop_of_isEmpty hremaining]
    simp only [Option.map_eq_none_iff.mp hopened]
  refine ⟨s.output, hok, hcompleted, ?_, coversExactly_of_reassemble hok⟩
  intro message hmem
  have hmem : (message.header, message.body) ∈ sents.flatMap Sent.completed := by
    rw [← hcompleted]
    exact mem_map_of_mem hmem
  obtain ⟨sent, hsent, hmem⟩ := mem_flatMap.mp hmem
  have hsub : sent.wire.Sublist (sents.flatMap Sent.wire) :=
    sublist_flatten_of_mem (mem_map_of_mem hsent)
  exact isWhole_of_mem_completed (lt_of_le_of_lt hsub.length_le hlen) _ hmem

/-- A request in three pieces, one of them big-endian, with a cancel request in between. -/
def cutRequest : CutMessage where
  endian := .little
  type := 0
  body := [77, 0, 0, 0, 0xaa, 0xbb, 0xcc]
  first := [77, 0, 0, 0, 0xaa]
  pieces := [⟨[⟨.big, 2, [0, 0, 0, 9], by decide⟩], .big, [0xbb]⟩, ⟨[], .little, [0xcc]⟩]
  type_mem := by decide
  id_le := by decide
  cut := rfl

theorem reassembleMessages12_wire_cutRequest :
    ∃ output, reassembleMessages12 ([Sent.cut cutRequest].flatMap Sent.wire) = .ok output ∧
      (output.map fun message ↦ message.body) =
        [[0, 0, 0, 9], [77, 0, 0, 0, 0xaa, 0xbb, 0xcc]] := by
  obtain ⟨output, hok, hcompleted, -, -⟩ :=
    reassembleMessages12_wire [Sent.cut cutRequest] (by decide +kernel)
  refine ⟨output, hok, ?_⟩
  have hbodies := congrArg (map Prod.snd) hcompleted
  rwa [map_map] at hbodies

end Bhf.Iiop
