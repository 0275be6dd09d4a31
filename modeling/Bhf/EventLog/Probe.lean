import Bhf.EventLog.Reader

/-!
# The probe and its reader

`AdaFuzz.Probe` writes one record for each call, byte by byte and little-endian. A string is written
as its length and the positions of its characters, one byte each. Some records end with context
that the probe keeps: the last breadcrumb out of a ring of sixteen, the target and the test case.

**A record is read back exactly if its strings are valid** (`decodes_record`): an Ada `String` is
any sequence of bytes, and a Rust `String` is UTF-8. A record that is not read back stops the
reader, so the rest of the stream is lost with it (`readEvents_written`).
-/

namespace Bhf.EventLog

open StateExcept Reader

/-! ### The arguments -/

/-- An Ada `String`: character positions, with a length that is a `Natural`. -/
structure AdaString where
  chars : Bytes
  length_lt : chars.length < 2 ^ 31

/-- The Ada subtype `Natural`. -/
abbrev AdaNatural := Fin (2 ^ 31)

/-- The characters, as bytes, are the UTF-8 encoding of a string. -/
def AdaString.IsUtf8 (s : AdaString) : Prop :=
  (String.fromUTF8? s.chars.toByteArray).isSome = true

instance (s : AdaString) : Decidable s.IsUtf8 :=
  inferInstanceAs (Decidable (_ = true))

inductive Call where
  | beginTestcase (tc : UInt64)
  | endTestcase (resultClass : UInt8)
  | setTarget (t : UInt32)
  | targetEntry
  | breadcrumb (id : UInt32)
  | onHandlerEntry (exceptionName exceptionMessage handlerFile : AdaString)
      (handlerLine : AdaNatural) (lastBreadcrumb targetId : UInt32) (testcaseId : UInt64)
  | onExplicitRaise (exceptionName file : AdaString) (line : AdaNatural) (breadcrumb : UInt32)
  | onTopLevelCatch (exceptionName exceptionMessage : AdaString)
  | mockCall (symbol : AdaString)

/-! ### Writing -/

def writeU32Le (value : UInt32) : Bytes :=
  leBytes 4 value.toNat

def writeU64Le (value : UInt64) : Bytes :=
  leBytes 8 value.toNat

def writeString (value : AdaString) : Bytes :=
  writeU32Le (UInt32.ofNat value.chars.length) ++ value.chars

def ringSize : ℕ := 16

/-- What the probe remembers between calls. -/
structure Probe where
  crumbs : List UInt32 := List.replicate ringSize 0
  cursor : ℕ := 0
  curTgt : UInt32 := 0
  curTc : UInt64 := 0

namespace Probe

def lastBreadcrumb (p : Probe) : UInt32 :=
  p.crumbs.getD ((p.cursor + ringSize - 1) % ringSize) 0

/-- The context at the end of a record. -/
def writeContext (p : Probe) : Bytes :=
  writeU32Le p.lastBreadcrumb ++ (writeU32Le p.curTgt ++ writeU64Le p.curTc)

/-- The bytes a call passes to `Write_Byte`, in order. -/
def record (p : Probe) : Call → Bytes
  | .beginTestcase tc => 1 :: writeU64Le tc
  | .endTestcase resultClass => [2, resultClass]
  | .setTarget t => 4 :: writeU32Le t
  | .targetEntry => [9]
  | .breadcrumb id => 3 :: writeU32Le id
  | .onHandlerEntry exceptionName exceptionMessage handlerFile handlerLine lastBreadcrumb targetId
      testcaseId =>
    5 :: (writeString exceptionName ++ (writeString exceptionMessage ++ (writeString handlerFile ++
      (writeU32Le (UInt32.ofNat handlerLine) ++ (writeU32Le lastBreadcrumb ++
        (writeU32Le targetId ++ writeU64Le testcaseId))))))
  | .onExplicitRaise exceptionName file line breadcrumb =>
    6 :: (writeString exceptionName ++ (writeString file ++
      (writeU32Le (UInt32.ofNat line) ++ writeU32Le breadcrumb)))
  | .onTopLevelCatch exceptionName exceptionMessage =>
    8 :: (writeString exceptionName ++ (writeString exceptionMessage ++ p.writeContext))
  | .mockCall symbol => 7 :: (writeString symbol ++ p.writeContext)

def after (p : Probe) : Call → Probe
  | .beginTestcase tc =>
    { p with curTc := tc, cursor := 0, crumbs := List.replicate ringSize 0 }
  | .setTarget t => { p with curTgt := t }
  | .breadcrumb id =>
    { p with crumbs := p.crumbs.set p.cursor id, cursor := (p.cursor + 1) % ringSize }
  | _ => p

/-- The bytes of a sequence of calls. -/
def written : Probe → List Call → Bytes
  | _, [] => []
  | p, call :: calls => p.record call ++ written (p.after call) calls

end Probe

/-! ### What a call is read as -/

/-- The event has the fields that were passed. -/
def Call.Matches : Call → Event → Prop
  | .beginTestcase tc, .begin testcaseId => testcaseId = tc
  | .endTestcase resultClass, .ended resultClass' => resultClass' = resultClass
  | .setTarget t, .target id => id = t
  | .targetEntry, .targetEntry => True
  | .breadcrumb id, .crumb id' => id' = id
  | .onHandlerEntry exceptionName exceptionMessage handlerFile handlerLine lastBreadcrumb targetId
      testcaseId,
    .handler exceptionName' exceptionMessage' handlerFile' handlerLine' lastBreadcrumb' targetId'
      testcaseId' =>
    utf8Bytes exceptionName' = exceptionName.chars ∧
      utf8Bytes exceptionMessage' = exceptionMessage.chars ∧
      utf8Bytes handlerFile' = handlerFile.chars ∧ handlerLine'.toNat = handlerLine ∧
      lastBreadcrumb' = lastBreadcrumb ∧ targetId' = targetId ∧ testcaseId' = testcaseId
  | .onExplicitRaise exceptionName file line crumb, .raise exceptionName' file' line' crumb' =>
    utf8Bytes exceptionName' = exceptionName.chars ∧ utf8Bytes file' = file.chars ∧
      line'.toNat = line ∧ crumb' = crumb
  | .onTopLevelCatch exceptionName exceptionMessage, .topLevel exceptionName' exceptionMessage' =>
    utf8Bytes exceptionName' = exceptionName.chars ∧
      utf8Bytes exceptionMessage' = exceptionMessage.chars
  | .mockCall symbol, .mock symbol' => utf8Bytes symbol' = symbol.chars
  | _, _ => False

def Call.strings : Call → List AdaString
  | .onHandlerEntry exceptionName exceptionMessage handlerFile _ _ _ _ =>
    [exceptionName, exceptionMessage, handlerFile]
  | .onExplicitRaise exceptionName file _ _ => [exceptionName, file]
  | .onTopLevelCatch exceptionName exceptionMessage => [exceptionName, exceptionMessage]
  | .mockCall symbol => [symbol]
  | _ => []

/-- The reader takes this string. -/
def AdaString.Readable (s : AdaString) : Prop :=
  s.chars.length ≤ maxStringLen ∧ s.IsUtf8

theorem decodes_readString (s : AdaString) :
    Decodes readString (writeString s) s.Readable fun value ↦ utf8Bytes value = s.chars := by
  have hlt : s.chars.length < 2 ^ 32 := lt_trans s.length_lt (by decide)
  have hlen := UInt32.toNat_ofNat_of_lt' hlt
  have hfield : Parses readU32 (writeU32Le (UInt32.ofNat s.chars.length)) _ :=
    parses_readU32Le _ _
  have hchars := parses_readExact EventReadError.truncated s.chars
  refine ⟨fun ⟨hcap, hutf8⟩ ↦ ?_, fun hnot ↦ hfield.refuses ?_⟩
  · obtain ⟨value, hvalue⟩ := Option.isSome_iff_exists.1 hutf8
    refine ⟨value, utf8Bytes_of_fromUTF8? hvalue, hfield.bind ?_⟩
    rw [hlen, if_neg (not_lt.2 hcap)]
    refine hchars.finish ?_
    rw [hvalue]
    exact parses_pure value
  · rw [hlen]
    by_cases hcap : s.chars.length ≤ maxStringLen
    · have hutf8 : String.fromUTF8? s.chars.toByteArray = none :=
        Option.not_isSome_iff_eq_none.1 fun hutf8 ↦ hnot ⟨hcap, hutf8⟩
      rw [if_neg (not_lt.2 hcap)]
      refine hchars.refuses_finish ?_
      rw [hutf8]
      exact refuses_throw _ []
    · rw [if_pos (Nat.lt_of_not_le hcap)]
      exact refuses_throw _ _

/-- The reader takes the strings of this call. -/
def Call.Readable (call : Call) : Prop :=
  ∀ s ∈ call.strings, s.Readable

/-- A string of a call is read before the others. -/
theorem decodes_bind_readString {s : AdaString} {ss : List AdaString}
    {f : String → Reader EventReadError Event} {bytes : Bytes} {P : Event → Prop}
    (h : ∀ value, utf8Bytes value = s.chars → Decodes (f value) bytes (∀ s ∈ ss, s.Readable) P) :
    Decodes (readString >>= f) (writeString s ++ bytes) (∀ t ∈ s :: ss, t.Readable) P :=
  Decodes.of_iff List.forall_mem_cons ((decodes_readString s).bind h)

theorem parses_readU32 (v : UInt32) : Parses readU32 (writeU32Le v) v :=
  parses_readU32Le _ v

theorem parses_readU64 (v : UInt64) : Parses readU64 (writeU64Le v) v :=
  parses_readU64Le _ v

theorem toNat_ofNat_natural (line : AdaNatural) : (UInt32.ofNat line).toNat = line :=
  UInt32.toNat_ofNat_of_lt' (lt_trans line.isLt (by decide))

/-- The context at the end of a record is consumed and dropped. -/
theorem parses_context (p : Probe) (event : Event) :
    Parses (do
      let _lastBreadcrumb ← readU32
      let _targetId ← readU32
      let _testcaseId ← readU64
      return event) p.writeContext event :=
  (parses_readU32 _).bind ((parses_readU32 _).bind ((parses_readU64 _).map fun _ ↦ event))

/-- **A record is taken exactly if its strings are**, and then it is read as the event with the
fields that were passed, and what follows it is left. -/
theorem decodes_record (p : Probe) (call : Call) :
    ∃ tag payload, p.record call = tag :: payload ∧
      Decodes (readRecord tag) payload call.Readable call.Matches := by
  cases call with
  | beginTestcase tc =>
    exact ⟨1, _, rfl, ((parses_readU64 tc).map Event.begin).decodes (List.forall_mem_nil _) rfl⟩
  | endTestcase resultClass =>
    have hparse : Parses (readPayload .ended) [resultClass] (.ended resultClass) :=
      ((parses_readExact _ [resultClass]).map (·.headD 0)).map Event.ended
    exact ⟨2, _, rfl, hparse.decodes (List.forall_mem_nil _) rfl⟩
  | setTarget t =>
    exact ⟨4, _, rfl, ((parses_readU32 t).map Event.target).decodes (List.forall_mem_nil _) rfl⟩
  | targetEntry =>
    exact ⟨9, [], rfl, (parses_pure Event.targetEntry).decodes (List.forall_mem_nil _) trivial⟩
  | breadcrumb id =>
    exact ⟨3, _, rfl, ((parses_readU32 id).map Event.crumb).decodes (List.forall_mem_nil _) rfl⟩
  | onHandlerEntry exceptionName exceptionMessage handlerFile handlerLine lastBreadcrumb targetId
      testcaseId =>
    refine ⟨5, _, rfl, decodes_bind_readString fun exceptionName' hname ↦ ?_⟩
    refine decodes_bind_readString fun exceptionMessage' hmessage ↦ ?_
    refine decodes_bind_readString fun handlerFile' hfile ↦ ?_
    refine ((parses_readU32 _).bind ((parses_readU32 _).bind ((parses_readU32 _).bind
      ((parses_readU64 _).map _)))).decodes (List.forall_mem_nil _) ?_
    exact ⟨hname, hmessage, hfile, toNat_ofNat_natural handlerLine, rfl, rfl, rfl⟩
  | onExplicitRaise exceptionName file line breadcrumb =>
    refine ⟨6, _, rfl, decodes_bind_readString fun exceptionName' hname ↦ ?_⟩
    refine decodes_bind_readString fun file' hfile ↦ ?_
    refine ((parses_readU32 _).bind ((parses_readU32 _).map _)).decodes (List.forall_mem_nil _) ?_
    exact ⟨hname, hfile, toNat_ofNat_natural line, rfl⟩
  | onTopLevelCatch exceptionName exceptionMessage =>
    refine ⟨8, _, rfl, decodes_bind_readString fun exceptionName' hname ↦ ?_⟩
    refine decodes_bind_readString fun exceptionMessage' hmessage ↦ ?_
    exact (parses_context p _).decodes (List.forall_mem_nil _) ⟨hname, hmessage⟩
  | mockCall symbol =>
    refine ⟨7, _, rfl, decodes_bind_readString fun symbol' hsymbol ↦ ?_⟩
    exact (parses_context p _).decodes (List.forall_mem_nil _) hsymbol

/-! ### The stream of a sequence of calls -/

/-- One call as the reader sees it. -/
theorem decodes_nextEvent (p : Probe) (call : Call) :
    Decodes nextEvent (p.record call) call.Readable
      fun event ↦ ∃ e, event = some e ∧ call.Matches e := by
  obtain ⟨tag, payload, hrecord, hdecodes⟩ := decodes_record p call
  rw [hrecord]
  refine ⟨fun hok ↦ ?_, fun hnot rest ↦ ?_⟩
  · obtain ⟨event, hmatches, hparse⟩ := hdecodes.parses hok
    exact ⟨some event, ⟨event, rfl, hmatches⟩, fun rest ↦ hparse.map some rest⟩
  · obtain ⟨e, stream, herror⟩ := hdecodes.refuses hnot rest
    refine ⟨e, stream, ?_⟩
    rw [List.cons_append, exec_nextEvent_cons]
    exact exec_bind_of_error herror

theorem readEvents_record_of_readable (p : Probe) {call : Call} (h : call.Readable) :
    ∃ event, call.Matches event ∧
      ∀ rest, readEvents (p.record call ++ rest) = (event :: ·) <$> readEvents rest := by
  obtain ⟨_, ⟨event, rfl, hmatches⟩, hparse⟩ := (decodes_nextEvent p call).parses h
  exact ⟨event, hmatches, fun rest ↦ readEvents_of_event (hparse rest)⟩

/-- **A stream is read as one event for each call, as long as every record is taken.** -/
theorem readEvents_written {calls : List Call} (h : ∀ call ∈ calls, call.Readable) :
    ∀ p : Probe, ∃ events, readEvents (p.written calls) = .ok events ∧
      List.Forall₂ Call.Matches calls events := by
  induction calls with
  | nil => exact fun _ ↦ ⟨[], readEvents_nil, .nil⟩
  | cons call calls ih =>
    intro p
    obtain ⟨events, hread, hmatches⟩ :=
      ih (fun other hother ↦ h other (.tail _ hother)) _
    obtain ⟨event, hevent, hrecord⟩ := readEvents_record_of_readable p (h call (.head _))
    refine ⟨event :: events, ?_, .cons hevent hmatches⟩
    rw [Probe.written, hrecord, hread]
    rfl

/-- **A stream that is read holds no record that is refused.** -/
theorem readable_of_readEvents {calls : List Call} :
    ∀ {p : Probe} {events : List Event}, readEvents (p.written calls) = .ok events →
      ∀ call ∈ calls, call.Readable := by
  induction calls with
  | nil => simp
  | cons call calls ih =>
    intro p events hread
    rw [Probe.written] at hread
    by_cases hcall : call.Readable
    · obtain ⟨event, -, hrecord⟩ := readEvents_record_of_readable p hcall
      rw [hrecord] at hread
      cases hrest : readEvents ((p.after call).written calls) with
      | error e => simp [hrest] at hread
      | ok rest => exact List.forall_mem_cons.2 ⟨hcall, ih hrest⟩
    · obtain ⟨e, stream, herror⟩ := (decodes_nextEvent p call).refuses hcall _
      rw [readEvents_of_error herror] at hread
      contradiction

/-- **The reader takes what the probe writes exactly if the strings are UTF-8.** For calls with
strings of at most 16 MiB, the stream is read without error as one event for each call, in order and
with the fields that were passed, if and only if every string argument, as bytes, is UTF-8. -/
theorem probe_stream_read_iff_utf8 (p : Probe) (calls : List Call)
    (hshort : ∀ call ∈ calls, ∀ s ∈ call.strings, s.chars.length ≤ 16 * 1024 * 1024) :
    (∃ events, readEvents (p.written calls) = .ok events ∧
        List.Forall₂ Call.Matches calls events) ↔
      ∀ call ∈ calls, ∀ s ∈ call.strings, s.IsUtf8 := by
  constructor
  · rintro ⟨events, hread, -⟩ call hcall s hs
    exact (readable_of_readEvents hread call hcall s hs).2
  · intro hutf8
    refine readEvents_written (fun call hcall s hs ↦ ?_) p
    exact ⟨hshort call hcall s hs, hutf8 call hcall s hs⟩

/-- A handler with an empty message, after a breadcrumb. -/
theorem probe_stream_read_handler :
    ∃ events, readEvents (({} : Probe).written [.breadcrumb 5,
        .onHandlerEntry ⟨[69], by decide⟩ ⟨[], by decide⟩ ⟨[97], by decide⟩ 12 5 0 1]) =
          .ok events ∧
      List.Forall₂ Call.Matches [.breadcrumb 5,
        .onHandlerEntry ⟨[69], by decide⟩ ⟨[], by decide⟩ ⟨[97], by decide⟩ 12 5 0 1] events := by
  refine (probe_stream_read_iff_utf8 {} [.breadcrumb 5,
    .onHandlerEntry ⟨[69], by decide⟩ ⟨[], by decide⟩ ⟨[97], by decide⟩ 12 5 0 1] ?_).2 ?_
  · simp [Call.strings]
  · decide +kernel

/-- **A Latin-1 character loses the log.** The symbol is the one character `é` of position 233; the
breadcrumb behind it is not read. -/
theorem latin1_symbol_refused :
    readEvents (({} : Probe).written [.mockCall ⟨[233], by decide⟩, .breadcrumb 5]) =
      .error (.notUtf8 [233]) :=
  readEvents_of_error rfl

end Bhf.EventLog
