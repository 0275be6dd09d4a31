import Bhf.RuntraceShim.Builder

/-!
# The runtrace log

Events are appended to one log, each with one write of its buffer, until the cap on the bytes of the
log is reached; the counter of bytes also counts what is dropped. A log is meant to be read line by
line: one line for each event, and in it an object with the name of the event under `e` and its
fields in order, strings as the code points of their bytes and integers in decimal.

The line of an event that has room in the buffer **is read back as the event** (`lineReads_body`).
An event that has no room loses its end, the newline before all, and **with it the start of the next
line**: a log below its cap can be read exactly if every event had room (`logReads_iff`).
-/

namespace Bhf.RuntraceShim

open List Json Event

def maxLogBytes : ℕ :=
  16 * 1024 * 1024

/-- The log: whether it could be opened, the bytes counted so far, and what the file holds. -/
structure Log where
  opened : Bool
  bytes : ℕ
  content : Bytes

/-- A log that was just opened. -/
def Log.start : Log :=
  ⟨true, 0, []⟩

def emitRaw (log : Log) (line : Bytes) : Log :=
  if log.opened = false then log
  else if maxLogBytes < log.bytes + line.length then { log with bytes := log.bytes + line.length }
  else { log with bytes := log.bytes + line.length, content := log.content ++ line }

/-- Build an event and append it; `none` would be a panic in the host process. -/
def emit (log : Log) (event : Event) : Option Log :=
  (Builder.build event).map fun b ↦ emitRaw log b.buf

def emitAll (log : Log) (events : List Event) : Option Log :=
  events.foldlM emit log

/-! ### What is written -/

/-- What an event adds to the log. -/
def Event.line (event : Event) : Bytes :=
  event.rendering.take eventBufferSize

/-- The buffer has room for the whole line of the event. -/
def Event.Fits (event : Event) : Prop :=
  event.rendering.length ≤ eventBufferSize

theorem emit_eq_some (log : Log) (event : Event) :
    emit log event = some (emitRaw log event.line) := by
  obtain ⟨b, hb, hbuf⟩ := Builder.buf_build event
  rw [emit, hb, Option.map_some, hbuf]
  rfl

variable {events : List Event} {key bytes : Bytes} {event : Event}

/-- Below the cap, the log holds the lines of all events, in order. -/
theorem emitAll_eq_some {log : Log} (hopen : log.opened)
    (hcap : log.bytes + (events.map fun event ↦ event.line.length).sum ≤ maxLogBytes) :
    ∃ log', emitAll log events = some log' ∧
      log'.content = log.content ++ events.flatMap line := by
  induction events generalizing log with
  | nil => exact ⟨log, rfl, (append_nil _).symm⟩
  | cons event events ih =>
    rw [map_cons, sum_cons] at hcap
    have hraw : emitRaw log event.line = { log with
          bytes := log.bytes + event.line.length
          content := log.content ++ event.line } := by
      rw [emitRaw, if_neg (by simp [hopen]), if_neg (by omega)]
    have hbytes : (emitRaw log event.line).bytes = log.bytes + event.line.length := by rw [hraw]
    have hopen' : (emitRaw log event.line).opened := by rw [hraw]; exact hopen
    obtain ⟨log', hlog', hcontent⟩ := ih hopen' (by omega)
    refine ⟨log', ?_, ?_⟩
    · rw [emitAll, foldlM_cons, emit_eq_some]
      exact hlog'
    · rw [hcontent, hraw, flatMap_cons, append_assoc]

/-! ### Reading a line -/

/-- A value of a field as JSON. -/
def FieldReads : FieldValue → Json → Prop
  | .str value, json => json = .string (value.map Char.ofUInt8)
  | .i64 value, json =>
    ∃ literal, json = .number literal ∧ integerValue literal.1 = some value.toInt
  | .null, json => json = .null

/-- The members of the object of an event. -/
def Event.members (event : Event) : List (Bytes × FieldValue) :=
  (ascii "e", .str event.name) :: event.fields.map fun keyed ↦ (keyed.1.1, keyed.2)

/-- **The line is a JSON object that holds the event.** -/
def LineReads (event : Event) (line : Bytes) : Prop :=
  ∃ members, Json.readUtf8 line = some (.object members) ∧
    List.Forall₂ (fun expected member ↦ member.1 = expected.1.map Char.ofUInt8 ∧
      FieldReads expected.2 member.2) event.members members

/-- A byte as the code point of the same value. -/
abbrev chars (bytes : Bytes) : List Char :=
  bytes.map Char.ofUInt8

/-- The object that the line of an event holds. -/
def FieldValue.json : FieldValue → Json
  | .str value => .string (chars value)
  | .i64 value => .integer value.toInt
  | .null => .null

theorem fieldReads_json (value : FieldValue) : FieldReads value value.json := by
  cases value with
  | str value => rfl
  | i64 value => exact ⟨_, rfl, integerValue_integerText value.toInt⟩
  | null => rfl

theorem hexUnit_hexDigit (byte : UInt8) :
    hexUnit '0' '0' (Char.ofUInt8 (hexDigit ((byte >>> 4) &&& 0xf)))
      (Char.ofUInt8 (hexDigit (byte &&& 0xf))) = some byte.toNat := by
  have h : ∀ n : Fin 256, hexUnit '0' '0' (Char.ofUInt8 (hexDigit ((UInt8.ofFin n >>> 4) &&& 0xf)))
      (Char.ofUInt8 (hexDigit (UInt8.ofFin n &&& 0xf))) = some n.val := by decide +kernel
  exact h byte.toFin

theorem writesChar_plain {byte : UInt8} (hctl : 0x20 ≤ byte) (hquote : byte ≠ '"'.toUInt8)
    (hback : byte ≠ '\\'.toUInt8) : Json.WritesChar [Char.ofUInt8 byte] (Char.ofUInt8 byte) := by
  refine writesChar_self (fun h ↦ hquote ?_) (fun h ↦ hback ?_) ?_
  · rw [← h, toUInt8_ofUInt8]
  · rw [← h, toUInt8_ofUInt8]
  · exact hctl

/-- Every byte of a string is read back, however it was written. -/
theorem writesChar_escapeByte (byte : UInt8) :
    Json.WritesChar (chars (escapeByte byte)) (Char.ofUInt8 byte) := by
  by_cases hsimple : byte ∈ ['"'.toUInt8, '\\'.toUInt8, '\n'.toUInt8, '\r'.toUInt8, '\t'.toUInt8]
  · simp only [mem_cons, not_mem_nil, or_false] at hsimple
    rcases hsimple with rfl | rfl | rfl | rfl | rfl <;> exact writesChar_escaped rfl
  simp only [mem_cons, not_mem_nil, or_false, not_or] at hsimple
  obtain ⟨hquote, hback, hn, hr, ht⟩ := hsimple
  rw [escapeByte, if_neg hquote, if_neg hback, if_neg hn, if_neg hr, if_neg ht]
  split
  · next hprint => exact writesChar_plain hprint.1 hquote hback
  · have hlt := byte.toNat_lt
    have hwrites := writesChar_unit (hexUnit_hexDigit byte)
      (by simp [isHighSurrogate]; omega) (by simp [isLowSurrogate]; omega)
    rwa [← toNat_ofUInt8, Char.ofNat_toNat] at hwrites

theorem stringText_quoted (value : Bytes) :
    Json.StringText (chars (value.flatMap escapeByte)) (chars value) := by
  intro rest
  rw [chars, map_flatMap]
  exact readString_flatMap (fun byte _ ↦ writesChar_escapeByte byte) rest

theorem stringText_key (hkey : key.all isPlain) : Json.StringText (chars key) (chars key) := by
  have hwrites : ∀ byte ∈ key, Json.WritesChar [Char.ofUInt8 byte] (Char.ofUInt8 byte) := by
    intro byte hbyte
    have hplain := all_eq_true.mp hkey byte hbyte
    simp only [isPlain, Bool.and_eq_true, decide_eq_true_eq, bne_iff_ne] at hplain
    exact writesChar_plain hplain.1.1.1 hplain.1.2 hplain.2
  intro rest
  have h := readString_flatMap hwrites rest
  rwa [← map_eq_flatMap] at h

theorem chars_i64Bytes (value : Int64) : chars (i64Bytes value) = integerText value.toInt := by
  rw [chars, i64Bytes, map_map]
  refine (map_congr_left fun c hc ↦ ?_).trans (map_id _)
  have hchar := toNat_of_isNumberChar
    (all_isNumberChar_of_isNumber (isNumber_integerText value.toInt) c hc)
  exact ofUInt8_toUInt8 (by omega)

theorem readsAs_json (value : FieldValue) : Json.ReadsAs (chars value.bytes) value.json := by
  cases value with
  | str value =>
    have h := readsAs_string (stringText_quoted value)
    rw [FieldValue.bytes, quoted, chars, map_cons, map_append]
    exact h
  | i64 value =>
    show Json.ReadsAs (chars (i64Bytes value)) (.integer value.toInt)
    rw [chars_i64Bytes]
    exact readsAs_number ⟨_, isNumber_integerText value.toInt⟩
  | null => exact readsAs_null

theorem isPlain_of_mem_members {member : Bytes × FieldValue} (h : member ∈ event.members) :
    member.1.all isPlain := by
  rcases mem_cons.mp h with rfl | h
  · show (ascii "e").all isPlain
    decide
  · obtain ⟨keyed, -, rfl⟩ := mem_map.mp h
    exact keyed.1.2

/-- The line of an event, as a text. -/
theorem chars_body (event : Event) :
    chars event.body = '{' :: (separated (event.members.map fun member ↦
      memberText (chars member.1) (chars member.2.bytes)) ++ ['}']) := by
  have hmember (key : Bytes) (value : FieldValue) :
      chars (memberBytes key value) = memberText (chars key) (chars value.bytes) := by
    rw [memberBytes, chars, cons_append, map_cons, append_assoc, map_append]
    rfl
  rw [members, map_cons, separated_cons, ← hmember, body, chars,
    map_append, map_cons, map_append, map_flatMap, map_map, flatMap_map]
  simp only [map_cons, ← hmember]
  rfl

/-! ### Lines of printable bytes -/

def Printable (bytes : Bytes) : Prop :=
  ∀ byte ∈ bytes, 0x20 ≤ byte ∧ byte ≤ 0x7e

theorem printable_of_all (h : bytes.all (fun byte ↦ 0x20 ≤ byte && byte ≤ 0x7e)) :
    Printable bytes := by
  intro byte hbyte
  simpa using all_eq_true.mp h byte hbyte

theorem Printable.append {bytes' : Bytes} (h : Printable bytes) (h' : Printable bytes') :
    Printable (bytes ++ bytes') :=
  fun byte hbyte ↦ (mem_append.mp hbyte).elim (h byte) (h' byte)

theorem printable_flatMap {α : Type} {f : α → Bytes} {l : List α}
    (h : ∀ a ∈ l, Printable (f a)) : Printable (l.flatMap f) := by
  intro byte hbyte
  obtain ⟨a, ha, hbyte⟩ := mem_flatMap.mp hbyte
  exact h a ha byte hbyte

theorem printable_escapeByte (byte : UInt8) : Printable (escapeByte byte) := by
  have h : ∀ n : Fin 256, (escapeByte (UInt8.ofFin n)).all
      (fun byte ↦ 0x20 ≤ byte && byte ≤ 0x7e) := by decide +kernel
  exact printable_of_all (h byte.toFin)

theorem printable_quoted (value : Bytes) : Printable (quoted value) := by
  have hquote : Printable ['"'.toUInt8] := printable_of_all (by decide)
  exact hquote.append ((printable_flatMap fun byte _ ↦ printable_escapeByte byte).append hquote)

theorem printable_i64Bytes (value : Int64) : Printable (i64Bytes value) := by
  intro byte hbyte
  obtain ⟨c, hc, rfl⟩ := mem_map.mp hbyte
  have hchar := toNat_of_isNumberChar
    (all_isNumberChar_of_isNumber (isNumber_integerText value.toInt) c hc)
  have hnat : c.toUInt8.toNat = c.toNat := by
    rw [← toNat_ofUInt8, ofUInt8_toUInt8 (by omega)]
  rw [UInt8.le_iff_toNat_le, UInt8.le_iff_toNat_le, hnat]
  exact hchar

theorem printable_memberBytes (hkey : key.all isPlain) (value : FieldValue) :
    Printable (memberBytes key value) := by
  have hplain : Printable key := by
    intro byte hbyte
    have h := all_eq_true.mp hkey byte hbyte
    simp only [isPlain, Bool.and_eq_true, decide_eq_true_eq] at h
    exact h.1.1
  have hquote : Printable ['"'.toUInt8] := printable_of_all (by decide)
  have hcolon : Printable (ascii "\":") := printable_of_all (by decide)
  refine (hquote.append (hplain.append hcolon)).append ?_
  cases value with
  | str value => exact printable_quoted value
  | i64 value => exact printable_i64Bytes value
  | null =>
    show Printable (ascii "null")
    exact printable_of_all (by decide)

theorem printable_body (event : Event) : Printable event.body := by
  have hopen : Printable ['{'.toUInt8] := printable_of_all (by decide)
  have hcomma : Printable [','.toUInt8] := printable_of_all (by decide)
  have hclose : Printable ['}'.toUInt8] := printable_of_all (by decide)
  have hname : Printable (memberBytes (ascii "e") (.str event.name)) :=
    printable_memberBytes (by decide) _
  have hfields := printable_flatMap (l := event.fields)
    fun keyed _ ↦ hcomma.append (printable_memberBytes keyed.1.2 keyed.2)
  exact (hopen.append (hname.append hfields)).append hclose

theorem newline_notMem (h : Printable bytes) : '\n'.toUInt8 ∉ bytes :=
  fun hmem ↦ absurd (h _ hmem).1 (by decide)

/-- **The whole line of an event is read back as the event.** -/
theorem lineReads_body (event : Event) : LineReads event event.body := by
  have hread := readsAs_object (l := event.members)
    (fun member hmember ↦ stringText_key (isPlain_of_mem_members hmember))
    (fun member _ ↦ readsAs_json member.2)
  rw [← chars_body] at hread
  refine ⟨event.members.map fun member ↦ (chars member.1, member.2.json), ?_,
    forall₂_map_right_iff.mpr (forall₂_same.mpr fun member _ ↦ ⟨rfl, fieldReads_json member.2⟩)⟩
  have hascii : ∀ byte ∈ event.body, byte < 0x80 := fun byte hbyte ↦
    UInt8.lt_of_le_of_lt (printable_body event byte hbyte).2 (by decide)
  rw [← utf8Bytes_ofList_ascii hascii, readUtf8_utf8Bytes, String.toList_ofList]
  exact read_eq_some hread

/-! ### The log -/

/-- **The log can be read line by line**: it is one line for each event, each closed by a newline,
and the lines of the events that had room hold them. -/
def LogReads (events : List Event) (content : Bytes) : Prop :=
  ∃ lines : List Bytes, content = lines.flatMap (· ++ ['\n'.toUInt8]) ∧
    List.Forall₂ (fun event line ↦ '\n'.toUInt8 ∉ line ∧ (event.Fits → LineReads event line))
      events lines

theorem length_line_le (event : Event) : event.line.length ≤ eventBufferSize :=
  length_take_le _ _

theorem length_le_flatMap_escapeByte (value : Bytes) :
    value.length ≤ (value.flatMap escapeByte).length := by
  have hescape : ∀ n : Fin 256, 1 ≤ (escapeByte (UInt8.ofFin n)).length := by decide +kernel
  induction value with
  | nil => rfl
  | cons byte value ih =>
    have hbyte : 1 ≤ (escapeByte byte).length := hescape byte.toFin
    rw [flatMap_cons, length_append, length_cons]
    omega

/-- A string takes more room than its bytes. -/
theorem length_lt_rendering {key : Key} {value : Bytes}
    (h : (key, .str value) ∈ event.fields) : value.length < event.rendering.length := by
  have hvalue := length_le_flatMap_escapeByte value
  obtain ⟨before, after, hfields⟩ := append_of_mem h
  rw [rendering, body, hfields]
  simp only [flatMap_append, flatMap_cons, length_append, length_cons,
    memberBytes, FieldValue.bytes, quoted]
  omega

theorem count_newline_line (event : Event) [Decidable event.Fits] :
    event.line.count '\n'.toUInt8 = if event.Fits then 1 else 0 := by
  have hbody := newline_notMem (printable_body event)
  have hlength : event.rendering.length = event.body.length + 1 := length_append
  split
  · next hfits =>
    rw [line, take_of_length_le hfits, rendering, count_append, count_eq_zero_of_not_mem hbody]
    rfl
  · next hfits =>
    refine count_eq_zero_of_not_mem fun hmem ↦ hbody ?_
    rw [Event.Fits, hlength] at hfits
    rw [line, rendering, take_append_of_le_length (by omega)] at hmem
    exact mem_of_mem_take hmem

/-- A newline ends every line of a log that can be read, and no truncated line has one. -/
theorem fits_of_logReads (h : LogReads events (events.flatMap line)) :
    ∀ event ∈ events, event.Fits := by
  classical
  obtain ⟨lines, hcontent, hlines⟩ := h
  have hleft : ∀ events : List Event, (events.flatMap line).count '\n'.toUInt8 =
      events.countP fun event ↦ event.Fits := by
    intro events
    induction events with
    | nil => rfl
    | cons event events ih =>
      rw [flatMap_cons, count_append, ih, count_newline_line, countP_cons, add_comm]
      simp
  have hright : (lines.flatMap (· ++ ['\n'.toUInt8])).count '\n'.toUInt8 = events.length := by
    clear hcontent
    induction hlines with
    | nil => rfl
    | @cons event line events lines hline _ ih =>
      rw [flatMap_cons, count_append, ih, count_append,
        count_eq_zero_of_not_mem hline.1, length_cons, add_comm]
      rfl
  have hcount : events.countP (fun event ↦ event.Fits) = events.length := by
    rw [← hleft, hcontent, hright]
  intro event hevent
  exact of_decide_eq_true (countP_eq_length.mp hcount event hevent)

theorem logReads_of_fits (h : ∀ event ∈ events, event.Fits) :
    LogReads events (events.flatMap line) := by
  refine ⟨events.map body, ?_, forall₂_map_right_iff.mpr (forall₂_same.mpr
    fun event _ ↦ ⟨newline_notMem (printable_body event), fun _ ↦ lineReads_body event⟩)⟩
  rw [flatMap_map]
  exact flatMap_congr fun event hevent ↦ take_of_length_le (h event hevent)

/-- **A log below its cap can be read exactly if every event had room in the buffer.** -/
theorem logReads_iff (events : List Event)
    (hcap : (events.map fun event ↦ event.line.length).sum ≤ maxLogBytes) :
    ∃ log, emitAll Log.start events = some log ∧
      (LogReads events log.content ↔
        ∀ event ∈ events, event.rendering.length ≤ eventBufferSize) := by
  have hstart : Log.start.bytes + (events.map fun event ↦ event.line.length).sum ≤ maxLogBytes := by
    show 0 + _ ≤ _
    rwa [zero_add]
  obtain ⟨log, hlog, hcontent⟩ := emitAll_eq_some rfl hstart
  refine ⟨log, hlog, ?_⟩
  rw [hcontent]
  exact ⟨fits_of_logReads, logReads_of_fits⟩

/-- The event of an opened path. -/
def openEvent (path : Bytes) : Event :=
  ⟨ascii "open", [(⟨ascii "p", by decide⟩, .str path)]⟩

/-- The event of a closed descriptor. -/
def closeEvent (result : Int64) : Event :=
  ⟨ascii "close", [(⟨ascii "r", by decide⟩, .i64 result)]⟩

/-- A newline in a string and the least integer. -/
theorem logReads_newline_minValue :
    ∃ log, emitAll Log.start [openEvent [10], closeEvent Int64.minValue] = some log ∧
      LogReads [openEvent [10], closeEvent Int64.minValue] log.content := by
  obtain ⟨log, hlog, hiff⟩ := logReads_iff [openEvent [10], closeEvent Int64.minValue]
    (by decide +kernel)
  exact ⟨log, hlog, hiff.mpr (by decide +kernel)⟩

/-- A path that fills the buffer takes the end of its own line, and the line of the next event. -/
theorem not_logReads_long_path :
    ∃ log, emitAll Log.start [openEvent (List.replicate 4096 97), closeEvent 0] = some log ∧
      ¬LogReads [openEvent (List.replicate 4096 97), closeEvent 0] log.content := by
  have hcap : Log.start.bytes + ([openEvent (replicate 4096 97), closeEvent 0].map
      fun event ↦ event.line.length).sum ≤ maxLogBytes := by
    have hlong := length_line_le (openEvent (replicate 4096 97))
    have hclose := length_line_le (closeEvent 0)
    simp only [Log.start, map_cons, map_nil, sum_cons, sum_nil, maxLogBytes]
    rw [eventBufferSize] at hlong hclose
    omega
  obtain ⟨log, hlog, hcontent⟩ := emitAll_eq_some rfl hcap
  refine ⟨log, hlog, fun h ↦ ?_⟩
  rw [hcontent] at h
  have hfits := fits_of_logReads h _ mem_cons_self
  have hlength : _ < (openEvent (replicate 4096 97)).rendering.length :=
    length_lt_rendering mem_cons_self
  rw [Event.Fits, eventBufferSize] at hfits
  rw [length_replicate] at hlength
  omega

end Bhf.RuntraceShim
