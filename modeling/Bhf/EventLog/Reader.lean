import Bhf.Lib.Stream

/-!
# Reading the event stream of the probe

The stream is a sequence of records, each a tag byte and the fields that go with it. Integers are
little-endian; a string is its length and its bytes, which have to be UTF-8. The records of mock
calls and top-level catches end with context that is consumed and dropped.

`readEvents` collects the events up to the end of the stream, or the first error.
-/

namespace Bhf.EventLog

open StateExcept Reader

inductive EventTag where
  | begin
  | ended
  | crumb
  | target
  | handler
  | raise
  | mock
  | topLevel
  | targetEntry
  deriving DecidableEq

def EventTag.tryFromByte (byte : UInt8) : Option EventTag :=
  if byte = 1 then some begin
  else if byte = 2 then some ended
  else if byte = 3 then some crumb
  else if byte = 4 then some target
  else if byte = 5 then some handler
  else if byte = 6 then some raise
  else if byte = 7 then some mock
  else if byte = 8 then some topLevel
  else if byte = 9 then some targetEntry
  else none

inductive Event where
  | begin (testcaseId : UInt64)
  | ended (resultClass : UInt8)
  | crumb (id : UInt32)
  | target (id : UInt32)
  | targetEntry
  | handler (exceptionName exceptionMessage handlerFile : String)
      (handlerLine lastBreadcrumb targetId : UInt32) (testcaseId : UInt64)
  | raise (exceptionName file : String) (line breadcrumb : UInt32)
  | mock (symbol : String)
  | topLevel (exceptionName exceptionMessage : String)
  deriving DecidableEq

/-- The errors of the reader. `notUtf8` is the I/O error that carries what the standard library says
about the bytes. -/
inductive EventReadError where
  | unknownTag (tag : UInt8)
  | io (message : String)
  | notUtf8 (bytes : Bytes)
  | truncated

def readU8 : Reader EventReadError UInt8 := do
  return (← readExact .truncated 1).headD 0

def readU32 : Reader EventReadError UInt32 :=
  readU32Le .truncated

def readU64 : Reader EventReadError UInt64 :=
  readU64Le .truncated

def maxStringLen : ℕ := 16 * 1024 * 1024

def readString : Reader EventReadError String := do
  let len ← readU32
  if len.toNat > maxStringLen then
    throw (.io s!"event-log string length {len} exceeds cap {maxStringLen}")
  else do
    let bytes ← readExact .truncated len.toNat
    match String.fromUTF8? bytes.toByteArray with
    | none => throw (.notUtf8 bytes)
    | some value => return value

/-- The fields that go with a tag. -/
def readPayload : EventTag → Reader EventReadError Event
  | .begin => do return .begin (← readU64)
  | .ended => do return .ended (← readU8)
  | .crumb => do return .crumb (← readU32)
  | .target => do return .target (← readU32)
  | .targetEntry => return .targetEntry
  | .handler => do
    let exceptionName ← readString
    let exceptionMessage ← readString
    let handlerFile ← readString
    let handlerLine ← readU32
    let lastBreadcrumb ← readU32
    let targetId ← readU32
    return .handler exceptionName exceptionMessage handlerFile handlerLine lastBreadcrumb targetId
      (← readU64)
  | .raise => do
    let exceptionName ← readString
    let file ← readString
    let line ← readU32
    return .raise exceptionName file line (← readU32)
  | .mock => do
    let symbol ← readString
    let _lastBreadcrumb ← readU32
    let _targetId ← readU32
    let _testcaseId ← readU64
    return .mock symbol
  | .topLevel => do
    let exceptionName ← readString
    let exceptionMessage ← readString
    let _lastBreadcrumb ← readU32
    let _targetId ← readU32
    let _testcaseId ← readU64
    return .topLevel exceptionName exceptionMessage

/-- The record that starts with this byte. -/
def readRecord (byte : UInt8) : Reader EventReadError Event :=
  match EventTag.tryFromByte byte with
  | none => throw (.unknownTag byte)
  | some tag => readPayload tag

def nextEvent : Reader EventReadError (Option Event) := do
  match ← readByte with
  | none => return none
  | some byte => return some (← readRecord byte)

/-! ### Collecting the events -/

theorem shortens_readU8 : Shortens readU8 :=
  (shortens_readExact _ 1).bind fun _ ↦ shortens_pure _

theorem shortens_readString : Shortens readString := by
  refine (shortens_readU32Le _).bind fun len ↦ ?_
  split
  · exact shortens_throw _
  · refine (shortens_readExact _ _).bind fun bytes ↦ ?_
    split
    · exact shortens_throw _
    · exact shortens_pure _

theorem shortens_readPayload (tag : EventTag) : Shortens (readPayload tag) := by
  have h32 : Shortens readU32 := shortens_readU32Le _
  have h64 : Shortens readU64 := shortens_readU64Le _
  have hs := shortens_readString
  cases tag with
  | begin => exact h64.bind fun _ ↦ shortens_pure _
  | ended => exact shortens_readU8.bind fun _ ↦ shortens_pure _
  | crumb | target => exact h32.bind fun _ ↦ shortens_pure _
  | targetEntry => exact shortens_pure _
  | handler =>
    exact hs.bind fun _ ↦ hs.bind fun _ ↦ hs.bind fun _ ↦ h32.bind fun _ ↦ h32.bind fun _ ↦
      h32.bind fun _ ↦ h64.bind fun _ ↦ shortens_pure _
  | raise =>
    exact hs.bind fun _ ↦ hs.bind fun _ ↦ h32.bind fun _ ↦ h32.bind fun _ ↦ shortens_pure _
  | mock =>
    exact hs.bind fun _ ↦ h32.bind fun _ ↦ h32.bind fun _ ↦ h64.bind fun _ ↦ shortens_pure _
  | topLevel =>
    exact hs.bind fun _ ↦ hs.bind fun _ ↦ h32.bind fun _ ↦ h32.bind fun _ ↦ h64.bind fun _ ↦
      shortens_pure _

theorem shortens_readRecord (byte : UInt8) : Shortens (readRecord byte) := by
  rw [readRecord]
  split
  · exact shortens_throw _
  · exact shortens_readPayload _

theorem exec_nextEvent_nil : exec nextEvent [] = (.ok none, []) :=
  rfl

theorem exec_nextEvent_cons (byte : UInt8) (stream : Bytes) :
    exec nextEvent (byte :: stream) = exec (do return some (← readRecord byte)) stream :=
  rfl

variable {stream rest : Bytes} {event : Event}

/-- An event takes at least its tag off the stream. -/
theorem length_lt_of_nextEvent (h : exec nextEvent stream = (.ok (some event), rest)) :
    rest.length < stream.length := by
  cases stream with
  | nil => simp [exec_nextEvent_nil] at h
  | cons byte stream =>
    have hshort := (shortens_readRecord byte).bind fun event ↦ shortens_pure (some event)
    exact Nat.lt_succ_of_le (hshort _ _ _ h).length_le

/-- Every event up to the end of the stream, or the first error. -/
def readEvents (stream : Bytes) : Except EventReadError (List Event) :=
  match h : exec nextEvent stream with
  | (.error e, _) => .error e
  | (.ok none, _) => .ok []
  | (.ok (some event), rest) =>
    have := length_lt_of_nextEvent h
    (event :: ·) <$> readEvents rest
termination_by stream.length

theorem readEvents_of_end (h : exec nextEvent stream = (.ok none, rest)) :
    readEvents stream = .ok [] := by
  rw [readEvents]
  split
  · next h' =>
    rw [h] at h'
    cases h'
  · rfl
  · next h' =>
    rw [h] at h'
    cases h'

theorem readEvents_nil : readEvents [] = .ok [] :=
  readEvents_of_end exec_nextEvent_nil

theorem readEvents_of_error {e : EventReadError} (h : exec nextEvent stream = (.error e, rest)) :
    readEvents stream = .error e := by
  rw [readEvents]
  split
  · next h' =>
    rw [h] at h'
    cases h'
    rfl
  iterate 2
    · next h' =>
      rw [h] at h'
      cases h'

theorem readEvents_of_event (h : exec nextEvent stream = (.ok (some event), rest)) :
    readEvents stream = (event :: ·) <$> readEvents rest := by
  rw [readEvents]
  split
  iterate 2
    · next h' =>
      rw [h] at h'
      cases h'
  · next h' =>
    rw [h] at h'
    cases h'
    rfl

end Bhf.EventLog
