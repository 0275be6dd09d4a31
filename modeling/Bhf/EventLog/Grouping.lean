import Bhf.EventLog.Reader

/-!
# Grouping events into test cases

The events of a stream are attributed to the inputs they belong to: a `begin` opens a test case, the
next `begin` or `ended` closes it, and an event with no open test case is dropped. `groupEvents` is
the loop, with the open test case and the index of the event as its state.

The specification does not run: the window of a `begin` is what follows it up to the first event
that opens or closes a test case (`window`), and each field of the test case is read off the window
by itself (`testcaseOf`). **The loop returns the test cases of the windows, one for each `begin`**
(`groupEvents_eq`).
-/

namespace Bhf.EventLog

open List Option

/-! ### Test cases -/

structure HandlerEvent where
  sequenceIndex : ℕ
  exceptionName : String
  exceptionMessage : String
  handlerFile : String
  handlerLine : UInt32
  lastBreadcrumb : UInt32
  targetId : UInt32
  testcaseId : UInt64

structure RaiseEvent where
  sequenceIndex : ℕ
  exceptionName : String
  file : String
  line : UInt32
  breadcrumb : UInt32

structure TopLevelEvent where
  exceptionName : String
  exceptionMessage : String

structure EndEvent where
  resultClass : UInt8

structure MockEvent where
  symbol : String

structure Testcase where
  testcaseId : UInt64
  targetId : UInt32 := 0
  targetEntered : Bool := false
  crumbs : List UInt32 := []
  handlers : List HandlerEvent := []
  raises : List RaiseEvent := []
  topLevel : Option TopLevelEvent := none
  ended : Option EndEvent := none
  mocks : List MockEvent := []

open Testcase

/-! ### The loop -/

/-- The loop's state: the finished test cases, the open one, and the index of the next event. -/
structure Grouping where
  testcases : List Testcase := []
  current : Option Testcase := none
  sequenceIndex : ℕ := 0

/-- Add an event to the test case that is open. -/
def Testcase.record (testcase : Testcase) (index : ℕ) : Event → Testcase
  | .begin _ | .ended _ => testcase
  | .crumb id => { testcase with crumbs := testcase.crumbs ++ [id] }
  | .target id => { testcase with targetId := id }
  | .targetEntry => { testcase with targetEntered := true }
  | .handler exceptionName exceptionMessage handlerFile handlerLine lastBreadcrumb targetId
      testcaseId =>
    { testcase with handlers := testcase.handlers ++ [⟨index, exceptionName, exceptionMessage,
        handlerFile, handlerLine, lastBreadcrumb, targetId, testcaseId⟩] }
  | .raise exceptionName file line breadcrumb =>
    { testcase with
      raises := testcase.raises ++ [⟨index, exceptionName, file, line, breadcrumb⟩] }
  | .mock symbol => { testcase with mocks := testcase.mocks ++ [⟨symbol⟩] }
  | .topLevel exceptionName exceptionMessage =>
    { testcase with topLevel := some ⟨exceptionName, exceptionMessage⟩ }

namespace Grouping

def step (state : Grouping) (event : Event) : Grouping :=
  let next := { state with sequenceIndex := state.sequenceIndex + 1 }
  match event with
  | .begin testcaseId =>
    { next with
      testcases := state.testcases ++ state.current.toList
      current := some { testcaseId } }
  | .ended resultClass =>
    match state.current with
    | none => next
    | some testcase =>
      { next with
        testcases := state.testcases ++ [{ testcase with ended := some ⟨resultClass⟩ }]
        current := none }
  | event =>
    { next with current := state.current.map (·.record state.sequenceIndex event) }

/-- What is returned at the end of the stream. -/
def finish (state : Grouping) : List Testcase :=
  state.testcases ++ state.current.toList

end Grouping

def groupEvents (events : List Event) : List Testcase :=
  (events.foldl Grouping.step {}).finish

/-- The first error of the stream is the result. -/
def groupIntoTestcases (stream : Bytes) : Except EventReadError (List Testcase) :=
  (readEvents stream).map groupEvents

/-! ### Windows -/

/-- The events that open or close a test case. -/
def Event.isBoundary : Event → Bool
  | .begin _ | .ended _ => true
  | _ => false

/-- The events, each with its index in the stream, up to the first that opens or closes a test
case. -/
def window (rest : List (Event × ℕ)) : List (Event × ℕ) :=
  rest.takeWhile fun entry ↦ !entry.1.isBoundary

/-- The end of a window that is closed by an `ended`. -/
def closing (rest : List (Event × ℕ)) : Option EndEvent :=
  match rest.dropWhile fun entry ↦ !entry.1.isBoundary with
  | (.ended resultClass, _) :: _ => some ⟨resultClass⟩
  | _ => none

def crumbOf : Event × ℕ → Option UInt32
  | (.crumb id, _) => some id
  | _ => none

def targetOf : Event × ℕ → Option UInt32
  | (.target id, _) => some id
  | _ => none

def handlerOf : Event × ℕ → Option HandlerEvent
  | (.handler exceptionName exceptionMessage handlerFile handlerLine lastBreadcrumb targetId
      testcaseId, index) =>
    some ⟨index, exceptionName, exceptionMessage, handlerFile, handlerLine, lastBreadcrumb,
      targetId, testcaseId⟩
  | _ => none

def raiseOf : Event × ℕ → Option RaiseEvent
  | (.raise exceptionName file line breadcrumb, index) =>
    some ⟨index, exceptionName, file, line, breadcrumb⟩
  | _ => none

def mockOf : Event × ℕ → Option MockEvent
  | (.mock symbol, _) => some ⟨symbol⟩
  | _ => none

def topLevelOf : Event × ℕ → Option TopLevelEvent
  | (.topLevel exceptionName exceptionMessage, _) => some ⟨exceptionName, exceptionMessage⟩
  | _ => none

/-- **The test case of a `begin`**, read off what follows it in the stream. -/
def testcaseOf (testcaseId : UInt64) (rest : List (Event × ℕ)) : Testcase where
  testcaseId := testcaseId
  targetId := ((window rest).filterMap targetOf).getLast?.getD 0
  targetEntered := (window rest).any fun entry ↦ entry.1 == .targetEntry
  crumbs := (window rest).filterMap crumbOf
  handlers := (window rest).filterMap handlerOf
  raises := (window rest).filterMap raiseOf
  topLevel := ((window rest).filterMap topLevelOf).getLast?
  ended := closing rest
  mocks := (window rest).filterMap mockOf

/-- The test case that a suffix of the stream opens. -/
def testcaseAt : List (Event × ℕ) → Option Testcase
  | (.begin testcaseId, _) :: rest => some (testcaseOf testcaseId rest)
  | _ => none

/-! ### The loop and the windows -/

/-- A test case that is already open, at the end of its window. -/
def Testcase.completed (testcase : Testcase) (rest : List (Event × ℕ)) : Testcase where
  testcaseId := testcase.testcaseId
  targetId := ((window rest).filterMap targetOf).getLast?.getD testcase.targetId
  targetEntered := testcase.targetEntered || (window rest).any fun entry ↦ entry.1 == .targetEntry
  crumbs := testcase.crumbs ++ (window rest).filterMap crumbOf
  handlers := testcase.handlers ++ (window rest).filterMap handlerOf
  raises := testcase.raises ++ (window rest).filterMap raiseOf
  topLevel := ((window rest).filterMap topLevelOf).getLast?.or testcase.topLevel
  ended := (closing rest).or testcase.ended
  mocks := testcase.mocks ++ (window rest).filterMap mockOf

theorem completed_new (testcaseId : UInt64) (rest : List (Event × ℕ)) :
    completed { testcaseId } rest = testcaseOf testcaseId rest := by
  simp [completed, testcaseOf]

theorem completed_nil (testcase : Testcase) : testcase.completed [] = testcase := by
  simp [completed, window, closing]

variable {event : Event}

theorem window_boundary (h : event.isBoundary) (index : ℕ)
    (rest : List (Event × ℕ)) : window ((event, index) :: rest) = [] := by
  simp [window, h]

theorem window_cons (h : event.isBoundary = false) (index : ℕ) (rest : List (Event × ℕ)) :
    window ((event, index) :: rest) = (event, index) :: window rest := by
  simp [window, h]

theorem closing_cons (h : event.isBoundary = false) (index : ℕ)
    (rest : List (Event × ℕ)) : closing ((event, index) :: rest) = closing rest := by
  simp [closing, h]

theorem completed_begin (testcase : Testcase) (testcaseId : UInt64) (index : ℕ)
    (rest : List (Event × ℕ)) :
    testcase.completed ((.begin testcaseId, index) :: rest) = testcase := by
  rw [completed, window_boundary rfl]
  simp [Event.isBoundary, closing]

theorem completed_ended (testcase : Testcase) (resultClass : UInt8) (index : ℕ)
    (rest : List (Event × ℕ)) :
    testcase.completed ((.ended resultClass, index) :: rest) =
      { testcase with ended := some ⟨resultClass⟩ } := by
  rw [completed, window_boundary rfl]
  simp [Event.isBoundary, closing]

/-- **What an event adds to the open test case is what it adds to the window.** -/
theorem completed_cons (h : event.isBoundary = false) (testcase : Testcase)
    (index : ℕ) (rest : List (Event × ℕ)) :
    testcase.completed ((event, index) :: rest) = (testcase.record index event).completed rest := by
  rw [completed, completed, window_cons h, closing_cons h]
  have hlast {α : Type} (a b : α) (l : List α) : (a :: l).getLast?.getD b = l.getLast?.getD a := by
    rw [getLast?_cons, getD_some]
  have hor {α : Type} (a : α) (b : Option α) (l : List α) :
      (a :: l).getLast?.or b = l.getLast?.or (some a) := by
    rw [getLast?_cons]
    cases l.getLast? <;> rfl
  cases event with
  | begin | ended => contradiction
  | targetEntry =>
    simp only [record, crumbOf, targetOf, handlerOf, raiseOf, mockOf, topLevelOf,
      filterMap_cons, any_cons, beq_self_eq_true, Bool.true_or, Bool.or_true]
  | _ =>
    simp only [record, targetOf, topLevelOf, filterMap_cons, hlast, hor, append_assoc]
    rfl

theorem testcaseAt_cons (h : event.isBoundary = false) (index : ℕ)
    (rest : List (Event × ℕ)) : testcaseAt ((event, index) :: rest) = none := by
  cases event <;> first | contradiction | rfl

theorem step_of_not_isBoundary (h : event.isBoundary = false) (state : Grouping) :
    state.step event =
      { state with
        sequenceIndex := state.sequenceIndex + 1
        current := state.current.map (·.record state.sequenceIndex event) } := by
  cases event <;> first | contradiction | rfl

/-- **From any state, the rest of the loop** completes the open test case with its window and adds
those of the windows that follow. -/
theorem finish_foldl_step (events : List Event) (state : Grouping) :
    (events.foldl Grouping.step state).finish =
      state.testcases ++
        (state.current.map (·.completed (events.zipIdx state.sequenceIndex))).toList ++
        (events.zipIdx state.sequenceIndex).tails.filterMap testcaseAt := by
  induction events generalizing state with
  | nil =>
    rcases state with ⟨testcases, - | testcase, index⟩
    · simp [Grouping.finish, testcaseAt]
    · simp [Grouping.finish, testcaseAt, completed_nil]
  | cons event events ih =>
    rw [foldl_cons, ih, zipIdx_cons, tails, filterMap_cons]
    rcases state with ⟨testcases, current, index⟩
    cases hboundary : event.isBoundary with
    | false =>
      rw [testcaseAt_cons hboundary, step_of_not_isBoundary hboundary, Option.map_map]
      simp only [Function.comp_def, completed_cons hboundary]
    | true =>
      cases event with
      | begin testcaseId =>
        show testcases ++ current.toList ++ [Testcase.completed _ _] ++ _ = _ ++ _ ++ (_ :: _)
        simp only [completed_begin, completed_new, Option.map_id', append_assoc]
        rfl
      | ended resultClass =>
        rcases current with - | testcase
        · rfl
        · simp only [Grouping.step, completed_ended, append_assoc]
          rfl
      | _ => contradiction

/-- **A `begin` seals what is before it.** -/
theorem groupEvents_begin (events more : List Event) (id : UInt64) :
    groupEvents events <+: groupEvents (events ++ .begin id :: more) := by
  rw [groupEvents, groupEvents, foldl_append, foldl_cons, finish_foldl_step more, append_assoc]
  exact prefix_append _ _

/-- **Grouping.** The loop returns the test cases of the windows: one for each `begin`, in order,
with what its window holds; and grouping a stream is grouping the events that are read from it. -/
theorem groupEvents_eq :
    (∀ events : List Event, groupEvents events = events.zipIdx.tails.filterMap testcaseAt) ∧
      ∀ stream, groupIntoTestcases stream =
        (readEvents stream).map fun events ↦ events.zipIdx.tails.filterMap testcaseAt := by
  have hgroup (events : List Event) :
      groupEvents events = events.zipIdx.tails.filterMap testcaseAt := by
    rw [groupEvents, finish_foldl_step]
    rfl
  exact ⟨hgroup, fun stream ↦ congrArg (Except.map · (readEvents stream)) (funext hgroup)⟩

/-- An event before the first window, a window that the next `begin` cuts short, and an event after
the end. -/
example : groupEvents [.crumb 9, .begin 1, .raise "E" "a.adb" 3 7, .begin 2, .target 4, .target 5,
      .ended 0, .mock "m"] =
    [{ testcaseId := 1, raises := [⟨2, "E", "a.adb", 3, 7⟩] },
      { testcaseId := 2, targetId := 5, ended := some ⟨0⟩ }] :=
  rfl

end Bhf.EventLog
