import Bhf.Lib.Spans
import Bhf.Lib.Words
import Bhf.FuzzEngine.Rng

/-!
# Mutating operation sequences

An input may encode a sequence of operations: a layout says where the number of steps stands, which
range each step takes and which bytes of it select the operation. The mutations change a selector,
insert a copy of a step, remove a step or swap two, and keep the count field up to date.

Bounded numbers are written in two ways: a selector byte that is a multiple of four names a boundary
value, and with five bytes to spend any offset from the minimum can be written. Writing one never
changes the length of the input (`length_encodeBoundedRange`), so the length of a mutant is settled
by the ranges alone. The steps that are used are valid for the input and do not overlap
(`pairwise_validSteps`).
-/

namespace Bhf.FuzzEngine

open StateExcept List

/-! ### Layouts -/

structure OperationStepSpan where
  range : Span
  opIndexRange : Span

def OperationStepSpan.validFor (step : OperationStepSpan) (len : ℕ) : Bool :=
  step.range.start < step.range.stop && step.range.stop ≤ len &&
    step.opIndexRange.start < step.opIndexRange.stop &&
    step.range.start ≤ step.opIndexRange.start && step.opIndexRange.stop ≤ step.range.stop

structure OperationSequenceLayout where
  stepCountRange : Option Span
  minSteps : ℕ
  maxSteps : ℕ
  operationCount : ℕ
  steps : List OperationStepSpan

/-- Drop the steps that begin before the last one that was kept ends. -/
def dropOverlaps : ℕ → List OperationStepSpan → List OperationStepSpan
  | _, [] => []
  | previousEnd, step :: steps =>
    if step.range.start < previousEnd then dropOverlaps previousEnd steps
    else step :: dropOverlaps step.range.stop steps

/-- The steps that can be used in an input of a length, in order. -/
def OperationSequenceLayout.validSteps (layout : OperationSequenceLayout) (len : ℕ) :
    List OperationStepSpan :=
  dropOverlaps 0 ((layout.steps.filter (·.validFor len)).mergeSort fun a b ↦
    a.range.start < b.range.start ||
      (a.range.start = b.range.start && a.range.stop ≤ b.range.stop))

variable {step : OperationStepSpan} {steps : List OperationStepSpan} {n len : ℕ}
  {layout : OperationSequenceLayout}

theorem mem_of_mem_dropOverlaps (h : step ∈ dropOverlaps n steps) : step ∈ steps := by
  induction steps generalizing n with
  | nil => simp [dropOverlaps] at h
  | cons s steps ih =>
    rw [dropOverlaps] at h
    split at h
    · exact mem_cons_of_mem _ (ih h)
    · rcases mem_cons.1 h with rfl | h
      · exact mem_cons_self
      · exact mem_cons_of_mem _ (ih h)

theorem pairwise_dropOverlaps (hsteps : ∀ s ∈ steps, s.range.start < s.range.stop) :
    (∀ s ∈ dropOverlaps n steps, n ≤ s.range.start) ∧
      (dropOverlaps n steps).Pairwise fun a b ↦ a.range.stop ≤ b.range.start := by
  induction steps generalizing n with
  | nil => simp [dropOverlaps]
  | cons s steps ih =>
    obtain ⟨hs, hsteps⟩ := forall_mem_cons.1 hsteps
    rw [dropOverlaps]
    split
    · exact ih hsteps
    · next hstart =>
      obtain ⟨hlater, hpairwise⟩ := ih (n := s.range.stop) hsteps
      refine ⟨forall_mem_cons.2 ⟨not_lt.1 hstart, fun t ht ↦ ?_⟩,
        pairwise_cons.2 ⟨hlater, hpairwise⟩⟩
      -- `s` is not empty, so what follows it also starts behind `n`
      have := hlater t ht
      omega

theorem validFor_of_mem_validSteps (h : step ∈ layout.validSteps len) : step.validFor len := by
  have hmem := mem_of_mem_dropOverlaps h
  rw [mem_mergeSort] at hmem
  exact (mem_filter.1 hmem).2

theorem OperationStepSpan.bounds_of_validFor (h : step.validFor len) :
    step.range.start < step.range.stop ∧ step.range.stop ≤ len := by
  simp only [validFor, Bool.and_eq_true, decide_eq_true_iff] at h
  exact ⟨h.1.1.1.1, h.1.1.1.2⟩

theorem fitsIn_of_mem_validSteps (h : step ∈ layout.validSteps len) : step.range.FitsIn len := by
  obtain ⟨hstart, hstop⟩ := OperationStepSpan.bounds_of_validFor (validFor_of_mem_validSteps h)
  exact ⟨le_of_lt hstart, hstop⟩

theorem pairwise_validSteps (layout : OperationSequenceLayout) (len : ℕ) :
    (layout.validSteps len).Pairwise fun a b ↦ a.range.stop ≤ b.range.start := by
  refine (pairwise_dropOverlaps fun s hs ↦ ?_).2
  rw [mem_mergeSort] at hs
  exact (OperationStepSpan.bounds_of_validFor (mem_filter.1 hs).2).1

/-! ### Bounded numbers -/

/-- The value that a selector byte names. -/
def selectorBoundedValue (selector min max : ℕ) : ℕ :=
  let raw :=
    match selector % 6 with
    | 0 => min
    | 1 => if min = usizeMax then usizeMax else min + 1
    | 2 => max - 1
    | 3 => max
    | 4 => 0
    | _ => usizeMax
  clamp raw min max

def oneByteSelectorForValue (min max value : ℕ) : Option UInt8 :=
  ((List.range 256).find? fun selector ↦
    selector % 4 = 0 && selectorBoundedValue selector min max = value).map UInt8.ofNat

def decodeBoundedRange (bytes : Bytes) (range : Span) (min max : ℕ) : Option ℕ :=
  if max < min || range.stop ≤ range.start || bytes.length < range.stop then none
  else if max ≤ min then some min
  else do
    let selector ← bytes[range.start]?
    if selector.toNat % 4 = 0 then some (selectorBoundedValue selector.toNat min max)
    else if range.len < 5 then none
    else
      let raw := leValue (Span.slice ⟨range.start + 1, range.start + 5⟩ bytes)
      some (min + raw % (max - min + 1))

def encodeBoundedRange (bytes : Bytes) (range : Span) (min max value : ℕ) : Option Bytes :=
  if value < min || max < value || range.stop ≤ range.start || bytes.length < range.stop then none
  else if 5 ≤ range.len then
    some (Span.overwrite ⟨range.start, range.start + 5⟩ bytes (1 :: leBytes 4 (value - min)))
  else do
    let selector ← oneByteSelectorForValue min max value
    some (bytes.set range.start selector)

def canEncodeBoundedRange (range : Span) (min max value : ℕ) : Bool :=
  min ≤ value && value ≤ max && range.start < range.stop &&
    (5 ≤ range.len || (oneByteSelectorForValue min max value).isSome)

theorem length_encodeBoundedRange {bytes out : Bytes} {range : Span} {min max value : ℕ}
    (h : encodeBoundedRange bytes range min max value = some out) : out.length = bytes.length := by
  rw [encodeBoundedRange] at h
  split at h
  · simp at h
  next hrange =>
  split at h
  · next hlen =>
    obtain ⟨⟩ := h
    refine Span.length_overwrite ⟨by simp only; omega, ?_⟩ ?_
    · simp only [Bool.or_eq_true, decide_eq_true_iff] at hrange
      rw [Span.len] at hlen
      simp only
      omega
    · simp [Span.len]
  · obtain ⟨selector, -, hset⟩ := Option.bind_eq_some_iff.1 h
    obtain ⟨⟩ := hset
    exact length_set ..

/-! ### Mutations -/

variable (bytes : Bytes) (layout : OperationSequenceLayout)

/-- The operations that a step could select instead. -/
def alternativeOpIndices
    (step : OperationStepSpan) : List ℕ :=
  let max := layout.operationCount - 1
  let current := decodeBoundedRange bytes step.opIndexRange 0 max
  (List.range layout.operationCount).filter fun opIndex ↦
    some opIndex ≠ current && canEncodeBoundedRange step.opIndexRange 0 max opIndex

def decodedStepCount (layout : OperationSequenceLayout) (bytes : Bytes) : Option ℕ := do
  let range ← layout.stepCountRange
  decodeBoundedRange bytes range layout.minSteps layout.maxSteps

def countFieldPrecedesSteps (layout : OperationSequenceLayout) (steps : List OperationStepSpan) :
    Bool :=
  match layout.stepCountRange with
  | none => false
  | some range =>
    range.start < range.stop && layout.minSteps ≤ layout.maxSteps &&
      steps.all fun step ↦ range.stop ≤ step.range.start

def changeOperationSelector : Gen Bytes := do
  let steps := (layout.validSteps bytes.length).filter fun step ↦
    !(alternativeOpIndices bytes layout step).isEmpty
  let step ← orGiveUp steps[← chooseIndex steps.length]?
  let alternatives := alternativeOpIndices bytes layout step
  let opIndex ← orGiveUp alternatives[← chooseIndex alternatives.length]?
  orGiveUp (encodeBoundedRange bytes step.opIndexRange 0 (layout.operationCount - 1) opIndex)

def insertOperationStep (maxLen : ℕ) : Gen Bytes := do
  let steps := (layout.validSteps bytes.length).filter fun step ↦
    bytes.length + step.range.len ≤ maxLen
  let count ← orGiveUp (decodedStepCount layout bytes)
  giveUpIf (layout.maxSteps ≤ count || steps.isEmpty || !countFieldPrecedesSteps layout steps)
  let source ← orGiveUp steps[← chooseIndex steps.length]?
  let insertSlot ← chooseIndex (steps.length + 1)
  let insertAt ← orGiveUp (
    if insertSlot = steps.length then steps.getLast?.map (·.range.stop)
    else steps[insertSlot]?.map (·.range.start))
  let output := bytes.take insertAt ++ source.range.slice bytes ++ bytes.drop insertAt
  let range ← orGiveUp layout.stepCountRange
  orGiveUp (encodeBoundedRange output range layout.minSteps layout.maxSteps (count + 1))

def removeOperationStep : Gen Bytes := do
  let steps := layout.validSteps bytes.length
  let count ← orGiveUp (decodedStepCount layout bytes)
  giveUpIf (count ≤ layout.minSteps || steps.isEmpty || !countFieldPrecedesSteps layout steps)
  let step ← orGiveUp steps[← chooseIndex steps.length]?
  let output := step.range.overwrite bytes []
  let range ← orGiveUp layout.stepCountRange
  orGiveUp (encodeBoundedRange output range layout.minSteps layout.maxSteps (count - 1))

/-- Two ranges exchanged, the left one first. -/
def swapRanges (bytes : Bytes) (left right : Span) : Bytes :=
  bytes.take left.start ++ right.slice bytes ++ Span.slice ⟨left.stop, right.start⟩ bytes ++
    left.slice bytes ++ bytes.drop right.stop

def swapOperationSteps : Gen Bytes := do
  let steps := layout.validSteps bytes.length
  giveUpIf (steps.length < 2)
  let leftIndex ← chooseIndex steps.length
  let chosen ← chooseIndex (steps.length - 1)
  let rightIndex := if leftIndex ≤ chosen then chosen + 1 else chosen
  let left ← orGiveUp steps[min leftIndex rightIndex]?
  let right ← orGiveUp steps[max leftIndex rightIndex]?
  return swapRanges bytes left.range right.range

inductive OperationSequenceAction
  | changeOp
  | insert
  | remove
  | swap

def operationSequenceActions (maxLen : ℕ) (bytes : Bytes) (layout : OperationSequenceLayout) :
    List OperationSequenceAction :=
  let steps := layout.validSteps bytes.length
  let changeOp :=
    1 < layout.operationCount &&
      steps.any fun step ↦ !(alternativeOpIndices bytes layout step).isEmpty
  let encodable (count : ℕ) : Bool :=
    layout.stepCountRange.any fun range ↦
      canEncodeBoundedRange range layout.minSteps layout.maxSteps count
  let count := if countFieldPrecedesSteps layout steps then decodedStepCount layout bytes else none
  let insert := count.any fun count ↦
    count < layout.maxSteps && !steps.isEmpty &&
      (steps.any fun step ↦ bytes.length + step.range.len ≤ maxLen) && encodable (count + 1)
  let remove := count.any fun count ↦
    layout.minSteps < count && !steps.isEmpty && encodable (count - 1)
  (if changeOp then [.changeOp] else []) ++ (if insert then [.insert] else []) ++
    (if remove then [.remove] else []) ++ if 2 ≤ steps.length then [.swap] else []

def applyAction (maxLen : ℕ) (bytes : Bytes) (layout : OperationSequenceLayout) :
    OperationSequenceAction → Gen Bytes
  | .changeOp => changeOperationSelector bytes layout
  | .insert => insertOperationStep bytes layout maxLen
  | .remove => removeOperationStep bytes layout
  | .swap => swapOperationSteps bytes layout

def operationSequence (maxLen : ℕ) (bytes : Bytes) (layout : OperationSequenceLayout) : Gen Bytes :=
  tryInRandomOrder (fun action ↦ do
    match ← attempt (applyAction maxLen bytes layout action) with
    | none => return none
    | some result => return if result = bytes then none else some result)
    (operationSequenceActions maxLen bytes layout)

/-! ### Mutants stay within the length limit -/

variable {maxLen : ℕ} {bytes : Bytes} {layout : OperationSequenceLayout}

theorem yields_changeOperationSelector (hbytes : bytes.length ≤ maxLen) :
    Yields (changeOperationSelector bytes layout) fun out ↦ out.length ≤ maxLen := by
  refine yields_bind fun _ ↦ yields_bind fun step ↦ yields_bind fun _ ↦ yields_bind fun opIndex ↦ ?_
  refine yields_ofOption fun out hout ↦ ?_
  rw [length_encodeBoundedRange hout]
  exact hbytes

theorem yields_insertOperationStep :
    Yields (insertOperationStep bytes layout maxLen) fun out ↦ out.length ≤ maxLen := by
  refine yields_bind fun count ↦ yields_bind fun _ ↦ yields_bind fun _ ↦ ?_
  refine (yields_ofOption fun _ ↦ mem_of_getElem?).bind fun source hsource ↦ ?_
  refine yields_bind fun insertSlot ↦ yields_bind fun insertAt ↦ yields_bind fun range ↦ ?_
  refine yields_ofOption fun out hout ↦ ?_
  obtain ⟨hvalid, hroom⟩ := mem_filter.1 hsource
  rw [decide_eq_true_iff] at hroom
  rw [length_encodeBoundedRange hout]
  simp only [length_append, Span.length_slice (fitsIn_of_mem_validSteps hvalid),
    length_take, length_drop]
  omega

theorem yields_removeOperationStep (hbytes : bytes.length ≤ maxLen) :
    Yields (removeOperationStep bytes layout) fun out ↦ out.length ≤ maxLen := by
  refine yields_bind fun count ↦ yields_bind fun _ ↦ yields_bind fun _ ↦ ?_
  refine (yields_ofOption fun _ ↦ mem_of_getElem?).bind fun step hstep ↦ ?_
  refine yields_bind fun range ↦ yields_ofOption fun out hout ↦ ?_
  have hlen : _ + _ = bytes.length + ([] : Bytes).length :=
    Span.length_overwrite_add (fitsIn_of_mem_validSteps hstep)
  rw [length_encodeBoundedRange hout]
  rw [length_nil] at hlen
  omega

theorem yields_swapOperationSteps (hbytes : bytes.length ≤ maxLen) :
    Yields (swapOperationSteps bytes layout) fun out ↦ out.length ≤ maxLen := by
  refine yields_bind fun _ ↦ yields_bind fun leftIndex ↦ yields_bind fun chosen ↦ ?_
  refine (yields_ofOption fun _ h ↦ h).bind fun left hleft ↦ ?_
  refine (yields_ofOption fun _ h ↦ h).bind fun right hright ↦ yields_pure ?_
  -- the second draw skips the first index, so the two are different
  have hlt : min leftIndex (if leftIndex ≤ chosen then chosen + 1 else chosen) <
      max leftIndex (if leftIndex ≤ chosen then chosen + 1 else chosen) := by
    split <;> omega
  obtain ⟨hi, rfl⟩ := List.getElem?_eq_some_iff.1 hleft
  obtain ⟨hj, rfl⟩ := List.getElem?_eq_some_iff.1 hright
  have hbetween :=
    pairwise_iff_getElem.1 (pairwise_validSteps layout bytes.length) _ _ hi hj hlt
  have hfirst := (fitsIn_of_mem_validSteps (getElem_mem hi)).start_le
  obtain ⟨hstart, hstop⟩ := fitsIn_of_mem_validSteps (getElem_mem hj)
  simp only [swapRanges, Span.slice, length_append, length_take, length_drop]
  omega

theorem yields_operationSequence (hbytes : bytes.length ≤ maxLen) :
    Yields (operationSequence maxLen bytes layout) fun out ↦ out.length ≤ maxLen := by
  refine yields_tryInRandomOrder fun action _ ↦ ?_
  have haction : Yields (applyAction maxLen bytes layout action) fun out ↦ out.length ≤ maxLen := by
    cases action with
    | changeOp => exact yields_changeOperationSelector hbytes
    | insert => exact yields_insertOperationStep
    | remove => exact yields_removeOperationStep hbytes
    | swap => exact yields_swapOperationSteps hbytes
  refine haction.attempt.bind fun o ho ↦ ?_
  cases o with
  | none => exact yields_pure (by simp)
  | some result =>
    refine yields_pure fun out hout ↦ ?_
    split at hout
    · simp at hout
    · exact ho out hout

end Bhf.FuzzEngine
