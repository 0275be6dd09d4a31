import Bhf.FuzzEngine.Typed
import Bhf.Lib.Slots

/-!
# Minimising typed values

`minimizeTypedValues` goes over the typed spans of an input from left to right and writes into each
the first candidate of its kind, other than the bytes that are there, for which the predicate still
holds. Candidates may be shorter or longer than the span, so the loop carries the offset by which
the rest of the input has moved.

The spans it goes over cut the input into slots (`slotsOf`), and **the loop is a pass over these
slots** (`minimizeTypedValues_eq`): between the spans the input has not changed, and the offset is
what the length of the part before has changed by.

Counters and positions are natural numbers; the source's saturate at the largest `usize`, which no
number of spans reaches.
-/

namespace Bhf.ReplayMin

open FuzzEngine Slots List Bhf.Span

variable {ε : Type}

structure TypedValueMinimization where
  originalLen : ℕ
  minimized : Bytes
  attemptedReplacements : ℕ
  acceptedReplacements : ℕ

/-! ### Selecting spans -/

/-- Order by start, then by end. -/
def TypedSpan.keyLe (a b : TypedSpan) : Bool :=
  a.range.start < b.range.start ||
    (a.range.start = b.range.start && a.range.stop ≤ b.range.stop)

/-- Drop every span that starts before the end of the last one kept. -/
def dropOverlapping : ℕ → List TypedSpan → List TypedSpan
  | _, [] => []
  | previousEnd, span :: spans =>
    if span.range.start < previousEnd then dropOverlapping previousEnd spans
    else span :: dropOverlapping span.range.stop spans

def sortedNonOverlappingSpans (typedSpans : List TypedSpan) (inputLen : ℕ) : List TypedSpan :=
  dropOverlapping 0 ((typedSpans.filter (·.validFor inputLen)).mergeSort TypedSpan.keyLe)

/-! ### The loop -/

section Loop

variable (host : TargetAbi) (predicate : Bytes → Except ε Bool)

def typedMinimizerCandidates (kind : TypedValueKind) : List Bytes :=
  typedCandidatesForAbi kind ⟨[], []⟩ host

def checkedAddSigned (n : ℕ) (offset : ℤ) : Option ℕ :=
  if 0 ≤ n + offset then some (n + offset).toNat else none

def adjustedRange (range : Span) (offset : ℤ) (len : ℕ) : Option Span := do
  let start ← checkedAddSigned range.start offset
  let stop ← checkedAddSigned range.stop offset
  if start < stop && stop ≤ len then some ⟨start, stop⟩ else none

def replaceRange (input : Bytes) (range : Span) (replacement : Bytes) : Bytes :=
  range.overwrite input replacement

/-- The variables of the loop. -/
structure State where
  current : Bytes
  offset : ℤ
  attemptedReplacements : ℕ
  acceptedReplacements : ℕ

/-- The inner loop: the replacement that was accepted, and the replacements attempted. -/
def tryReplacements (current : Bytes) (range : Span) (currentValue : Bytes) :
    List Bytes → ℕ → Except ε (Option Bytes × ℕ)
  | [], attempted => .ok (none, attempted)
  | replacement :: replacements, attempted =>
    if replacement = currentValue then
      tryReplacements current range currentValue replacements attempted
    else do
      if ← predicate (replaceRange current range replacement) then
        return (some replacement, attempted + 1)
      else
        tryReplacements current range currentValue replacements (attempted + 1)

def minimizeSpan (s : State) (span : TypedSpan) : Except ε State :=
  match adjustedRange span.range s.offset s.current.length with
  | none => .ok s
  | some range => do
    let currentValue := range.slice s.current
    let (found, attempted) ← tryReplacements predicate s.current range currentValue
      (typedMinimizerCandidates host span.kind) s.attemptedReplacements
    match found with
    | none => return { s with attemptedReplacements := attempted }
    | some replacement =>
      return {
        current := replaceRange s.current range replacement
        offset := s.offset + ((replacement.length : ℤ) - range.len)
        attemptedReplacements := attempted
        acceptedReplacements := s.acceptedReplacements + 1 }

def minimizeTypedValues (input : Bytes) (typedSpans : List TypedSpan) :
    Except ε TypedValueMinimization := do
  let spans := sortedNonOverlappingSpans typedSpans input.length
  let s ← spans.foldlM (minimizeSpan host predicate) ⟨input, 0, 0, 0⟩
  return ⟨input.length, s.current, s.attemptedReplacements, s.acceptedReplacements⟩

end Loop

/-! ### The spans the loop goes over -/

/-- Spans of an input of this length, one behind the other from a position on. -/
def Consecutive (len : ℕ) : ℕ → List TypedSpan → Prop
  | pos, [] => pos ≤ len
  | pos, span :: spans =>
    pos ≤ span.range.start ∧ span.range.start < span.range.stop ∧ span.range.stop ≤ len ∧
      Consecutive len span.range.stop spans

variable {len pos : ℕ} {spans : List TypedSpan}

theorem consecutive_dropOverlapping (h : ∀ span ∈ spans, span.validFor len) (hpos : pos ≤ len) :
    Consecutive len pos (dropOverlapping pos spans) := by
  induction spans generalizing pos with
  | nil => exact hpos
  | cons span spans ih =>
    obtain ⟨hspan, hspans⟩ := forall_mem_cons.1 h
    rw [dropOverlapping]
    split
    · exact ih hspans hpos
    · next hstart =>
      obtain ⟨hlt, hle⟩ : span.range.start < span.range.stop ∧ span.range.stop ≤ len := by
        simpa [TypedSpan.validFor] using hspan
      exact ⟨Nat.le_of_not_lt hstart, hlt, hle, ih hspans hle⟩

theorem dropOverlapping_sublist (pos : ℕ) (spans : List TypedSpan) :
    dropOverlapping pos spans <+ spans := by
  induction spans generalizing pos with
  | nil => exact .slnil
  | cons span spans ih =>
    rw [dropOverlapping]
    split
    · exact (ih pos).cons span
    · exact (ih _).cons_cons span

/-- **The selected spans stand one behind the other.** -/
theorem consecutive_sortedNonOverlappingSpans (typedSpans : List TypedSpan) (len : ℕ) :
    Consecutive len 0 (sortedNonOverlappingSpans typedSpans len) := by
  exact consecutive_dropOverlapping (fun span hspan ↦ (mem_filter.1 (mem_mergeSort.1 hspan)).2)
    len.zero_le

variable {span : TypedSpan}

theorem sortedNonOverlappingSpans_singleton (h : span.validFor len) :
    sortedNonOverlappingSpans [span] len = [span] := by
  simp [sortedNonOverlappingSpans, h, dropOverlapping]

/-! ### Slots -/

section Slots

variable (host : TargetAbi) (input : Bytes)

/-- The slots that the spans behind a position cut out of the input. -/
def slotsOf : ℕ → List TypedSpan → List (Slot UInt8)
  | _, [] => []
  | pos, span :: spans =>
    { gap := (⟨pos, span.range.start⟩ : Span).slice input
      value := span.range.slice input
      candidates := typedMinimizerCandidates host span.kind } :: slotsOf span.range.stop spans

/-- What is left of the input behind the last span. -/
def tailOf : ℕ → List TypedSpan → Bytes
  | pos, [] => input.drop pos
  | _, span :: spans => tailOf span.range.stop spans

theorem length_slotsOf (pos : ℕ) (spans : List TypedSpan) :
    (slotsOf host input pos spans).length = spans.length := by
  induction spans generalizing pos with
  | nil => rfl
  | cons span spans ih => exact congrArg (· + 1) (ih _)

variable {input}

/-- **Slots and the rest make up the input.** -/
theorem join_slotsOf {pos : ℕ} {spans : List TypedSpan} (h : Consecutive input.length pos spans) :
    join (slotsOf host input pos spans) (tailOf input pos spans) = input.drop pos := by
  induction spans generalizing pos with
  | nil => rfl
  | cons span spans ih =>
    obtain ⟨hpos, hlt, hstop, hrest⟩ := h
    show (⟨pos, span.range.start⟩ : Span).slice input ++ (span.range.slice input ++
      join (slotsOf host input span.range.stop spans) (tailOf input span.range.stop spans)) = _
    rw [ih hrest, slice_append_drop hlt.le input hstop, slice_append_drop hpos input (by omega)]

end Slots

/-! ### The loop is a pass over the slots -/

section Pass

variable (host : TargetAbi) (accepts : Bytes → Bool) {input : Bytes}

/-- The loop has gone over the input up to a position and has put `done` for it. -/
structure At (s : State) (input done : Bytes) (pos : ℕ) : Prop where
  /-- What stands in the buffer. -/
  current : s.current = done ++ input.drop pos
  /-- How much it has grown. -/
  offset : s.offset = done.length - pos
  /-- The position is in the input. -/
  pos_le : pos ≤ input.length

theorem tryReplacements_eq (current : Bytes) (range : Span) (currentValue : Bytes)
    (replacements : List Bytes) (attempted : ℕ) :
    ∃ attempted', tryReplacements (fun candidate ↦ .ok (ε := ε) (accepts candidate)) current range
        currentValue replacements attempted =
      .ok (replacements.find? fun replacement ↦
        replacement ≠ currentValue && accepts (replaceRange current range replacement),
        attempted') := by
  induction replacements generalizing attempted with
  | nil => exact ⟨attempted, rfl⟩
  | cons replacement replacements ih =>
    rw [tryReplacements]
    split
    · next heq =>
      obtain ⟨attempted', htry⟩ := ih attempted
      exact ⟨attempted', by simpa [heq] using htry⟩
    · next hne =>
      rcases haccepts : accepts (replaceRange current range replacement) with - | -
      · obtain ⟨attempted', htry⟩ := ih _
        refine ⟨attempted', ?_⟩
        rw [find?_cons_of_neg (by simp [haccepts])]
        exact htry
      · refine ⟨attempted + 1, ?_⟩
        rw [find?_cons_of_pos (by simp [hne, haccepts])]
        rfl

variable {s : State} {done : Bytes} {pos : ℕ}

theorem replaceRange_append_middle (l mid r replacement : Bytes) :
    replaceRange (l ++ (mid ++ r)) ⟨l.length, l.length + mid.length⟩ replacement =
      l ++ (replacement ++ r) := by
  simp [replaceRange, overwrite, drop_append]

/-- **One span is one slot.** -/
theorem At.minimizeSpan_eq (h : At s input done pos) {span : TypedSpan}
    (hpos : pos ≤ span.range.start) (hlt : span.range.start < span.range.stop)
    (hstop : span.range.stop ≤ input.length) {slot : Slot UInt8} {found : Option Bytes}
    (hslot : slot = ⟨(⟨pos, span.range.start⟩ : Span).slice input, span.range.slice input,
      typedMinimizerCandidates host span.kind⟩)
    (hfound : found = pick accepts done slot (input.drop span.range.stop)) :
    ∃ s', minimizeSpan host (fun candidate ↦ .ok (ε := ε) (accepts candidate)) s span = .ok s' ∧
      At s' input (done ++ (slot.gap ++ found.getD slot.value)) span.range.stop ∧
      s'.acceptedReplacements = s.acceptedReplacements + if found.isSome then 1 else 0 := by
  have hcurrent : s.current = (done ++ slot.gap) ++ (slot.value ++ input.drop span.range.stop) := by
    rw [h.current, append_assoc, hslot, slice_append_drop hlt.le input hstop,
      slice_append_drop hpos input (by omega)]
  have hgap : slot.gap.length = span.range.start - pos := by
    rw [hslot]
    exact length_slice ⟨hpos, hlt.le.trans hstop⟩
  have hvalue : slot.value.length = span.range.stop - span.range.start := by
    rw [hslot]
    exact length_slice ⟨hlt.le, hstop⟩
  have hoffset := h.offset
  generalize hbefore : done ++ slot.gap = before at hcurrent
  have hlen : before.length = done.length + slot.gap.length := by
    rw [← hbefore, length_append]
  have hrange : adjustedRange span.range s.offset s.current.length =
      some ⟨before.length, before.length + slot.value.length⟩ := by
    have hmoved {n : ℕ} (hn : pos ≤ n) :
        checkedAddSigned n s.offset = some (done.length + (n - pos)) := by
      rw [checkedAddSigned, h.offset, if_pos (by omega)]
      congr 1
      omega
    rw [adjustedRange, hmoved hpos, hmoved (hpos.trans hlt.le), h.current, length_append,
      length_drop, hlen, hgap, hvalue]
    refine (if_pos (by simp; omega)).trans ?_
    congr 2
    omega
  obtain ⟨attempted, htry⟩ := tryReplacements_eq (ε := ε) accepts s.current
    ⟨before.length, before.length + slot.value.length⟩ slot.value slot.candidates
    s.attemptedReplacements
  have hpick : (slot.candidates.find? fun replacement ↦ replacement ≠ slot.value &&
      accepts (replaceRange s.current ⟨before.length, before.length + slot.value.length⟩
        replacement)) = found := by
    simp only [hfound, pick, hcurrent, replaceRange_append_middle]
    simp only [← hbefore, append_assoc]
  rw [hpick] at htry
  have hslice : (⟨before.length, before.length + slot.value.length⟩ : Span).slice s.current =
      slot.value := by
    rw [hcurrent, slice_append_middle]
  have hcandidates : typedMinimizerCandidates host span.kind = slot.candidates := by rw [hslot]
  rw [minimizeSpan, hrange]
  dsimp only
  rw [hslice, hcandidates, htry]
  rcases found with - | replacement
  · refine ⟨_, rfl, ⟨?_, ?_, hstop⟩, rfl⟩
    · rw [← append_assoc, hbefore, Option.getD_none, append_assoc]
      exact hcurrent
    · rw [← append_assoc, hbefore, length_append, Option.getD_none]
      show s.offset = _
      omega
  · refine ⟨_, rfl, ⟨?_, ?_, hstop⟩, rfl⟩
    · show replaceRange s.current _ replacement = _
      rw [hcurrent, replaceRange_append_middle, ← append_assoc done, hbefore,
        Option.getD_some, append_assoc]
    · rw [← append_assoc, hbefore, length_append, Option.getD_some]
      show s.offset + ((replacement.length : ℤ) -
        ((before.length + slot.value.length - before.length : ℕ) : ℤ)) = _
      omega

/-- **The rest of the loop is a pass over the rest of the slots.** -/
theorem At.foldlM_eq {spans : List TypedSpan} :
    ∀ {s : State} {done : Bytes} {pos : ℕ}, At s input done pos →
      Consecutive input.length pos spans →
      ∃ s', spans.foldlM (minimizeSpan host
          fun candidate ↦ .ok (ε := ε) (accepts candidate)) s = .ok s' ∧
        s'.current = done ++ join
          (fill (slotsOf host input pos spans)
            (picks accepts done (slotsOf host input pos spans) (tailOf input pos spans)))
          (tailOf input pos spans) ∧
        s'.acceptedReplacements = s.acceptedReplacements +
          (picks accepts done (slotsOf host input pos spans) (tailOf input pos spans)).countP
            Option.isSome := by
  induction spans with
  | nil => exact fun {s} _ _ h _ ↦ ⟨s, rfl, h.current, rfl⟩
  | cons span spans ih =>
    intro s done pos h hspans
    obtain ⟨hpos, hlt, hstop, hrest⟩ := hspans
    obtain ⟨s₁, hstep, hat, haccepted⟩ := h.minimizeSpan_eq (ε := ε) host accepts
      hpos hlt hstop rfl rfl
    obtain ⟨s', hfold, hcurrent, haccepted'⟩ := ih hat hrest
    rw [← join_slotsOf host hrest] at hcurrent haccepted' haccepted
    refine ⟨s', ?_, ?_, ?_⟩
    · rw [foldlM_cons, hstep]
      exact hfold
    · rw [hcurrent]
      simp [slotsOf, tailOf, picks, fill, join, Slot.put]
    · rw [haccepted', haccepted, slotsOf, tailOf, picks, countP_cons]
      omega

/-- The spans the loop goes over. -/
abbrev selected (input : Bytes) (typedSpans : List TypedSpan) : List TypedSpan :=
  sortedNonOverlappingSpans typedSpans input.length

/-- What the pass over the spans of an input picks. -/
def picksOf (host : TargetAbi) (accepts : Bytes → Bool) (input : Bytes)
    (spans : List TypedSpan) : List (Option Bytes) :=
  picks accepts [] (slotsOf host input 0 spans) (tailOf input 0 spans)

/-- **The loop is a pass over the slots of the selected spans.** -/
theorem minimizeTypedValues_eq (input : Bytes) (typedSpans : List TypedSpan) :
    ∃ result, minimizeTypedValues host (fun candidate ↦ .ok (ε := ε) (accepts candidate)) input
        typedSpans = .ok result ∧
      result.minimized = join
        (fill (slotsOf host input 0 (selected input typedSpans))
          (picksOf host accepts input (selected input typedSpans)))
        (tailOf input 0 (selected input typedSpans)) ∧
      result.acceptedReplacements =
        (picksOf host accepts input (selected input typedSpans)).countP Option.isSome := by
  have hstart : At ⟨input, 0, 0, 0⟩ input [] 0 := ⟨rfl, rfl, input.length.zero_le⟩
  obtain ⟨s, hfold, hcurrent, haccepted⟩ := hstart.foldlM_eq (ε := ε) host accepts
    (consecutive_sortedNonOverlappingSpans typedSpans input.length)
  refine ⟨⟨input.length, s.current, s.attemptedReplacements, s.acceptedReplacements⟩, ?_,
    hcurrent, haccepted.trans (zero_add _)⟩
  rw [minimizeTypedValues, hfold]
  rfl

end Pass

/-! ### Only the spans are edited -/

/-- The input with some of the spans behind a position replaced: what stands between and behind the
spans is copied. -/
def rewriteSpans (input : Bytes) : ℕ → List (TypedSpan × Option Bytes) → Bytes
  | pos, [] => input.drop pos
  | pos, (span, choice) :: choices =>
    (⟨pos, span.range.start⟩ : Span).slice input ++
      (choice.getD (span.range.slice input) ++ rewriteSpans input span.range.stop choices)

variable {choices : List (Option Bytes)}

theorem join_fill_slotsOf (host : TargetAbi) (input : Bytes)
    (h : choices.length = spans.length) (pos : ℕ) :
    join (fill (slotsOf host input pos spans) choices) (tailOf input pos spans) =
      rewriteSpans input pos (spans.zip choices) := by
  induction spans generalizing choices pos with
  | nil => rfl
  | cons span spans ih =>
    rcases choices with - | ⟨choice, choices⟩
    · contradiction
    show _ ++ (choice.getD _ ++ _) = _
    rw [show (span :: spans).zip (choice :: choices) =
      (span, choice) :: spans.zip choices from rfl, rewriteSpans,
      ← ih (Nat.succ.inj h) span.range.stop]
    rfl

/-- Only candidates are picked, and only such as change the span. -/
theorem forall₂_picksOf (host : TargetAbi) (accepts : Bytes → Bool) (input : Bytes)
    (spans : List TypedSpan) :
    List.Forall₂ (fun span choice ↦ ∀ replacement ∈ choice,
      replacement ∈ typedMinimizerCandidates host span.kind ∧
        replacement ≠ span.range.slice input) spans (picksOf host accepts input spans) := by
  have h : List.Forall₂ _ (slotsOf host input 0 spans) (picksOf host accepts input spans) :=
    forall₂_picks _ _ _
  generalize picksOf host accepts input spans = choices at h ⊢
  generalize 0 = pos at h
  induction spans generalizing choices pos with
  | nil =>
    rcases h with ⟨⟩
    exact .nil
  | cons span spans ih =>
    rcases h with - | ⟨hhead, htail⟩
    exact .cons hhead (ih _ _ htail)

/-- **The result keeps the predicate and is the input with some of the selected spans replaced by
candidates of their kind**, as many as replacements were accepted. -/
theorem minimizeTypedValues_edits_spans (ε : Type) (host : TargetAbi) (input : Bytes)
    (typedSpans : List TypedSpan) (p : Bytes → Bool) (hinput : p input) :
    ∃ result, minimizeTypedValues host (fun candidate ↦ .ok (ε := ε) (p candidate)) input
        typedSpans = .ok result ∧
      p result.minimized ∧
      ∃ choices : List (Option Bytes),
        List.Forall₂ (fun span choice ↦ ∀ replacement ∈ choice,
          replacement ∈ typedMinimizerCandidates host span.kind ∧
            replacement ≠ span.range.slice input)
          (sortedNonOverlappingSpans typedSpans input.length) choices ∧
        result.minimized = rewriteSpans input 0
          ((sortedNonOverlappingSpans typedSpans input.length).zip choices) ∧
        result.acceptedReplacements = choices.countP Option.isSome := by
  obtain ⟨result, hresult, hminimized, haccepted⟩ :=
    minimizeTypedValues_eq (ε := ε) host p input typedSpans
  have hspans := consecutive_sortedNonOverlappingSpans typedSpans input.length
  have hjoin := join_slotsOf host hspans
  refine ⟨result, hresult, ?_, picksOf host p input _, ?_, ?_, haccepted⟩
  · rw [hminimized]
    refine accepts_join_fill [] ?_
    rw [nil_append, hjoin]
    exact hinput
  · exact forall₂_picksOf host p input _
  · rw [hminimized, join_fill_slotsOf]
    rw [picksOf, length_picks, length_slotsOf]

/-- A boolean and four bytes of text, of which the last must stay what it is. -/
theorem minimizeTypedValues_edits_spans_two_spans :
    ∃ result, minimizeTypedValues ⟨.little⟩ (fun candidate ↦ .ok (ε := Unit)
        (candidate.getLast? = some 9)) [7, 65, 65, 9] [⟨⟨1, 3⟩, .string⟩, ⟨⟨0, 1⟩, .boolean⟩] =
          .ok result ∧
      decide (result.minimized.getLast? = some 9) ∧
      ∃ choices : List (Option Bytes),
        List.Forall₂ (fun span choice ↦ ∀ replacement ∈ choice,
          replacement ∈ typedMinimizerCandidates ⟨.little⟩ span.kind ∧
            replacement ≠ span.range.slice [7, 65, 65, 9])
          (sortedNonOverlappingSpans [⟨⟨1, 3⟩, .string⟩, ⟨⟨0, 1⟩, .boolean⟩] 4) choices ∧
        result.minimized = rewriteSpans [7, 65, 65, 9] 0
          ((sortedNonOverlappingSpans [⟨⟨1, 3⟩, .string⟩, ⟨⟨0, 1⟩, .boolean⟩] 4).zip choices) ∧
        result.acceptedReplacements = choices.countP Option.isSome :=
  minimizeTypedValues_edits_spans Unit ⟨.little⟩ [7, 65, 65, 9]
    [⟨⟨1, 3⟩, .string⟩, ⟨⟨0, 1⟩, .boolean⟩] (fun candidate ↦ candidate.getLast? = some 9)
    (by decide)

/-! ### A second pass -/

section SecondPass

variable {host : TargetAbi} {input : Bytes}

/-- Values of the same width are cut out again where they were put. -/
theorem slotsOf_fill {spans : List TypedSpan} :
    ∀ {pos : ℕ} (done : Bytes) {choices : List (Option Bytes)},
      Consecutive input.length pos spans → done.length = pos →
      List.Forall₂ (fun span choice ↦ ∀ replacement ∈ choice,
        replacement.length = span.range.len) spans choices →
      ∀ {output : Bytes},
        output = done ++ join (fill (slotsOf host input pos spans) choices)
          (tailOf input pos spans) →
        output.length = input.length ∧
        slotsOf host output pos spans = fill (slotsOf host input pos spans) choices ∧
        tailOf output pos spans = tailOf input pos spans := by
  induction spans with
  | nil =>
    rintro pos done choices hpos hdone ⟨⟩ output rfl
    have hlen : pos ≤ input.length := hpos
    refine ⟨?_, rfl, ?_⟩
    · show (done ++ input.drop pos).length = _
      rw [length_append, length_drop]
      omega
    · show (done ++ input.drop pos).drop pos = input.drop pos
      rw [← hdone, drop_left]
  | cons span spans ih =>
    intro pos done choices hspans hdone hchoices output houtput
    obtain ⟨hpos, hlt, hstop, hrest⟩ := hspans
    rcases hchoices with - | ⟨hchoice, hchoices⟩
    next choice choices =>
    have hvalue : (span.range.slice input).length = span.range.len :=
      length_slice ⟨hlt.le, hstop⟩
    have hgap : ((⟨pos, span.range.start⟩ : Span).slice input).length = span.range.start - pos :=
      length_slice ⟨hpos, hlt.le.trans hstop⟩
    have hput : (choice.getD (span.range.slice input)).length = span.range.len := by
      rcases choice with - | replacement
      · exact hvalue
      · exact hchoice replacement rfl
    have hlen : span.range.len = span.range.stop - span.range.start := rfl
    -- The slot at the head, as the output holds it.
    have hhead : output = done ++ ((⟨pos, span.range.start⟩ : Span).slice input ++
        (choice.getD (span.range.slice input) ++
          join (fill (slotsOf host input span.range.stop spans) choices)
            (tailOf input span.range.stop spans))) := houtput
    have hgap' : (⟨pos, span.range.start⟩ : Span).slice output =
        (⟨pos, span.range.start⟩ : Span).slice input :=
      slice_of_eq_append hhead hdone.symm (by show span.range.start = _; omega)
    have hvalue' : span.range.slice output = choice.getD (span.range.slice input) := by
      refine slice_of_eq_append (hhead.trans (append_assoc _ _ _).symm) ?_ ?_
      all_goals
        rw [length_append]
        omega
    obtain ⟨houtlen, hslots, htail⟩ := ih (done ++ ((⟨pos, span.range.start⟩ : Span).slice input ++
        choice.getD (span.range.slice input))) hrest (by simp only [length_append]; omega)
      hchoices (hhead.trans (by simp only [append_assoc]))
    refine ⟨houtlen, ?_, htail⟩
    show (⟨_, _, _⟩ : Slot UInt8) :: slotsOf host output span.range.stop spans = _
    rw [hgap', hvalue', hslots]
    rfl

/-- Minimising these bytes accepts no replacement and returns them. -/
def AcceptsNothing (ε : Type) (host : TargetAbi) (p : Bytes → Bool) (bytes : Bytes)
    (typedSpans : List TypedSpan) : Prop :=
  ∃ result, minimizeTypedValues host (fun candidate ↦ .ok (ε := ε) (p candidate)) bytes
      typedSpans = .ok result ∧ result.acceptedReplacements = 0 ∧ result.minimized = bytes

variable {typedSpans spans : List TypedSpan} {output : Bytes} {p : Bytes → Bool}
  (hwidth : ∀ span ∈ typedSpans, ∀ candidate ∈ typedMinimizerCandidates host span.kind,
    candidate.length = span.range.len)
  (hselected : selected input typedSpans = spans)
  (houtput : output =
    join (fill (slotsOf host input 0 spans) (picksOf host p input spans)) (tailOf input 0 spans))

include hwidth hselected houtput

/-- What a second pass over the result goes over. -/
theorem slotsOf_result :
    selected output typedSpans = spans ∧
    slotsOf host output 0 spans =
      fill (slotsOf host input 0 spans) (picksOf host p input spans) ∧
    tailOf output 0 spans = tailOf input 0 spans := by
  subst hselected
  have hpicks := forall₂_picksOf host p input (selected input typedSpans)
  obtain ⟨hlen, hslots, htail⟩ := slotsOf_fill [] (consecutive_sortedNonOverlappingSpans _ _) rfl
    (forall₂_iff_zip.2 ⟨hpicks.length_eq, fun hmem replacement hreplacement ↦ hwidth _
      (mem_filter.1 (mem_mergeSort.1 ((dropOverlapping_sublist _ _).subset (of_mem_zip hmem).1))).1
      _ ((forall₂_iff_zip.1 hpicks).2 hmem replacement hreplacement).1⟩)
    (houtput.trans (nil_append _).symm)
  exact ⟨by rw [selected, hlen], hslots, htail⟩

/-- **A second pass accepts nothing iff the first one leaves settled slots.** -/
theorem acceptsNothing_iff :
    AcceptsNothing ε host p output typedSpans ↔
      Settled p [] (fill (slotsOf host input 0 spans) (picksOf host p input spans))
        (tailOf input 0 spans) := by
  obtain ⟨second, hsecond, hminimized, haccepted⟩ :=
    minimizeTypedValues_eq (ε := ε) host p output typedSpans
  obtain ⟨hselected, hslots, htail⟩ := slotsOf_result hwidth hselected houtput
  rw [hselected, picksOf, hslots, htail] at haccepted hminimized
  constructor
  · rintro ⟨result, hresult, hzero, -⟩
    obtain rfl : second = result := Except.ok.inj (hsecond.symm.trans hresult)
    exact countP_picks_eq_zero_iff.1 (haccepted.symm.trans hzero)
  · intro hsettled
    refine ⟨second, hsecond, haccepted.trans (countP_picks_eq_zero_iff.2 hsettled), ?_⟩
    rw [hminimized, picks_eq_none_iff.2 hsettled, fill_none, houtput]

end SecondPass

/-- **When the minimisation is idempotent.** A second minimisation accepts nothing if the candidates
of the spans of the input are steady: at most one of a span keeps the predicate, whatever the spans
before it hold, and none does only after spans behind it have changed. For a single span the
condition is exact: at most one candidate of its kind keeps the predicate. -/
theorem idempotent_of_steady (ε : Type) (host : TargetAbi) (input : Bytes)
    (typedSpans : List TypedSpan)
    (hwidth : ∀ span ∈ typedSpans, ∀ candidate ∈ typedMinimizerCandidates host span.kind,
      candidate.length = span.range.len) (p : Bytes → Bool) :
    ∃ first, minimizeTypedValues host (fun candidate ↦ .ok (ε := ε) (p candidate)) input
        typedSpans = .ok first ∧
      (Steady p [] (slotsOf host input 0 (sortedNonOverlappingSpans typedSpans input.length))
          (tailOf input 0 (sortedNonOverlappingSpans typedSpans input.length)) →
        AcceptsNothing ε host p first.minimized typedSpans) ∧
      ∀ span, sortedNonOverlappingSpans typedSpans input.length = [span] →
        (AcceptsNothing ε host p first.minimized typedSpans ↔
          ∀ a ∈ typedMinimizerCandidates host span.kind,
            ∀ b ∈ typedMinimizerCandidates host span.kind,
              p (replaceRange input span.range a) → p (replaceRange input span.range b) →
                a = b) := by
  obtain ⟨first, hfirst, hminimized, -⟩ :=
    minimizeTypedValues_eq (ε := ε) host p input typedSpans
  have hiff := acceptsNothing_iff (ε := ε) hwidth rfl hminimized
  refine ⟨first, hfirst, fun hsteady ↦ hiff.2 hsteady.settled, fun span hspan ↦ ?_⟩
  rw [hiff, selected, hspan]
  refine settled_single_iff.trans ?_
  simp [tailOf, replaceRange, overwrite, slice]

/-- Two booleans. -/
def twoBooleans : List TypedSpan :=
  [⟨⟨0, 1⟩, .boolean⟩, ⟨⟨1, 2⟩, .boolean⟩]

theorem sortedNonOverlappingSpans_twoBooleans :
    sortedNonOverlappingSpans twoBooleans 2 = twoBooleans := by
  rw [sortedNonOverlappingSpans, mergeSort_of_pairwise (by decide)]
  rfl

/-- Two booleans that must not be one are minimised once. -/
theorem idempotent_required_zeros :
    ∃ first, minimizeTypedValues ⟨.little⟩ (fun candidate ↦ .ok (ε := Unit)
        (candidate.all (· ≠ 1))) [7, 8] twoBooleans = .ok first ∧
      AcceptsNothing Unit ⟨.little⟩ (fun candidate ↦ candidate.all (· ≠ 1)) first.minimized
        twoBooleans := by
  obtain ⟨first, hfirst, hsteady, -⟩ := idempotent_of_steady Unit ⟨.little⟩ [7, 8] twoBooleans
    (by decide) fun candidate ↦ candidate.all (· ≠ 1)
  rw [length_cons, length_singleton, sortedNonOverlappingSpans_twoBooleans] at hsteady
  refine ⟨first, hfirst, hsteady ⟨by decide, ?_, fun value hvalue ↦ ⟨?_, ?_, fun _ _ ↦ trivial⟩⟩⟩
  · intro candidate hcandidate slots' _ haccepts
    have hcandidate : candidate ∈ [[0], [1]] := hcandidate
    obtain rfl | rfl : candidate = [0] ∨ candidate = [1] := by simpa using hcandidate
    · rfl
    · contradiction
  · have hvalue : value = [7] ∨ value ∈ [[0], [1]] := hvalue
    obtain rfl | rfl | rfl : value = [7] ∨ value = [0] ∨ value = [1] := by simpa using hvalue
    all_goals decide
  · rintro candidate - _ ⟨choices, -, rfl⟩ haccepts
    exact haccepts

/-- If the predicate does not look at a boolean, one becomes zero and zero becomes one. And a first
boolean that has to stay while the second one is seven can go to zero once that one is zero. -/
theorem boolean_flips :
    minimizeTypedValues ⟨.little⟩ (fun _ ↦ .ok (ε := Unit) true) [1] [⟨⟨0, 1⟩, .boolean⟩] =
      .ok ⟨1, [0], 1, 1⟩ ∧
    minimizeTypedValues ⟨.little⟩ (fun _ ↦ .ok (ε := Unit) true) [0] [⟨⟨0, 1⟩, .boolean⟩] =
      .ok ⟨1, [1], 1, 1⟩ ∧
    minimizeTypedValues ⟨.little⟩ (fun bytes ↦ .ok (ε := Unit)
      (bytes ∈ [[7, 7], [7, 0], [0, 0]])) [7, 7] twoBooleans = .ok ⟨2, [7, 0], 3, 1⟩ ∧
    minimizeTypedValues ⟨.little⟩ (fun bytes ↦ .ok (ε := Unit)
      (bytes ∈ [[7, 7], [7, 0], [0, 0]])) [7, 0] twoBooleans = .ok ⟨2, [0, 0], 2, 1⟩ := by
  refine ⟨?_, ?_, ?_, ?_⟩
  iterate 2
    · rw [minimizeTypedValues, sortedNonOverlappingSpans_singleton (by decide)]
      rfl
  all_goals
    rw [minimizeTypedValues, length_cons, length_singleton, sortedNonOverlappingSpans_twoBooleans]
    rfl

end Bhf.ReplayMin
