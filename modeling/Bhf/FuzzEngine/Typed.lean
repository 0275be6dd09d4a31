import Bhf.Lib.Spans
import Bhf.Lib.Words
import Bhf.FuzzEngine.Rng

/-!
# Dictionaries and typed values

A dictionary is a list of tokens; a curated one also knows the bucket of each. A typed span says
that a range of an input holds a value of some kind, and the kind has a list of replacements: fixed
anchors in the byte order of the target, or the tokens of the dictionary.

Provenance and scores of dictionary entries and the pointer width of the target are left out, since
nothing here reads them.
-/

namespace Bhf.FuzzEngine

open StateExcept

/-! ### Dictionaries -/

inductive DictionaryBucket
  | string
  | wideString
  | wideWideString
  | enumLiteral (typeName : String)
  | exceptionName
  | idlOperationName
  | integerConstant (typeName : String)
  deriving DecidableEq

structure DictionaryEntry where
  bucket : DictionaryBucket
  token : Bytes
  deriving DecidableEq

structure Dictionary where
  tokens : List Bytes
  entries : List DictionaryEntry

namespace Dictionary

def isEmpty (d : Dictionary) : Bool :=
  d.tokens.isEmpty

def len (d : Dictionary) : ℕ :=
  d.tokens.length

def get (d : Dictionary) (index : ℕ) : Option Bytes :=
  d.tokens[index]?

def hasCuratedEntries (d : Dictionary) : Bool :=
  !d.entries.isEmpty

def tokensForBucket (d : Dictionary) (bucket : DictionaryBucket) : List Bytes :=
  (d.entries.filter fun entry ↦ entry.bucket = bucket).map DictionaryEntry.token

/-- A token at random. -/
def choose (d : Dictionary) : Gen Bytes := do
  orGiveUp (d.get (← chooseIndex d.len))

end Dictionary

/-! ### Typed values -/

inductive TypedValueKind
  | boolean
  | signedInteger
  | unsignedInteger
  | float64
  | bytes
  | string
  deriving DecidableEq

structure TypedSpan where
  range : Span
  kind : TypedValueKind

def TypedSpan.validFor (span : TypedSpan) (len : ℕ) : Bool :=
  span.range.start < span.range.stop && span.range.stop ≤ len

structure TargetAbi where
  endian : ByteOrder

def TargetAbi.isBigEndian (abi : TargetAbi) : Bool :=
  abi.endian = .big

/-- Bytes in host order, put into the order of the target. -/
def TargetAbi.order (abi : TargetAbi) (bytes : Bytes) : Bytes :=
  if abi.isBigEndian then bytes.reverse else bytes

/-- Replacements for a value of a kind, in the byte order of the target. -/
def typedCandidatesForAbi (kind : TypedValueKind) (dictionary : Dictionary) (abi : TargetAbi) :
    List Bytes :=
  match kind with
  | .boolean => [[0], [1]]
  | .signedInteger =>
    [[0, 0, 0, 0], [1, 0, 0, 0], [0xff, 0xff, 0xff, 0xff], [0, 0, 0, 0x80],
      [0xff, 0xff, 0xff, 0x7f]].map abi.order
  | .unsignedInteger => [[0, 0, 0, 0], [1, 0, 0, 0], [0xff, 0xff, 0xff, 0xff]].map abi.order
  | .float64 =>
    -- 0.0, -0.0, NaN, infinity and minus infinity
    [[0, 0, 0, 0, 0, 0, 0, 0], [0, 0, 0, 0, 0, 0, 0, 0x80], [0, 0, 0, 0, 0, 0, 0xf8, 0x7f],
      [0, 0, 0, 0, 0, 0, 0xf0, 0x7f], [0, 0, 0, 0, 0, 0, 0xf0, 0xff]].map abi.order
  | .bytes | .string =>
    let tokens :=
      if kind = .string && dictionary.hasCuratedEntries then dictionary.tokensForBucket .string
      else dictionary.tokens
    if tokens.isEmpty then [[]] else tokens

/-! ### Replacing a typed value -/

variable (abi : TargetAbi) (maxLen : ℕ) (input : Bytes) (dictionary : Dictionary)
  (typedSpans : List TypedSpan)

/-- The spans that can be replaced, with replacements that change something and fit. -/
def typedSpanCandidates : List (TypedSpan × List Bytes) :=
  typedSpans.filterMap fun span ↦
    if !span.validFor input.length then none
    else
      let current := span.range.slice input
      let candidates := (typedCandidatesForAbi span.kind dictionary abi).filter fun candidate ↦
        candidate ≠ current && input.length - current.length + candidate.length ≤ maxLen
      if candidates.isEmpty then none else some (span, candidates)

def typedValue : Gen Bytes := do
  let spanCandidates := typedSpanCandidates abi maxLen input dictionary typedSpans
  let (span, candidates) ← orGiveUp spanCandidates[← chooseIndex spanCandidates.length]?
  let candidate ← orGiveUp candidates[← chooseIndex candidates.length]?
  return span.range.overwrite input candidate

theorem length_of_mem_typedSpanCandidates {abi : TargetAbi} {maxLen : ℕ} {input : Bytes}
    {dictionary : Dictionary} {typedSpans : List TypedSpan} {span : TypedSpan}
    {candidates : List Bytes} {candidate : Bytes}
    (hspan : (span, candidates) ∈ typedSpanCandidates abi maxLen input dictionary typedSpans)
    (hcandidate : candidate ∈ candidates) :
    (span.range.overwrite input candidate).length ≤ maxLen := by
  obtain ⟨span', -, hsome⟩ := List.mem_filterMap.1 hspan
  dsimp only at hsome
  split at hsome
  · simp at hsome
  next hvalid =>
  split at hsome
  · simp at hsome
  obtain ⟨rfl, rfl⟩ := Prod.mk.inj (Option.some.inj hsome)
  obtain ⟨hstart, hstop⟩ : span'.range.start < span'.range.stop ∧
      span'.range.stop ≤ input.length := by
    simpa [TypedSpan.validFor] using hvalid
  have hfits : span'.range.FitsIn input.length := ⟨le_of_lt hstart, hstop⟩
  have hlen : _ + _ = input.length + candidate.length := Span.length_overwrite_add hfits
  obtain ⟨-, hmax⟩ := List.mem_filter.1 hcandidate
  rw [Bool.and_eq_true, decide_eq_true_iff, decide_eq_true_iff, Span.length_slice hfits] at hmax
  omega

theorem yields_typedValue :
    Yields (typedValue abi maxLen input dictionary typedSpans) fun out ↦ out.length ≤ maxLen := by
  refine yields_bind fun i ↦ ?_
  refine (yields_ofOption fun _ ↦ List.mem_of_getElem?).bind fun (span, candidates) hspan ↦ ?_
  refine yields_bind fun j ↦ ?_
  refine (yields_ofOption fun _ ↦ List.mem_of_getElem?).bind fun candidate hcandidate ↦ ?_
  exact yields_pure (length_of_mem_typedSpanCandidates hspan hcandidate)

end Bhf.FuzzEngine
