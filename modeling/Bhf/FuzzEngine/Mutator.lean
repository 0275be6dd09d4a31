import Bhf.FuzzEngine.CmpLog
import Bhf.FuzzEngine.Grammar
import Bhf.FuzzEngine.Operations
import Bhf.FuzzEngine.Structured

/-!
# The mutator suite

A suite mutates an input in one of 23 kinds. `try_mutate_with_kind` runs the mutator of a kind;
`mutate` collects the kinds that are available for the input, favours splices from logged
comparisons, and tries kinds in random order until one of them gives a result.

Two things are proved about all kinds.

* **The length limit.** An input within the limit has only mutants within the limit
  (`yields_tryMutateWithKind`). Each kind keeps it in its own way; the bounds are those of the
  modules below.
* **The gate.** A kind that gives a result is available (`mem_availableKinds_of_result`), so
  `mutate` loses nothing by asking first.
-/

namespace Bhf.FuzzEngine

open StateExcept List

/-! ### Kinds, inputs and suites -/

inductive MutationKind
  | bitFlip
  | byteFlip
  | arithmetic
  | interesting
  | splice
  | dictionaryInsert
  | structuredRecord
  | structuredJson
  | structuredXml
  | structuredKeyValue
  | structuredUrlEncoded
  | structuredMultipart
  | structuredCsv
  | structuredHttp
  | structuredIni
  | structuredToml
  | structuredYaml
  | structuredChunked
  | structuredRecursive
  | structuredGrammar
  | typedValue
  | opSequence
  | cmpLogSplice
  deriving DecidableEq

def MutationKind.all : List MutationKind :=
  [.bitFlip, .byteFlip, .arithmetic, .interesting, .splice, .dictionaryInsert, .structuredRecord,
    .structuredJson, .structuredXml, .structuredKeyValue, .structuredUrlEncoded,
    .structuredMultipart, .structuredCsv, .structuredHttp, .structuredIni, .structuredToml,
    .structuredYaml, .structuredChunked, .structuredRecursive, .structuredGrammar, .typedValue,
    .opSequence, .cmpLogSplice]

theorem MutationKind.mem_all (kind : MutationKind) : kind ∈ MutationKind.all := by
  cases kind <;> decide

structure MutationResult where
  bytes : Bytes
  kind : MutationKind

structure MutationInput where
  bytes : Bytes
  peer : Option Bytes
  dictionary : Dictionary
  typedSpans : List TypedSpan
  operationSequence : Option OperationSequenceLayout
  cmplog : Option CmpLog
  grammar : Option Grammar

/-- An input with bytes and a dictionary only. -/
def MutationInput.new (bytes : Bytes) (dictionary : Dictionary) : MutationInput where
  bytes := bytes
  peer := none
  dictionary := dictionary
  typedSpans := []
  operationSequence := none
  cmplog := none
  grammar := none

def MutatorConfig.default : MutatorConfig where
  maxLen := 4096
  structuredRecords := true
  structuredJson := true
  structuredXml := true
  structuredKeyValue := true
  structuredUrlEncoded := true
  structuredMultipart := true
  structuredCsv := true
  structuredHttp := true
  structuredIni := true
  structuredToml := true
  structuredYaml := true
  structuredChunked := true
  structuredRecursive := true

structure MutatorSuite where
  config : MutatorConfig
  abi : TargetAbi

/-! ### Mutators that look at the input only -/

def bitFlip (bytes : Bytes) : Gen Bytes := do
  let index ← chooseIndex bytes.length
  let bit ← chooseIndex 8
  return bytes.modify index (· ^^^ (1 <<< UInt8.ofNat bit))

def byteFlip (bytes : Bytes) : Gen Bytes := do
  let index ← chooseIndex bytes.length
  let replacement ← nextU8
  return bytes.modify index fun b ↦ if replacement = b then replacement + 1 else replacement

def arithmetic (bytes : Bytes) : Gen Bytes := do
  let index ← chooseIndex bytes.length
  return bytes.modify index (· + 1)

/-- Boundary values of 8, 16 and 32 bits, in little-endian order, that are not too long. -/
def interestingCandidates (maxLen : ℕ) : List Bytes :=
  [[0], [1], [0xff], [0x7f], [0x80], [0x00, 0x80], [0xff, 0x7f], [0x00, 0x00, 0x00, 0x80],
    [0xff, 0xff, 0xff, 0x7f]].filter fun candidate ↦ candidate.length ≤ maxLen

/-- Where a boundary value can be written so that something changes. -/
def interestingPlacements (bytes : Bytes) : List (ℕ × Bytes) :=
  (interestingCandidates bytes.length).flatMap fun candidate ↦
    (List.range (bytes.length - candidate.length + 1)).filterMap fun start ↦
      if candidate = Span.slice ⟨start, start + candidate.length⟩ bytes then none
      else some (start, candidate)

def interesting (bytes : Bytes) : Gen Bytes := do
  let placements := interestingPlacements bytes
  let (start, candidate) ← orGiveUp placements[← chooseIndex placements.length]?
  return Span.overwrite ⟨start, start + candidate.length⟩ bytes candidate

theorem fitsIn_of_mem_interestingPlacements {bytes candidate : Bytes} {start : ℕ}
    (h : (start, candidate) ∈ interestingPlacements bytes) :
    Span.FitsIn ⟨start, start + candidate.length⟩ bytes.length := by
  obtain ⟨candidate', hcandidate, hstart⟩ := mem_flatMap.1 h
  obtain ⟨start', hrange, hplace⟩ := mem_filterMap.1 hstart
  split at hplace
  · simp at hplace
  obtain ⟨rfl, rfl⟩ := Prod.mk.inj (Option.some.inj hplace)
  have hlen := (mem_filter.1 hcandidate).2
  rw [decide_eq_true_iff] at hlen
  rw [mem_range] at hrange
  exact ⟨show start' ≤ start' + candidate'.length by omega,
    show start' + candidate'.length ≤ bytes.length by omega⟩

/-! ### Splicing and inserting -/

def splice (maxLen : ℕ) (bytes peer : Bytes) : Gen Bytes := do
  giveUpIf (bytes.isEmpty || peer.isEmpty || maxLen = 0)
  let currentCut := (← chooseIndex bytes.length) + 1
  let peerCut ← chooseIndex peer.length
  let output := (bytes.take currentCut ++ peer.drop peerCut).take maxLen
  giveUpIf output.isEmpty
  return output

def dictionaryInsert (maxLen : ℕ) (bytes : Bytes) (dictionary : Dictionary) : Gen Bytes := do
  let remaining ← orGiveUp (checkedSub maxLen bytes.length)
  giveUpIf (remaining = 0)
  let token ← dictionary.choose
  let tokenLen := min token.length remaining
  giveUpIf (tokenLen = 0)
  let insertAt ← chooseIndex (bytes.length + 1)
  return bytes.take insertAt ++ token.take tokenLen ++ bytes.drop insertAt

/-! ### The suite -/

/-- How often splices from logged comparisons are added to the kinds to choose from. -/
def cmplogSpliceExtraWeight : ℕ := 8

namespace MutatorSuite

variable (suite : MutatorSuite) (input : MutationInput)

/-- The mutator of a kind. -/
def mutator : MutationKind → Gen Bytes
  | .bitFlip => bitFlip input.bytes
  | .byteFlip => byteFlip input.bytes
  | .arithmetic => arithmetic input.bytes
  | .interesting => interesting input.bytes
  | .splice => do splice suite.config.maxLen input.bytes (← orGiveUp input.peer)
  | .dictionaryInsert => dictionaryInsert suite.config.maxLen input.bytes input.dictionary
  | .structuredRecord => structuredRecord suite.config input.dictionary
  | .structuredJson => structuredJson suite.config input.dictionary
  | .structuredXml => structuredXml suite.config input.dictionary
  | .structuredKeyValue => structuredKeyValue suite.config input.dictionary
  | .structuredUrlEncoded => structuredUrlEncoded suite.config input.dictionary
  | .structuredMultipart => structuredMultipart suite.config input.dictionary
  | .structuredCsv => structuredCsv suite.config input.dictionary
  | .structuredHttp => structuredHttp suite.config input.dictionary
  | .structuredIni => structuredIni suite.config input.dictionary
  | .structuredToml => structuredToml suite.config input.dictionary
  | .structuredYaml => structuredYaml suite.config input.dictionary
  | .structuredChunked => structuredChunked suite.config input.dictionary
  | .structuredRecursive => structuredRecursive suite.config input.dictionary
  | .structuredGrammar => do (← orGiveUp input.grammar).generate suite.config.maxLen
  | .typedValue =>
    typedValue suite.abi suite.config.maxLen input.bytes input.dictionary input.typedSpans
  | .opSequence => do
    operationSequence suite.config.maxLen input.bytes (← orGiveUp input.operationSequence)
  | .cmpLogSplice => do cmplogSplice suite.config.maxLen input.bytes (← orGiveUp input.cmplog)

def tryMutateWithKind (kind : MutationKind) : Gen MutationResult := do
  let bytes ← suite.mutator input kind
  return ⟨bytes, kind⟩

def kindAvailable : MutationKind → Bool
  | .bitFlip | .byteFlip | .arithmetic => !input.bytes.isEmpty
  | .interesting => !(interestingPlacements input.bytes).isEmpty
  | .splice =>
    0 < suite.config.maxLen && !input.bytes.isEmpty && input.peer.any fun peer ↦ !peer.isEmpty
  | .dictionaryInsert => !input.dictionary.isEmpty && input.bytes.length < suite.config.maxLen
  | .structuredRecord =>
    suite.config.structuredRecords && !input.dictionary.isEmpty &&
      minStructuredRecordLen ≤ suite.config.maxLen
  | .structuredJson =>
    suite.config.structuredJson && !input.dictionary.isEmpty &&
      minStructuredJsonLen ≤ suite.config.maxLen
  | .structuredXml =>
    suite.config.structuredXml && !input.dictionary.isEmpty &&
      minStructuredXmlLen ≤ suite.config.maxLen
  | .structuredKeyValue =>
    suite.config.structuredKeyValue && !input.dictionary.isEmpty &&
      minStructuredKeyValueLen ≤ suite.config.maxLen
  | .structuredUrlEncoded =>
    suite.config.structuredUrlEncoded && !input.dictionary.isEmpty &&
      minStructuredUrlEncodedLen ≤ suite.config.maxLen
  | .structuredMultipart =>
    suite.config.structuredMultipart && !input.dictionary.isEmpty &&
      minStructuredMultipartLen ≤ suite.config.maxLen
  | .structuredCsv =>
    suite.config.structuredCsv && !input.dictionary.isEmpty &&
      minStructuredCsvLen ≤ suite.config.maxLen
  | .structuredHttp =>
    suite.config.structuredHttp && !input.dictionary.isEmpty &&
      minStructuredHttpLen ≤ suite.config.maxLen
  | .structuredIni =>
    suite.config.structuredIni && !input.dictionary.isEmpty &&
      iniFormat.minLen ≤ suite.config.maxLen
  | .structuredToml =>
    suite.config.structuredToml && !input.dictionary.isEmpty &&
      tomlFormat.minLen ≤ suite.config.maxLen
  | .structuredYaml =>
    suite.config.structuredYaml && !input.dictionary.isEmpty &&
      yamlFormat.minLen ≤ suite.config.maxLen
  | .structuredChunked =>
    suite.config.structuredChunked && !input.dictionary.isEmpty &&
      minStructuredChunkedLen ≤ suite.config.maxLen
  -- nesting needs no token, and a derivation needs no input
  | .structuredRecursive =>
    suite.config.structuredRecursive && minStructuredRecursiveLen ≤ suite.config.maxLen
  | .structuredGrammar => input.grammar.isSome && 0 < suite.config.maxLen
  | .typedValue =>
    !(typedSpanCandidates suite.abi suite.config.maxLen input.bytes input.dictionary
      input.typedSpans).isEmpty
  | .opSequence =>
    input.operationSequence.any fun layout ↦
      !(operationSequenceActions suite.config.maxLen input.bytes layout).isEmpty
  | .cmpLogSplice =>
    input.cmplog.any fun log ↦
      !input.bytes.isEmpty && !(cmplogSpliceCandidates log input.bytes).isEmpty

/-- The kinds to choose from; splices from logged comparisons are in it several times. -/
def availableKinds : List MutationKind :=
  let available := MutationKind.all.filter (suite.kindAvailable input)
  if input.cmplog.isSome && available.contains .cmpLogSplice then
    available ++ List.replicate cmplogSpliceExtraWeight .cmpLogSplice
  else available

def mutate : Gen MutationResult :=
  tryInRandomOrder (fun kind ↦ attempt (suite.tryMutateWithKind input kind))
    (suite.availableKinds input)

end MutatorSuite

/-! ### The length limit -/

section Length

variable {maxLen : ℕ} {bytes : Bytes}

theorem yields_modify {index : ℕ} {f : UInt8 → UInt8} (hbytes : bytes.length ≤ maxLen) :
    Yields (return bytes.modify index f : Gen Bytes) fun out ↦ out.length ≤ maxLen := by
  refine yields_pure ?_
  rw [length_modify]
  exact hbytes

theorem yields_interesting (hbytes : bytes.length ≤ maxLen) :
    Yields (interesting bytes) fun out ↦ out.length ≤ maxLen := by
  refine yields_bind fun index ↦ ?_
  refine (yields_ofOption fun _ ↦ mem_of_getElem?).bind fun (start, candidate) hmem ↦ ?_
  refine yields_pure ?_
  rw [Span.length_overwrite (fitsIn_of_mem_interestingPlacements hmem) (by simp [Span.len])]
  exact hbytes

theorem yields_splice (peer : Bytes) :
    Yields (splice maxLen bytes peer) fun out ↦ out.length ≤ maxLen := by
  refine yields_bind fun _ ↦ yields_bind fun _ ↦ yields_bind fun _ ↦ yields_bind fun _ ↦ ?_
  exact yields_pure (length_take_le _ _)

theorem yields_dictionaryInsert (dictionary : Dictionary) :
    Yields (dictionaryInsert maxLen bytes dictionary) fun out ↦ out.length ≤ maxLen := by
  refine (yields_checkedSub _ _).bind fun remaining hremaining ↦ ?_
  refine yields_bind fun _ ↦ yields_bind fun token ↦ yields_bind fun _ ↦ ?_
  refine yields_bind fun insertAt ↦ yields_pure ?_
  simp only [length_append, length_take, length_drop]
  omega

end Length

namespace MutatorSuite

variable {suite : MutatorSuite} {input : MutationInput}

theorem yields_mutator (hinput : input.bytes.length ≤ suite.config.maxLen) (kind : MutationKind) :
    Yields (suite.mutator input kind) fun out ↦ out.length ≤ suite.config.maxLen := by
  cases kind with
  | bitFlip | byteFlip => exact yields_bind fun _ ↦ yields_bind fun _ ↦ yields_modify hinput
  | arithmetic => exact yields_bind fun _ ↦ yields_modify hinput
  | interesting => exact yields_interesting hinput
  | splice => exact yields_bind yields_splice
  | dictionaryInsert => exact yields_dictionaryInsert _
  | structuredRecord => exact yields_structuredRecord _ _
  | structuredJson => exact yields_structuredJson _ _
  | structuredXml => exact yields_structuredXml _ _
  | structuredKeyValue => exact yields_structuredKeyValue _ _
  | structuredUrlEncoded => exact yields_structuredUrlEncoded _ _
  | structuredMultipart => exact yields_structuredMultipart _ _
  | structuredCsv => exact yields_structuredCsv _ _
  | structuredHttp => exact yields_structuredHttp _ _
  | structuredIni | structuredToml | structuredYaml =>
    iterate 4 refine yields_bind fun _ ↦ ?_
    exact yields_withinLimit _ _
  | structuredChunked => exact yields_structuredChunked _ _
  | structuredRecursive => exact yields_structuredRecursive _ _
  | structuredGrammar => exact yields_bind fun grammar ↦ grammar.yields_generate _
  | typedValue => exact yields_typedValue _ _ _ _ _
  | opSequence => exact yields_bind fun _ ↦ yields_operationSequence hinput
  | cmpLogSplice => exact yields_bind fun log ↦ yields_cmplogSplice _ _ log

theorem yields_tryMutateWithKind (hinput : input.bytes.length ≤ suite.config.maxLen)
    (kind : MutationKind) :
    Yields (suite.tryMutateWithKind input kind)
      fun result ↦ result.bytes.length ≤ suite.config.maxLen :=
  (yields_mutator hinput kind).bind fun _ hbytes ↦ yields_pure hbytes

/-- **Mutants of an input within the length limit are within it**, for every kind and every state of
the generator, and whatever `mutate` settles on. -/
theorem mutants_length_le (suite : MutatorSuite) (input : MutationInput)
    (hinput : input.bytes.length ≤ suite.config.maxLen) :
    (∀ kind rng result rng', Runs (suite.tryMutateWithKind input kind) rng result rng' →
        result.bytes.length ≤ suite.config.maxLen) ∧
      ∀ rng result rng', Runs (suite.mutate input) rng result rng' →
        result.bytes.length ≤ suite.config.maxLen :=
  ⟨yields_tryMutateWithKind hinput,
    yields_tryInRandomOrder fun kind _ ↦ (yields_tryMutateWithKind hinput kind).attempt⟩

/-- Two bytes, a limit of two bytes and a generator in its first state. -/
theorem pair_mutant_length_le :
    ∃ result rng', Runs (MutatorSuite.mutate ⟨{ MutatorConfig.default with maxLen := 2 }, ⟨.little⟩⟩
        (.new [0x41, 0x42] ⟨[[0x2f]], []⟩)) ⟨0⟩ result rng' ∧ result.bytes.length ≤ 2 :=
  ⟨_, _, rfl, (mutants_length_le ⟨{ MutatorConfig.default with maxLen := 2 }, ⟨.little⟩⟩
    (.new [0x41, 0x42] ⟨[[0x2f]], []⟩) (by decide)).2 ⟨0⟩ _ _ rfl⟩

/-! ### The gate -/

theorem yields_mutator_available (kind : MutationKind) :
    Yields (suite.mutator input kind) fun _ ↦ suite.kindAvailable input kind := by
  cases kind with
  | bitFlip | byteFlip | arithmetic => exact (yields_chooseIndex_nonempty input.bytes).first
  | interesting => exact (yields_chooseIndex_nonempty _).first
  | splice =>
    refine (yields_ofOption fun _ h ↦ h).bind fun peer hpeer ↦ ?_
    refine ((yields_giveUpIf _).weaken fun _ hguard ↦ ?_).first
    simp only [Bool.or_eq_false_iff, decide_eq_false_iff_not] at hguard
    simp [kindAvailable, hpeer, hguard.1.1, hguard.1.2, Nat.pos_of_ne_zero hguard.2]
  | dictionaryInsert =>
    refine (yields_checkedSub _ _).bind fun remaining hremaining ↦ ?_
    refine (yields_giveUpIf _).bind fun _ hguard ↦ ?_
    refine Yields.first (((yields_chooseIndex_nonempty input.dictionary.tokens).first).weaken
      fun _ htokens ↦ ?_)
    rw [decide_eq_false_iff_not] at hguard
    have hlen : input.bytes.length < suite.config.maxLen := by omega
    simpa [kindAvailable, Dictionary.isEmpty, hlen] using htokens
  | structuredRecord | structuredJson | structuredXml | structuredKeyValue | structuredUrlEncoded
  | structuredMultipart | structuredCsv | structuredHttp | structuredIni | structuredToml
  | structuredYaml | structuredChunked | structuredRecursive =>
    refine ((yields_giveUpIf _).weaken fun _ hguard ↦ ?_).first
    simpa [kindAvailable, and_assoc] using hguard
  | structuredGrammar =>
    refine (yields_ofOption fun _ h ↦ h).bind fun grammar hgrammar ↦ ?_
    refine (grammar.yields_generate_pos _).weaken fun _ hpos ↦ ?_
    simp [kindAvailable, hgrammar, hpos]
  | typedValue => exact (yields_chooseIndex_nonempty _).first
  | opSequence =>
    refine (yields_ofOption fun _ h ↦ h).bind fun layout hlayout ↦ ?_
    refine (yields_tryInRandomOrder_nonempty _ _).weaken fun _ hactions ↦ ?_
    simpa [kindAvailable, hlayout] using hactions
  | cmpLogSplice =>
    refine (yields_ofOption fun _ h ↦ h).bind fun log hlog ↦ ?_
    refine (yields_tryInRandomOrder_nonempty _ _).weaken fun _ hcandidates ↦ ?_
    -- the guard of the kind also asks for an input, but nothing occurs in an empty one
    have hbytes : input.bytes.isEmpty = false := by
      rw [isEmpty_eq_false_iff]
      intro hnil
      rw [hnil, cmplogSpliceCandidates_nil] at hcandidates
      simp at hcandidates
    simpa [kindAvailable, hlog, hbytes] using hcandidates

theorem mem_availableKinds_iff {kind : MutationKind} :
    kind ∈ suite.availableKinds input ↔ suite.kindAvailable input kind := by
  have hfilter : kind ∈ MutationKind.all.filter (suite.kindAvailable input) ↔
      suite.kindAvailable input kind := by
    rw [mem_filter]
    exact and_iff_right kind.mem_all
  rw [availableKinds]
  split
  · next hsplice =>
    have hmem := contains_iff_mem.1 (Bool.and_eq_true_iff.1 hsplice).2
    rw [mem_append, hfilter, mem_replicate]
    refine or_iff_left_of_imp ?_
    rintro ⟨-, rfl⟩
    exact (mem_filter.1 hmem).2
  · exact hfilter

/-- A kind that gives a result is one that `mutate` chooses from. -/
theorem mem_availableKinds_of_result (suite : MutatorSuite) (input : MutationInput)
    (kind : MutationKind) :
    Yields (suite.tryMutateWithKind input kind)
      fun result ↦ result.kind = kind ∧ kind ∈ suite.availableKinds input :=
  (yields_mutator_available kind).bind fun _ havailable ↦
    yields_pure ⟨rfl, mem_availableKinds_iff.2 havailable⟩

end MutatorSuite

end Bhf.FuzzEngine
