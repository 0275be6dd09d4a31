import Bhf.Corpus.Signature
import Mathlib.Data.List.Infix

/-!
# Root-cause clusters of sanitizer reports

A crash is clustered by the top frames of its stack that say something about the target: runtime,
harness and driver frames are dropped first. Two predicates look at the same frames to suppress a
report that is all scaffolding. They name other tables than the normaliser, but **what they pass
over the normaliser drops**, so that a report they suppress has no cluster of its own
(`normalizeFrames_of_suppressed`).
-/

namespace Bhf.Corpus

open List

/-! ### Frame names -/

def topFrames : ℕ := 3

def noisePrefixes : List String :=
  ["__asan", "__sanitizer", "__interceptor", "__ubsan", "__lsan", "__hwasan", "__tsan",
    "LLVMFuzzer", "fuzzer::", "_dl_", "__GI_", "__libc_"]

def noiseExact : List String := ["main", "_start"]

def driverPrefixes : List String :=
  ["fuzzer::", "LLVMFuzzer", "__asan", "__ubsan", "__lsan", "__tsan", "__hwasan", "__sanitizer"]

def allocRuntime : List String :=
  ["free", "malloc", "calloc", "realloc", "reallocarray", "aligned_alloc", "posix_memalign",
    "memalign", "valloc", "pvalloc", "cfree", "operator new", "operator delete", "operator new[]",
    "operator delete[]"]

def libcRuntime : List String :=
  ["printf", "fprintf", "vfprintf", "vprintf", "sprintf", "snprintf", "vsnprintf", "vsprintf",
    "dprintf", "vdprintf", "puts", "fputs", "fwrite", "fread", "fputc", "fgetc", "getc", "putc",
    "putchar", "memcpy", "memmove", "memset", "memcmp", "memchr", "strlen", "strnlen", "strcmp",
    "strncmp", "strcpy", "strncpy", "strcat", "strncat", "strchr", "strrchr", "strstr", "strdup",
    "strndup"]

def startsWith (prefixes : List String) (name : String) : Bool :=
  prefixes.any fun p ↦ p.toList.isPrefixOf name.toList

def contains (name part : String) : Bool :=
  decide (part.toList <:+: name.toList)

def toAsciiLowercase (name : String) : String :=
  String.ofList (name.toList.map Char.toLower)

/-! ### Decoration -/

/-- What precedes the bracket that closes the open ones, in a text that is read backwards. -/
def beforeGroup : ℕ → List Char → Option (List Char)
  | _, [] => none
  | depth, ')' :: text => beforeGroup (depth + 1) text
  | depth, '(' :: text => if depth = 1 then some text else beforeGroup (depth - 1) text
  | depth, _ :: text => beforeGroup depth text

/-- The text is read backwards. -/
def stripOneTrailingParenGroup (text : List Char) : Option (List Char) :=
  match text.dropWhile isWhitespace with
  | ')' :: text => do
    let preceding ← beforeGroup 1 text
    if (preceding.head?.map isWhitespace).getD false then preceding.dropWhile isWhitespace
    else none
  | _ => none

/-- A group is never empty, so a text has fewer than it has characters. -/
def stripGroups : ℕ → List Char → List Char
  | 0, text => text
  | n + 1, text =>
    match stripOneTrailingParenGroup text with
    | some stripped => stripGroups n stripped
    | none => text

def stripToolchainDecoration (raw : String) : String :=
  let text := raw.toList.reverse.dropWhile isWhitespace
  String.ofList (stripGroups text.length text).reverse

def anonymousNamespace : List Char := "(anonymous namespace)".toList

/-- What precedes the argument list; `skip` characters belong to an anonymous namespace. -/
def beforeOpenParen : ℕ → ℤ → List Char → Option (List Char)
  | _, _, [] => none
  | skip + 1, angle, c :: s => (c :: ·) <$> beforeOpenParen skip angle s
  | 0, angle, c :: s =>
    if c = '<' then (c :: ·) <$> beforeOpenParen 0 (angle + 1) s
    else if c = '>' then (c :: ·) <$> beforeOpenParen 0 (angle - 1) s
    else if c = '(' ∧ angle ≤ 0 then
      if anonymousNamespace.isPrefixOf (c :: s) then
        (c :: ·) <$> beforeOpenParen (anonymousNamespace.length - 1) angle s
      else some []
    else (c :: ·) <$> beforeOpenParen 0 angle s

def stripCppArgs (raw : String) : String :=
  let trimmed := trim raw
  match beforeOpenParen 0 0 trimmed.toList with
  | none => trimmed
  | some preceding =>
    if "operator".toList.isSuffixOf preceding then trimmed
    else String.ofList (preceding.reverse.dropWhile isWhitespace).reverse

/-! ### Normalisation -/

def isRustStdAllocatorNoise (lowerName : String) : Bool :=
  startsWith ["alloc::", "<alloc::", "<[u8]>::to_vec", "<u8 as <[_]>::to_vec"] lowerName ||
    contains lowerName " as alloc::"

def isHarness (lower : String) : Bool :=
  startsWith ["bhf_", "rust_runtime::", "<rust_runtime::"] lower ||
    lower = "llvmfuzzertestoneinput"

def isRuntimeOrHarnessNoise (name : String) : Bool :=
  let lower := toAsciiLowercase name
  isHarness lower || startsWith ["_io_"] lower || contains lower "printf_common" ||
    lower ∈ allocRuntime || isRustStdAllocatorNoise lower || lower ∈ libcRuntime

def isNoise (trimmed : String) : Bool :=
  trimmed ∈ noiseExact || startsWith noisePrefixes trimmed

/-- The name a frame is clustered under, if it is. -/
def normalizeFrame (function : String) : Option String :=
  let trimmed := trim (stripToolchainDecoration function)
  let noArgs := stripCppArgs trimmed
  if trimmed = "" || isNoise trimmed || noArgs = "" || isRuntimeOrHarnessNoise noArgs then none
  else some noArgs

def normalizeFrames (input : List String) : List String :=
  (input.filterMap normalizeFrame).take topFrames

inductive Sanitizer where
  | addressSanitizer
  | undefinedBehaviorSanitizer
  | leakSanitizer
  deriving DecidableEq

/-- A report; of a frame only the function counts. -/
structure SanitizerReport where
  sanitizer : Option Sanitizer
  stack : List String

def clusterForSanitizer (sha256 : Bytes → String) (report : SanitizerReport) : ClusterKey :=
  clusterKeyFromFrames sha256 (normalizeFrames report.stack)

/-! ### Suppression -/

/-- Look for a frame that counts. A frame of no kind ends the search: it is one of the target. -/
def seesFrame (kind : String → Option Bool) : Bool → List String → Bool
  | saw, [] => saw
  | saw, frame :: frames =>
    match kind frame with
    | none => false
    | some counts => seesFrame kind (saw || counts) frames

def driverKind (function : String) : Option Bool :=
  let trimmed := trim (stripToolchainDecoration function)
  if trimmed = "" then some false
  else if startsWith driverPrefixes trimmed then some true
  else if isNoise trimmed || stripCppArgs trimmed ∈ allocRuntime then some false
  else none

def isDriverGlueCrash (report : SanitizerReport) : Bool :=
  seesFrame driverKind false report.stack

def leakKind (function : String) : Option Bool :=
  let trimmed := trim (stripToolchainDecoration function)
  let noArgs := stripCppArgs trimmed
  let lower := toAsciiLowercase noArgs
  if trimmed = "" || noArgs = "" then some false
  else if isHarness lower || isRustStdAllocatorNoise lower then some true
  else if noArgs ∈ allocRuntime || isNoise trimmed || isRuntimeOrHarnessNoise noArgs then some false
  else none

def isHarnessScaffoldingLeak (report : SanitizerReport) : Bool :=
  report.sanitizer = some .leakSanitizer && seesFrame leakKind false report.stack

theorem kind_of_seesFrame {kind : String → Option Bool} {saw : Bool} {frames : List String}
    (h : seesFrame kind saw frames) : ∀ frame ∈ frames, kind frame ≠ none := by
  induction frames generalizing saw with
  | nil => simp
  | cons frame frames ih =>
    rw [seesFrame] at h
    split at h
    · contradiction
    · next counts hkind => exact forall_mem_cons.mpr ⟨by simp [hkind], ih h⟩

theorem isNoise_of_driver {name : String} (h : startsWith driverPrefixes name) : isNoise name := by
  have hsub : driverPrefixes ⊆ noisePrefixes := by decide
  obtain ⟨p, hp, hname⟩ := any_eq_true.mp h
  rw [isNoise, Bool.or_eq_true]
  exact .inr (any_eq_true.mpr ⟨p, hsub hp, hname⟩)

/-- The allocator's names are in lower case. -/
theorem isRuntimeOrHarnessNoise_of_alloc {name : String} (h : name ∈ allocRuntime) :
    isRuntimeOrHarnessNoise name := by
  have hlower : ∀ name ∈ allocRuntime, toAsciiLowercase name ∈ allocRuntime := by decide
  simp [isRuntimeOrHarnessNoise, hlower name h]

theorem normalizeFrame_of_driverKind {function : String} (h : driverKind function ≠ none) :
    normalizeFrame function = none := by
  simp only [driverKind] at h
  simp only [normalizeFrame]
  split_ifs at h with hempty hdriver hnoise
  · simp [hempty]
  · simp [isNoise_of_driver hdriver]
  · rw [Bool.or_eq_true, decide_eq_true_eq] at hnoise
    rcases hnoise with hnoise | halloc
    · simp [hnoise]
    · simp [isRuntimeOrHarnessNoise_of_alloc halloc]
  · exact absurd rfl h

theorem normalizeFrame_of_leakKind {function : String} (h : leakKind function ≠ none) :
    normalizeFrame function = none := by
  simp only [leakKind] at h
  simp only [normalizeFrame]
  split_ifs at h with hempty hcounts hnoise
  · rw [Bool.or_eq_true] at hempty
    rcases hempty with hempty | hempty <;> simp [hempty]
  · rw [Bool.or_eq_true] at hcounts
    rcases hcounts with hcounts | hcounts <;> simp [isRuntimeOrHarnessNoise, hcounts]
  · rw [Bool.or_eq_true, Bool.or_eq_true, decide_eq_true_eq] at hnoise
    rcases hnoise with (halloc | hnoise) | hnoise
    · simp [isRuntimeOrHarnessNoise_of_alloc halloc]
    all_goals simp [hnoise]
  · exact absurd rfl h

/-- **Suppression hides no frame of the target**: a report that is suppressed has no frame left to
be clustered by. -/
theorem normalizeFrames_of_suppressed (sha256 : Bytes → String) (report : SanitizerReport)
    (h : isDriverGlueCrash report = true ∨ isHarnessScaffoldingLeak report = true) :
    normalizeFrames report.stack = [] ∧ (clusterForSanitizer sha256 report).fallback = true := by
  have hframes : normalizeFrames report.stack = [] := by
    rw [normalizeFrames, filterMap_eq_nil_iff.mpr, take_nil]
    intro frame hframe
    rcases h with h | h
    · exact normalizeFrame_of_driverKind (kind_of_seesFrame h frame hframe)
    · rw [isHarnessScaffoldingLeak, Bool.and_eq_true] at h
      exact normalizeFrame_of_leakKind (kind_of_seesFrame h.2 frame hframe)
  rw [clusterForSanitizer, hframes]
  exact ⟨rfl, rfl⟩

theorem normalizeFrames_fuzzer_loop :
    normalizeFrames ["fuzzer::RunOneTest(char const*)", "main"] = [] :=
  (normalizeFrames_of_suppressed (fun _ ↦ "") ⟨none, ["fuzzer::RunOneTest(char const*)", "main"]⟩
    (.inl (by decide +kernel))).1

end Bhf.Corpus
