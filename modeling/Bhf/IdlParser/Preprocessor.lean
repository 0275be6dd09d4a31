import Bhf.IdlParser.Expression
import Bhf.Lib.StateExcept

/-!
# The preprocessor

A source is processed logical line by logical line. A directive changes the macros or the stack of
open conditionals, or includes a file; any other line is expanded and emitted, if it is active.
**Every logical line leaves one output line**, which may be empty.

The state is the one the source keeps in `Preprocessor`; what does not change during a run is in
`Config`, with the file system as a parameter. The open conditionals are listed innermost first.
-/

namespace Bhf.IdlParser

open StateExcept

/-! ### Errors -/

structure Span where
  start : ℕ := 0
  stop : ℕ := 0
  line : ℕ
  column : ℕ
  deriving DecidableEq

structure IdlParseError where
  message : Text
  span : Span
  deriving DecidableEq

/-- The decimal form of a number. -/
def decimal (n : ℕ) : Text :=
  n.repr.toList

/-- The display form of an error. -/
def IdlParseError.display (error : IdlParseError) : Text :=
  error.message ++ " at line ".toList ++ decimal error.span.line ++ ", column ".toList ++
    decimal error.span.column

/-- An error about a line. -/
def lineError (lineNo : ℕ) (message : Text) : IdlParseError :=
  ⟨message, { line := lineNo, column := 1 }⟩

/-! ### State -/

inductive RecoveryMode where
  | strict
  | recover

structure ConditionalFrame where
  parentActive : Bool
  conditionActive : Bool
  seenElse : Bool := false

/-- The file system, with paths as texts. -/
structure Files where
  canonicalize : Text → Text
  parent : Text → Option Text
  join : Text → Text → Text
  isFile : Text → Bool
  read : Text → Except Text Text

structure Config where
  files : Files
  includeDirs : List Text := []
  recovery : RecoveryMode := .strict
  passthroughIncludes : Bool := false
  trackLines : Bool := false

structure PreState where
  defines : Defines := ∅
  frames : List ConditionalFrame := []
  includeStack : List Text := []
  lineMap : List ℕ := []

abbrev Pre : Type → Type :=
  StateExcept IdlParseError PreState

def ConditionalFrame.active (frame : ConditionalFrame) : Bool :=
  frame.parentActive && frame.conditionActive

/-- Text counts where no conditional is open, and where the innermost one is taken. -/
def isActive (state : PreState) : Bool :=
  state.frames.head?.all ConditionalFrame.active

/-! ### Directives -/

inductive Directive where
  | define
  | undef
  | ifdef
  | ifndef
  | ifExpr
  | elseBranch
  | endif
  | includeFile
  | pragma
  | unsupported (name : Text)
  deriving DecidableEq

def Directive.ofName (name : Text) : Directive :=
  if name = "define".toList then .define
  else if name = "undef".toList then .undef
  else if name = "ifdef".toList then .ifdef
  else if name = "ifndef".toList then .ifndef
  else if name = "if".toList then .ifExpr
  else if name = "else".toList then .elseBranch
  else if name = "endif".toList then .endif
  else if name = "include".toList then .includeFile
  else if name = "pragma".toList then .pragma
  else .unsupported name

def isDirective (line : Text) : Bool :=
  (trimStart line).head? == some '#'

/-- The name of a directive and what follows it, if there is a name after the `#`. -/
def splitDirective (line : Text) : Option (Text × Text) :=
  readIdentifier (trimStart (trimStart line).tail)

/-- Replace each occurrence of a character. -/
def replaceChar (c : Char) (by_ : Text) (text : Text) : Text :=
  text.flatMap fun d ↦ if d = c then by_ else [d]

/-- A diagnostic, as the pragma that is emitted for it. -/
def warningPragma (message : Text) : Text :=
  "#pragma bhf_warning \"".toList ++
    replaceChar '"' "\"\"".toList (replaceChar '\\' "\\\\".toList message) ++ "\"".toList

/-- The identifier a directive takes. -/
def parseDirectiveIdentifier (payload : Text) (lineNo : ℕ) : Except IdlParseError Text :=
  match readIdentifier (trimStart payload) with
  | none => .error (lineError lineNo "expected identifier in preprocessor directive".toList)
  | some (name, rest) =>
    if isBlank rest then .ok name
    else .error (lineError lineNo "unexpected trailing tokens in preprocessor directive".toList)

/-- Stop with an error, or go on with a value. -/
def orThrow {α : Type} : Except IdlParseError α → Pre α
  | .ok a => pure a
  | .error e => throw e

def modifyDefines (f : Defines → Defines) : Pre PUnit :=
  modify fun state ↦ { state with defines := f state.defines }

def pushFrame (frame : ConditionalFrame) : Pre PUnit :=
  modify fun state ↦ { state with frames := frame :: state.frames }

/-- The macro a `#define` line defines. -/
def parseMacro (payload : Text) (lineNo : ℕ) : Except IdlParseError (Text × Text) :=
  match readIdentifier (trimStart payload) with
  | none => .error (lineError lineNo "expected macro name after #define".toList)
  | some (name, replacement) =>
    if replacement.head? = some '(' then
      .error (lineError lineNo "function-like macros are unsupported".toList)
    else
      .ok (name, trimStart replacement)

def processDefine (config : Config) (payload : Text) (lineNo : ℕ) : Pre (Option Text) := do
  if isActive (← get) then
    match parseMacro payload lineNo with
    | .ok (name, replacement) =>
      modifyDefines (·.insert name replacement)
      return none
    | .error error =>
      match config.recovery with
      | .recover =>
        return some (warningPragma ("unsupported macro definition ignored at line ".toList ++
          decimal lineNo ++ ": ".toList ++ error.message))
      | .strict => throw error
  else
    return none

def processUndef (payload : Text) (lineNo : ℕ) : Pre (Option Text) := do
  if isActive (← get) then
    let name ← orThrow (parseDirectiveIdentifier payload lineNo)
    modifyDefines (·.erase name)
    return none
  else
    return none

/-- `#ifdef` and `#ifndef`: the conditional is taken if the name is defined, or is not. -/
def processIfdef (expected : Bool) (payload : Text) (lineNo : ℕ) : Pre (Option Text) := do
  let name ← orThrow (parseDirectiveIdentifier payload lineNo)
  let state ← get
  pushFrame {
    parentActive := isActive state
    conditionActive := (state.defines.lookup name).isSome == expected }
  return none

def processIf (config : Config) (payload : Text) (lineNo : ℕ) : Pre (Option Text) := do
  let state ← get
  let parentActive := isActive state
  if parentActive then
    match evalIfExpression (stripTrailingComment payload) state.defines with
    | .ok active =>
      pushFrame { parentActive := parentActive, conditionActive := active }
      return none
    | .error error =>
      match config.recovery with
      | .recover =>
        pushFrame { parentActive := parentActive, conditionActive := false }
        return some (warningPragma ("unsupported #if expression treated as inactive at line ".toList
          ++ decimal lineNo ++ ": ".toList ++ error))
      | .strict => throw (lineError lineNo error)
  else
    pushFrame { parentActive := parentActive, conditionActive := false }
    return none

/-- A conditional has to be open in the source itself, not only around its inclusion. -/
def processElse (payload : Text) (lineNo depthAtEntry : ℕ) : Pre (Option Text) := do
  if !isBlank payload then
    throw (lineError lineNo "#else does not take arguments".toList)
  else
    let state ← get
    match state.frames with
    | [] => throw (lineError lineNo "unmatched #else".toList)
    | frame :: frames =>
      if state.frames.length = depthAtEntry then
        throw (lineError lineNo "unmatched #else".toList)
      else if frame.seenElse then
        throw (lineError lineNo "duplicate #else".toList)
      else
        set { state with frames :=
          { frame with
            seenElse := true
            conditionActive := !frame.conditionActive } :: frames }
        return none

def processEndif (payload : Text) (lineNo depthAtEntry : ℕ) : Pre (Option Text) := do
  if !isBlank payload then
    throw (lineError lineNo "#endif does not take arguments".toList)
  else
    let state ← get
    if state.frames.length = depthAtEntry then
      throw (lineError lineNo "unmatched #endif".toList)
    else
      set { state with frames := state.frames.tail }
      return none

/-! ### Includes -/

inductive IncludeKind where
  | quoted
  | angle
  deriving DecidableEq

structure IncludePath where
  kind : IncludeKind
  path : Text

/-- An include path between its delimiters; `none` if it is not opened by this one. -/
def parseDelimitedInclude (payload : Text) (opener closer : Char) (lineNo : ℕ) :
    Except IdlParseError (Option Text) :=
  match payload with
  | [] => .ok none
  | first :: rest =>
    if first ≠ opener then
      .ok none
    else if closer ∉ rest then
      .error (lineError lineNo "unterminated include path".toList)
    else if !isBlank (rest.dropWhile (· != closer)).tail then
      .error (lineError lineNo "unexpected trailing tokens after include path".toList)
    else if rest.takeWhile (· != closer) = [] then
      .error (lineError lineNo "empty include path".toList)
    else
      .ok (some (rest.takeWhile (· != closer)))

def parseInclude (payload : Text) (lineNo : ℕ) : Except IdlParseError IncludePath :=
  let payload := trimEnd (trimStart (stripTrailingComment payload))
  match parseDelimitedInclude payload '"' '"' lineNo with
  | .error e => .error e
  | .ok (some path) => .ok ⟨.quoted, path⟩
  | .ok none =>
    match parseDelimitedInclude payload '<' '>' lineNo with
    | .error e => .error e
    | .ok (some path) => .ok ⟨.angle, path⟩
    | .ok none =>
      .error (lineError lineNo "expected quoted or angle-bracket include path".toList)

/-- Where an include is looked for, in order. -/
def candidates (config : Config) (currentFile : Text) (include_ : IncludePath) : List Text :=
  (match include_.kind with
    | .quoted =>
      [config.files.join ((config.files.parent currentFile).getD ".".toList) include_.path]
    | .angle => []) ++ config.includeDirs.map fun dir ↦ config.files.join dir include_.path

def resolveInclude (config : Config) (currentFile : Text) (include_ : IncludePath) (lineNo : ℕ) :
    Except IdlParseError Text :=
  match (candidates config currentFile include_).find? config.files.isFile with
  | some path => .ok path
  | none =>
    if include_.kind = .angle ∧ config.includeDirs = [] then
      .error (lineError lineNo ("include <".toList ++ include_.path ++
        "> requires at least one configured IDL include directory".toList))
    else
      .error (lineError lineNo ("include '".toList ++ include_.path ++
        "' not found; searched ".toList ++
        ", ".toList.intercalate (candidates config currentFile include_)))

/-- `processFile` is the processing of an included file. -/
def processInclude (config : Config) (processFile : Text → Pre Text) (line payload : Text)
    (lineNo : ℕ) (currentFile : Option Text) : Pre (Option Text) := do
  let active := isActive (← get)
  if config.passthroughIncludes then
    return if active then some (trimStart line) else none
  else if active then
    match currentFile with
    | none => throw (lineError lineNo "#include requires parse_idl_file".toList)
    | some currentFile =>
      let include_ ← orThrow (parseInclude payload lineNo)
      match resolveInclude config currentFile include_ lineNo with
      | .ok resolved => return some (← processFile resolved)
      | .error error =>
        match config.recovery with
        | .recover => return some (warningPragma error.display)
        | .strict => throw error
  else
    return none

/-! ### Lines -/

/-- What surrounds the lines of a source: the file it is, the conditionals that were open when it
was entered, and how a file it includes is processed. -/
structure Context where
  config : Config
  processFile : Text → Pre Text
  currentFile : Option Text
  depthAtEntry : ℕ

def processPragma (line : Text) : Pre (Option Text) := do
  return if isActive (← get) then some (trimStart line) else none

/-- A directive that is none of those above is reported whether it is active or not. -/
def processUnsupported (config : Config) (name : Text) (lineNo : ℕ) : Pre (Option Text) :=
  match config.recovery with
  | .recover => return some (warningPragma ("unsupported directive '#".toList ++ name ++
      "' ignored at line ".toList ++ decimal lineNo))
  | .strict => throw (lineError lineNo ("unsupported directive '#".toList ++ name ++ "'".toList))

def processDirective (context : Context) (line : Text) (lineNo : ℕ) : Pre (Option Text) :=
  match splitDirective line with
  | none => throw (lineError lineNo "expected preprocessor directive".toList)
  | some (name, payload) =>
    match Directive.ofName name with
    | .define => processDefine context.config payload lineNo
    | .undef => processUndef payload lineNo
    | .ifdef => processIfdef true payload lineNo
    | .ifndef => processIfdef false payload lineNo
    | .ifExpr => processIf context.config payload lineNo
    | .elseBranch => processElse payload lineNo context.depthAtEntry
    | .endif => processEndif payload lineNo context.depthAtEntry
    | .includeFile =>
      processInclude context.config context.processFile line payload lineNo context.currentFile
    | .pragma => processPragma line
    | .unsupported name => processUnsupported context.config name lineNo

/-- Record the number of a line, if lines are tracked. -/
def trackLine (config : Config) (lineNo : ℕ) : Pre PUnit :=
  modify fun state ↦
    if config.trackLines then { state with lineMap := state.lineMap ++ [lineNo] } else state

/-- What a line leaves in the output. -/
def processLine (context : Context) (line : LogicalLine) : Pre Text := do
  trackLine context.config line.lineNo
  if isDirective line.text then
    return (← processDirective context line.text line.lineNo).getD []
  else
    let state ← get
    return if isActive state then expandLine state.defines line.text else []

def lineBreak (hasNewline : Bool) : Text :=
  if hasNewline then ['\n'] else []

def processLines (context : Context) : List LogicalLine → Pre Text
  | [] => return []
  | line :: lines => do
    let emitted ← processLine context line
    let rest ← processLines context lines
    return emitted ++ lineBreak line.hasNewline ++ rest

/-- A source has to close the conditionals it opens; the error names its last line. -/
def closeFrames (depthAtEntry lineCount : ℕ) : Pre PUnit := do
  let state ← get
  if state.frames.length > depthAtEntry then
    set { state with frames := state.frames.drop (state.frames.length - depthAtEntry) }
    throw (lineError (max lineCount 1) "missing #endif".toList)
  else
    return ⟨⟩

/-- Process a source, given by its logical lines and the number of its physical ones. -/
def processLogical (config : Config) (processFile : Text → Pre Text) (lines : List LogicalLine)
    (lineCount : ℕ) (currentFile : Option Text) : Pre Text := do
  let depthAtEntry := (← get).frames.length
  let output ← processLines ⟨config, processFile, currentFile, depthAtEntry⟩ lines
  closeFrames depthAtEntry lineCount
  return output

def processSource (config : Config) (processFile : Text → Pre Text) (source : Text)
    (currentFile : Option Text) : Pre Text :=
  processLogical config processFile (logicalLines source) (physicalLines source).length currentFile

/-! ### Files -/

/-- How deep files may include each other. -/
def maxIncludeDepth : ℕ :=
  32

/-- Process a file at a depth from which so many more inclusions are allowed. -/
def processFile (config : Config) : ℕ → Text → Pre Text
  | 0, _ => throw ⟨"maximum include depth exceeded".toList, { line := 1, column := 1 }⟩
  | left + 1, path => do
    let normalized := config.files.canonicalize path
    if normalized ∈ (← get).includeStack then
      throw ⟨"include cycle involving ".toList ++ normalized, { line := 1, column := 1 }⟩
    else
      match config.files.read normalized with
      | .error error =>
        throw ⟨"read ".toList ++ path ++ ": ".toList ++ error, { line := 1, column := 1 }⟩
      | .ok source =>
        modify fun state ↦ { state with includeStack := normalized :: state.includeStack }
        let pop : Pre PUnit :=
          modify fun state ↦ { state with includeStack := state.includeStack.tail }
        let output ← tryCatch
          (processSource config (processFile config left) source (some normalized)) fun error ↦ do
            pop
            throw error
        pop
        return output

/-- Process a source that is in no file. -/
def preprocessSource (config : Config) (source : Text) : Pre Text :=
  processSource config (processFile config (maxIncludeDepth + 1)) source none

/-- Process a file and what it includes. -/
def preprocessFile (config : Config) (path : Text) : Pre Text :=
  processFile config (maxIncludeDepth + 1) path

/-! ### Runs over a line -/

/-- The state after the number of a line was recorded. -/
def tracked (config : Config) (lineNo : ℕ) (state : PreState) : PreState :=
  (exec (trackLine config lineNo) state).2

theorem frames_trackLine (config : Config) (lineNo : ℕ) (state : PreState) :
    (exec (trackLine config lineNo) state).2.frames = state.frames := by
  show (if config.trackLines then _ else _ : PreState).frames = _
  split <;> rfl

theorem isActive_tracked (config : Config) (lineNo : ℕ) (state : PreState) :
    isActive (tracked config lineNo state) = isActive state := by
  rw [isActive, tracked, frames_trackLine]
  rfl

variable {context : Context} {state : PreState} {line : LogicalLine}

theorem exec_processLine_of_directive (h : isDirective line.text) :
    exec (processLine context line) state =
      exec (do return (← processDirective context line.text line.lineNo).getD [])
        (tracked context.config line.lineNo state) := by
  show exec (if isDirective line.text then _ else _) _ = _
  rw [if_pos h]
  rfl

theorem exec_processLine_of_text (h : isDirective line.text = false) :
    exec (processLine context line) state =
      (.ok (if isActive state then
          expandLine (tracked context.config line.lineNo state).defines line.text else []),
        tracked context.config line.lineNo state) := by
  show exec (if isDirective line.text then _ else _) _ = _
  rw [h, ← isActive_tracked context.config line.lineNo state]
  rfl

/-- A file system without files. -/
def noFiles : Files :=
  ⟨id, fun _ ↦ none, fun dir path ↦ dir ++ path, fun _ ↦ false, fun _ ↦ .error []⟩

end Bhf.IdlParser
