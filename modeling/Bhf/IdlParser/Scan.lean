import Bhf.Lib.Text
import Bhf.Lib.Cut
import Mathlib.Data.List.AList
import Mathlib.Data.List.DropRight
import Mathlib.Data.Int.Cast.Lemmas

/-!
# Scanning lines of source text

The character-level parts of the preprocessor: white space, identifiers, literals, comments, and the
**logical lines** of a source, in which a line that ends in a backslash is joined to the next one.

A logical line carries the number of its first physical line, its text, and whether a line break
ends it.
-/

namespace Bhf.IdlParser

/-- Texts are handled character by character. -/
abbrev Text : Type :=
  List Char

/-! ### Characters -/

def trimStart (text : Text) : Text :=
  text.dropWhile isWhitespace

def trimEnd (text : Text) : Text :=
  text.rdropWhile isWhitespace

/-- An ASCII letter or an underscore. -/
def isIdentifierStart (c : Char) : Bool :=
  c.isAlpha || c == '_'

/-- An ASCII letter, a digit or an underscore. -/
def isIdentifierContinue (c : Char) : Bool :=
  c.isAlphanum || c == '_'

/-- The identifier a text begins with, and what follows it. -/
def readIdentifier : Text → Option (Text × Text)
  | [] => none
  | first :: rest =>
    if isIdentifierStart first then
      some (first :: rest.takeWhile isIdentifierContinue, rest.dropWhile isIdentifierContinue)
    else
      none

def isQuote (c : Char) : Bool :=
  c == '"' || c == '\''

/-- Where a scan stands: outside literals, or inside one opened by a quote, with the next character
escaped or not. -/
inductive Scan where
  | outside
  | literal (quote : Char) (escaped : Bool)

/-- The scan after a character of a literal. -/
def Scan.next (quote : Char) (escaped : Bool) (c : Char) : Scan :=
  if escaped then .literal quote false
  else if c == '\\' then .literal quote true
  else if c == quote then .outside
  else .literal quote false

/-- Cut a text where a comment begins that is not inside a literal. -/
def stripCommentFrom : Scan → Text → Text
  | _, [] => []
  | .outside, c :: rest =>
    if isQuote c then
      c :: stripCommentFrom (.literal c false) rest
    else if c == '/' && (rest.head? == some '/' || rest.head? == some '*') then
      []
    else
      c :: stripCommentFrom .outside rest
  | .literal quote escaped, c :: rest => c :: stripCommentFrom (.next quote escaped c) rest

def stripTrailingComment (payload : Text) : Text :=
  stripCommentFrom .outside payload

/-- Only white space, up to a comment. -/
def isBlank (payload : Text) : Bool :=
  (stripTrailingComment payload).all isWhitespace

theorem isPrefix_stripCommentFrom (scan : Scan) (text : Text) :
    stripCommentFrom scan text <+: text := by
  induction text generalizing scan with
  | nil => cases scan <;> exact List.prefix_rfl
  | cons c text ih =>
    cases scan with
    | outside =>
      rw [stripCommentFrom]
      split
      · exact List.cons_prefix_cons.mpr ⟨rfl, ih _⟩
      · split
        · exact List.nil_prefix
        · exact List.cons_prefix_cons.mpr ⟨rfl, ih _⟩
    | literal quote escaped => exact List.cons_prefix_cons.mpr ⟨rfl, ih _⟩

theorem readIdentifier_eq_append {text name rest : Text}
    (h : readIdentifier text = some (name, rest)) : text = name ++ rest := by
  cases text with
  | nil => simp [readIdentifier] at h
  | cons first text =>
    rw [readIdentifier] at h
    split at h
    · obtain ⟨⟩ := h
      rw [List.cons_append, List.takeWhile_append_dropWhile]
    · simp at h

/-! ### Logical lines -/

/-- A line that ends in a backslash, white space aside, goes on in the next one. -/
def continues (line : Text) : Bool :=
  (trimEnd line).getLast? == some '\\'

/-- A continued line up to its last backslash. -/
def segment (line : Text) : Text :=
  trimEnd (line.rdropWhile (· != '\\')).dropLast

structure LogicalLine where
  lineNo : ℕ
  text : Text
  hasNewline : Bool
  deriving DecidableEq

/-- Join the physical lines from number `lineNo` on. `pending` is the logical line that is being
continued, if there is one. -/
def joinLines (lineNo : ℕ) : Option LogicalLine → List (Text × Bool) → List LogicalLine
  | none, [] => []
  | some pending, [] => [pending]
  | none, (line, hasNewline) :: rest =>
    if continues line then
      joinLines (lineNo + 1) (some ⟨lineNo, segment line ++ [' '], hasNewline⟩) rest
    else
      ⟨lineNo, line, hasNewline⟩ :: joinLines (lineNo + 1) none rest
  | some pending, (line, hasNewline) :: rest =>
    if continues line then
      joinLines (lineNo + 1)
        (some ⟨pending.lineNo, pending.text ++ segment line ++ [' '], hasNewline⟩) rest
    else
      ⟨pending.lineNo, pending.text ++ line, hasNewline⟩ :: joinLines (lineNo + 1) none rest

/-- The lines of a source, without their line breaks. -/
def physicalLines (source : Text) : List (Text × Bool) :=
  cutAfter '\n' source

def logicalLines (source : Text) : List LogicalLine :=
  joinLines 1 none (physicalLines source)

example : logicalLines "a \\\n b\nc".toList =
    [⟨1, "a  b".toList, true⟩, ⟨3, "c".toList, false⟩] := by decide +kernel

/-! ### Macro expansion -/

/-- The macros defined, with their replacements. -/
abbrev Defines : Type :=
  AList fun _ : Text ↦ Text

/-- What an identifier stands for. -/
def Defines.expand (defines : Defines) (name : Text) : Text :=
  (defines.lookup name).getD name

/-- Expand the macros of a line. `word` is the identifier that is being read, if there is one; the
line is copied inside literals. -/
def expandFrom (defines : Defines) : Scan → Text → Text → Text
  | _, word, [] => if word.isEmpty then [] else defines.expand word
  | .literal quote escaped, _, c :: rest =>
    c :: expandFrom defines (.next quote escaped c) [] rest
  | .outside, word, c :: rest =>
    if !word.isEmpty && isIdentifierContinue c then
      expandFrom defines .outside (word ++ [c]) rest
    else
      (if word.isEmpty then [] else defines.expand word) ++
        if isQuote c then
          c :: expandFrom defines (.literal c false) [] rest
        else if isIdentifierStart c then
          expandFrom defines .outside [c] rest
        else
          c :: expandFrom defines .outside [] rest

def expandLine (defines : Defines) (line : Text) : Text :=
  expandFrom defines .outside [] line

end Bhf.IdlParser
