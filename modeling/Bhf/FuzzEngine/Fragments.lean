import Bhf.Lib.Spans
import Mathlib.Data.List.Basic

/-!
# Fragments of structured inputs

A dictionary token becomes part of a structured input by an encoder that knows the format and a
budget. The encoders have one shape: they go through the token, append something for each byte and
stop when the budget does not allow more (`pushWhile`); most put a fallback byte where nothing came
out. They differ in what they append and in how they look at the budget, which is checked before a
byte is encoded, after, or by the encoder of the byte itself.

The one thing proved about all of them here is that **a fragment stays within its budget**, whatever
the token. It is an invariant of the loop, so each encoder only owes it for one byte.
-/

namespace Bhf.FuzzEngine

open List

/-! ### Bytes -/

/-- The code of an ASCII character. -/
def byte (c : Char) : UInt8 :=
  UInt8.ofNat c.toNat

/-- The codes of ASCII text. -/
def bytes (s : String) : Bytes :=
  s.toList.map byte

def quote : UInt8 := 0x22
def apostrophe : UInt8 := 0x27
def backslash : UInt8 := 0x5c
def newline : UInt8 := 0x0a
def carriageReturn : UInt8 := 0x0d
def tab : UInt8 := 0x09

def isLineBreak (b : UInt8) : Bool :=
  b = newline || b = carriageReturn

def isBlank (b : UInt8) : Bool :=
  b = byte ' ' || b = tab

def isPrintable (b : UInt8) : Bool :=
  0x20 ≤ b && b ≤ 0x7e

def isAlphabetic (b : UInt8) : Bool :=
  (byte 'A' ≤ b && b ≤ byte 'Z') || (byte 'a' ≤ b && b ≤ byte 'z')

def isDigit (b : UInt8) : Bool :=
  byte '0' ≤ b && b ≤ byte '9'

/-! ### The loop over a token -/

/-- Go through a token and append, until `step` says to stop. -/
def pushWhile (step : Bytes → UInt8 → Option Bytes) :
    Bytes → Bytes → Bytes
  | output, [] => output
  | output, b :: token =>
    match step output b with
    | none => output
    | some output' => pushWhile step output' token

/-- What one byte keeps is kept by the loop. -/
theorem pushWhile_invariant {step : Bytes → UInt8 → Option Bytes}
    {I : Bytes → Prop} (hstep : ∀ output b output', I output → step output b = some output' →
      I output') (token output : Bytes) (h : I output) : I (pushWhile step output token) := by
  induction token generalizing output with
  | nil => exact h
  | cons b token ih =>
    rw [pushWhile]
    split
    · exact h
    · next output' hb => exact ih output' (hstep output b output' h hb)

/-- A bound that one byte keeps is kept by the loop. -/
theorem length_pushWhile_le {step : Bytes → UInt8 → Option Bytes} {n : ℕ}
    (hstep : ∀ output b output', output.length ≤ n → step output b = some output' →
      output'.length ≤ n) (token output : Bytes) (h : output.length ≤ n) :
    (pushWhile step output token).length ≤ n :=
  pushWhile_invariant (I := fun output ↦ output.length ≤ n) hstep token output h

/-- Append what a byte is written as, unless it does not fit together with `reserve` bytes. -/
def appending (encode : UInt8 → Bytes) (reserve maxLen : ℕ) (output : Bytes)
    (b : UInt8) : Option Bytes :=
  if maxLen < output.length + (encode b).length + reserve then none
  else some (output ++ encode b)

/-- Let `push` deal with a byte, unless the output is full. -/
def pushing (push : Bytes → UInt8 → Bytes) (maxLen : ℕ) (output : Bytes)
    (b : UInt8) : Option Bytes :=
  if maxLen ≤ output.length then none else some (push output b)

/-- Append one byte for a byte; the first may be treated differently. -/
def translated (translate : Bool → UInt8 → UInt8) (output : Bytes) (b : UInt8) : Bytes :=
  output ++ [translate output.isEmpty b]

/-- A fallback where nothing came out. -/
def orByte (fallback : UInt8) (output : Bytes) : Bytes :=
  if output.isEmpty then [fallback] else output

variable {maxLen : ℕ} {output : Bytes}

theorem length_appending_le {encode : UInt8 → Bytes} {reserve : ℕ}
    {output' : Bytes} {b : UInt8}
    (h : appending encode reserve maxLen output b = some output') :
    output'.length + reserve ≤ maxLen := by
  rw [appending] at h
  split at h
  · simp at h
  · obtain ⟨⟩ := h
    rw [length_append]
    omega

theorem length_orByte_le {fallback : UInt8} (hmax : maxLen ≠ 0) (h : output.length ≤ maxLen) :
    (orByte fallback output).length ≤ maxLen := by
  rw [orByte]
  split
  · exact Nat.one_le_iff_ne_zero.2 hmax
  · exact h

/-! ### JSON and XML -/

def lowerHexDigit (n : UInt8) : UInt8 :=
  (bytes "0123456789abcdef").getD n.toNat 0

def jsonEscape (b : UInt8) : Bytes :=
  if b = quote then [backslash, quote]
  else if b = backslash then [backslash, backslash]
  else if b = newline then [backslash, byte 'n']
  else if b = carriageReturn then [backslash, byte 'r']
  else if b = tab then [backslash, byte 't']
  else if b = 0x08 then [backslash, byte 'b']
  else if b = 0x0c then [backslash, byte 'f']
  else if isPrintable b then [b]
  else
    [backslash, byte 'u', byte '0', byte '0', lowerHexDigit (b >>> 4), lowerHexDigit (b &&& 0x0f)]

variable (token : Bytes) (maxLen : ℕ)

def jsonEscapedFragment : Bytes :=
  pushWhile (appending jsonEscape 0 maxLen) [] token

def xmlNameByte (isFirst : Bool) (b : UInt8) : UInt8 :=
  if isAlphabetic b || b = byte '_' then b
  else if (isDigit b || b = byte '-' || b = byte '.') && !isFirst then b
  else if isBlank b && !isFirst then byte '_'
  else if isFirst then byte 'x'
  else byte '_'

def xmlNameFragment : Option Bytes :=
  if maxLen = 0 then none
  else some (orByte (byte 'x') (pushWhile (pushing (translated xmlNameByte) maxLen) [] token))

def xmlEscape (b : UInt8) : Bytes :=
  if b = byte '&' then bytes "&amp;"
  else if b = byte '<' then bytes "&lt;"
  else if b = byte '>' then bytes "&gt;"
  else if b = quote then bytes "&quot;"
  else if b = apostrophe then bytes "&apos;"
  else if isLineBreak b || b = tab then bytes " "
  else if isPrintable b then [b]
  else bytes "_"

def xmlTextFragment : Option Bytes :=
  if maxLen = 0 then none
  else some (orByte (byte 'x') (pushWhile (appending xmlEscape 0 maxLen) [] token))

/-! ### Keys, values and URLs -/

def pushKeyValueByte (output : Bytes) (b : UInt8) (maxLen : ℕ) : Bytes :=
  if output.length < maxLen then output ++ [b] else output

def upperHexDigit (n : UInt8) : UInt8 :=
  (bytes "0123456789ABCDEF").getD n.toNat 0

def pushPercentEncoded (output : Bytes) (b : UInt8) (maxLen : ℕ) : Bytes :=
  if maxLen < output.length + 3 then output
  else output ++ [byte '%', upperHexDigit (b >>> 4), upperHexDigit (b &&& 0x0f)]

inductive KeyValueFragmentRole
  | key
  | value
  deriving DecidableEq

def pushKeyValue (role : KeyValueFragmentRole) (maxLen : ℕ) (output : Bytes) (b : UInt8) : Bytes :=
  if isLineBreak b then pushKeyValueByte output (byte '_') maxLen
  else if role = .key && (b = byte '=' || b = byte ':') then
    pushKeyValueByte output (byte '_') maxLen
  else if role = .key && isBlank b then pushKeyValueByte output (byte '_') maxLen
  else if (role = .key && 0x21 ≤ b && b ≤ 0x7e) || (role = .value && isPrintable b) then
    pushKeyValueByte output b maxLen
  else pushPercentEncoded output b maxLen

def KeyValueFragmentRole.fallback : KeyValueFragmentRole → UInt8
  | .key => byte 'k'
  | .value => byte 'v'

def keyValueFragment (role : KeyValueFragmentRole) : Option Bytes :=
  if maxLen = 0 then none
  else some (orByte role.fallback (pushWhile (pushing (pushKeyValue role maxLen) maxLen) [] token))

/-- Bytes that stand for themselves are kept, blanks replaced, everything else percent-encoded. -/
def pushUnreserved (blank : UInt8) (maxLen : ℕ) (output : Bytes) (b : UInt8) : Bytes :=
  if isAlphabetic b || isDigit b || b = byte '-' || b = byte '_' || b = byte '.' ||
      b = byte '~' then
    pushKeyValueByte output b maxLen
  else if isBlank b then pushKeyValueByte output blank maxLen
  else pushPercentEncoded output b maxLen

def urlEncodedFragment : Option Bytes :=
  if maxLen = 0 then none
  else
    some (orByte (byte 'x')
      (pushWhile (pushing (pushUnreserved (byte '+') maxLen) maxLen) [] token))

def multipartNameFragment : Option Bytes :=
  if maxLen = 0 then none
  else
    some (orByte (byte 'f')
      (pushWhile (pushing (pushUnreserved (byte '_') maxLen) maxLen) [] token))

def multipartValueFragment : Option Bytes :=
  keyValueFragment token maxLen .value

/-! ### CSV -/

def csvNeedsQuotes (token : Bytes) : Bool :=
  token.any fun b ↦ b = byte ',' || b = quote || isLineBreak b

def csvQuotedByte (b : UInt8) : Bytes :=
  if b = quote then [quote, quote]
  else if isLineBreak b then bytes " "
  else if isPrintable b then [b]
  else bytes "_"

def csvPlainByte (_isFirst : Bool) (b : UInt8) : UInt8 :=
  if b = byte ',' || b = quote || isLineBreak b || b = tab then byte '_'
  else if isPrintable b then b
  else byte '_'

def csvQuotedCell : Bytes :=
  -- one byte is kept for the closing quote
  let output := pushWhile (appending csvQuotedByte 1 maxLen) [quote] token
  let output :=
    if output.length = 1 && output.length + 2 ≤ maxLen then output ++ [byte 'x'] else output
  output ++ [quote]

def csvCellFragment : Option Bytes :=
  if maxLen = 0 then none
  else if csvNeedsQuotes token && 3 ≤ maxLen then some (csvQuotedCell token maxLen)
  else some (orByte (byte 'x') (pushWhile (pushing (translated csvPlainByte) maxLen) [] token))

/-! ### HTTP and INI -/

def httpPathFragment : Option Bytes :=
  urlEncodedFragment token maxLen

def httpHeaderByte (_isFirst : Bool) (b : UInt8) : UInt8 :=
  if isLineBreak b || b = tab then byte '_'
  else if isPrintable b then b
  else byte '_'

def httpHeaderValueFragment : Option Bytes :=
  if maxLen = 0 then none
  else some (orByte (byte 'h') (pushWhile (pushing (translated httpHeaderByte) maxLen) [] token))

def httpBodyByte (_isFirst : Bool) (b : UInt8) : UInt8 :=
  if isLineBreak b then byte ' '
  else if isPrintable b then b
  else byte '_'

def httpBodyFragment : Bytes :=
  pushWhile (pushing (translated httpBodyByte) maxLen) [] token

def iniNameByte (isFirst : Bool) (b : UInt8) : UInt8 :=
  if isAlphabetic b || isDigit b || b = byte '_' || b = byte '-' || b = byte '.' then b
  else if isBlank b then byte '_'
  else if isFirst then byte 'x'
  else byte '_'

def iniNameFragment : Option Bytes :=
  if maxLen = 0 then none
  else some (orByte (byte 'x') (pushWhile (pushing (translated iniNameByte) maxLen) [] token))

def iniValueFragment : Option Bytes :=
  keyValueFragment token maxLen .value

/-! ### TOML -/

def tomlBareKeyByte (isFirst : Bool) (b : UInt8) : UInt8 :=
  if isAlphabetic b || isDigit b || b = byte '_' || b = byte '-' then b
  else if isBlank b || b = byte '.' then byte '_'
  else if isFirst then byte 'x'
  else byte '_'

def tomlBareKeyFragment : Option Bytes :=
  if maxLen = 0 then none
  else some (orByte (byte 'x') (pushWhile (pushing (translated tomlBareKeyByte) maxLen) [] token))

/-- What a byte of a basic string is written as; an escape needs room for the closing quote. -/
def tomlStringByte (escapeFits : Bool) (b : UInt8) : Bytes :=
  if (b = quote || b = backslash) && escapeFits then [backslash, b]
  else if b = newline && escapeFits then [backslash, byte 'n']
  else if b = carriageReturn && escapeFits then [backslash, byte 'r']
  else if b = tab && escapeFits then [backslash, byte 't']
  else if isPrintable b then [b]
  else [byte '_']

def pushTomlString (maxLen : ℕ) (output : Bytes) (b : UInt8) : Option Bytes :=
  if maxLen ≤ output.length + 1 then none
  else some (output ++ tomlStringByte (output.length + 3 ≤ maxLen) b)

def tomlBasicStringFragment : Option Bytes :=
  if maxLen < 2 then none
  else
    let output := pushWhile (pushTomlString maxLen) [quote] token
    let output :=
      if output.length = 1 && output.length + 2 ≤ maxLen then output ++ [byte 'x'] else output
    some (output ++ [quote])

/-! ### Fragments stay within their budget -/

variable {token out : Bytes} {maxLen : ℕ}

theorem length_pushed_le {push : Bytes → UInt8 → Bytes}
    (hpush : ∀ output b, output.length < maxLen → (push output b).length ≤ maxLen) :
    (pushWhile (pushing push maxLen) [] token).length ≤ maxLen := by
  refine length_pushWhile_le (fun output b output' _ h ↦ ?_) token [] (Nat.zero_le _)
  rw [pushing] at h
  split at h
  · simp at h
  · next hroom =>
    obtain ⟨⟩ := h
    exact hpush _ _ (Nat.not_le.1 hroom)

/-- An encoder that gives up on an empty budget and has a fallback byte. -/
theorem length_le_of_orByte {fallback : UInt8} {inner : Bytes} (hinner : inner.length ≤ maxLen)
    (h : (if maxLen = 0 then none else some (orByte fallback inner)) = some out) :
    out.length ≤ maxLen := by
  split at h
  · simp at h
  · next hmax =>
    obtain ⟨⟩ := h
    exact length_orByte_le hmax hinner

theorem length_pushKeyValueByte_le (b : UInt8) (h : output.length ≤ maxLen) :
    (pushKeyValueByte output b maxLen).length ≤ maxLen := by
  rw [pushKeyValueByte]
  split
  · rw [length_append]
    assumption
  · exact h

theorem length_pushPercentEncoded_le (b : UInt8)
    (h : output.length ≤ maxLen) : (pushPercentEncoded output b maxLen).length ≤ maxLen := by
  rw [pushPercentEncoded]
  split
  · exact h
  · next hroom =>
    rw [length_append]
    exact Nat.not_lt.1 hroom

theorem length_jsonEscapedFragment_le : (jsonEscapedFragment token maxLen).length ≤ maxLen :=
  length_pushWhile_le (fun _ _ _ _ h ↦ length_appending_le h) token [] (Nat.zero_le _)

theorem length_keyValueFragment_le {role : KeyValueFragmentRole}
    (h : keyValueFragment token maxLen role = some out) : out.length ≤ maxLen := by
  refine length_le_of_orByte (length_pushed_le fun output b hlt ↦ ?_) h
  rw [pushKeyValue]
  repeat' split
  all_goals
    first
      | exact length_pushKeyValueByte_le _ (Nat.le_of_lt hlt)
      | exact length_pushPercentEncoded_le _ (Nat.le_of_lt hlt)

theorem length_urlEncodedFragment_le (h : urlEncodedFragment token maxLen = some out) :
    out.length ≤ maxLen := by
  refine length_le_of_orByte (length_pushed_le fun output b hlt ↦ ?_) h
  rw [pushUnreserved]
  split
  · exact length_pushKeyValueByte_le _ (Nat.le_of_lt hlt)
  · split
    · exact length_pushKeyValueByte_le _ (Nat.le_of_lt hlt)
    · exact length_pushPercentEncoded_le _ (Nat.le_of_lt hlt)

theorem length_csvQuotedCell_le (hmax : 3 ≤ maxLen) :
    (csvQuotedCell token maxLen).length ≤ maxLen := by
  have hbody :
      (pushWhile (appending csvQuotedByte 1 maxLen) [quote] token).length ≤ maxLen - 1 := by
    refine length_pushWhile_le (fun _ _ _ _ h ↦ ?_) token [quote] ?_
    · have := length_appending_le h
      omega
    · rw [length_singleton]
      omega
  rw [csvQuotedCell]
  split
  · next hfallback =>
    rw [Bool.and_eq_true, decide_eq_true_iff] at hfallback
    simp only [length_append, length_singleton]
    omega
  · simp only [length_append, length_singleton]
    omega

theorem length_csvCellFragment_le (h : csvCellFragment token maxLen = some out) :
    out.length ≤ maxLen := by
  rw [csvCellFragment] at h
  split at h
  · simp at h
  next hmax =>
  split at h
  · next hquotes =>
    obtain ⟨⟩ := h
    refine length_csvQuotedCell_le ?_
    simpa using (Bool.and_eq_true_iff.1 hquotes).2
  · obtain ⟨⟩ := h
    refine length_orByte_le hmax (length_pushed_le fun output b h ↦ ?_)
    rw [translated, length_append]
    exact h

end Bhf.FuzzEngine
