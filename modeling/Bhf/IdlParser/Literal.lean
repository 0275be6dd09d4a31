import Bhf.IdlParser.Expression

/-!
# Adjacent string literals

Adjacent string literals are one constant: their bodies are joined, and the escapes are decoded in
what results. A numeric escape takes as many digits as it can, so **an escape that is open where a
literal ends takes the digits the next one starts with** (`decode_parseStringLiteralRun_iff`).
-/

namespace Bhf.IdlParser

open List

/-! ### Tokens -/

/-- The body of a literal, and what follows the closing quote. -/
def lexString (quote : Char) : Bool → Text → Option (Text × Text)
  | _, [] => none
  | escaped, ch :: rest =>
    match Scan.next quote escaped ch with
    | .outside => some ([], rest)
    | .literal _ escaped => (lexString quote escaped rest).map fun (body, rest) ↦ (ch :: body, rest)

/-- A literal that the lexer accepts. -/
structure StringLiteral where
  quote : Char
  body : Text
  isQuote : isQuote quote
  lexed : ∃ source rest, lexString quote false source = some (body, rest)

def StringLiteral.text (literal : StringLiteral) : Text :=
  literal.quote :: (literal.body ++ [literal.quote])

def literalBody (text : Text) : Text :=
  match text with
  | [] => text
  | quote :: rest =>
    if !isQuote quote || rest.isEmpty || rest.getLast? != some quote then text else rest.dropLast

/-- The run is one literal, in the quotes of the first. -/
def parseStringLiteralRun (first : StringLiteral) (rest : List StringLiteral) : Text :=
  let quote := first.text.headD '"'
  quote :: (((first :: rest).flatMap fun literal ↦ literalBody literal.text) ++ [quote])

/-! ### Decoding -/

def toDigit (radix : ℕ) (ch : Char) : Option ℕ :=
  (digitValue ch).filter (· < radix)

def codePoint (value : ℕ) : Char :=
  if value.isValidChar then .ofNat value else '\ufffd'

/-- Where the decoder stands: behind a backslash, or behind digits of a numeric escape that takes
`left` more. -/
inductive Decoding where
  | plain
  | escape
  | digits (radix left : ℕ) (value : Option ℕ) (letter : Char)

def readPlain (ch : Char) : Text × Decoding :=
  if ch = '\\' then ([], .escape) else ([ch], .plain)

def simpleEscape : Char → Char
  | 'n' => '\n'
  | 't' => '\t'
  | 'v' => '\x0b'
  | 'b' => '\x08'
  | 'r' => '\r'
  | 'f' => '\x0c'
  | 'a' => '\x07'
  | ch => ch

def readEscape (ch : Char) : Text × Decoding :=
  if ch = 'x' then ([], .digits 16 2 none ch)
  else if ch = 'u' then ([], .digits 16 4 none ch)
  else match toDigit 8 ch with
    | some digit => ([], .digits 8 2 (some digit) ch)
    | none => ([simpleEscape ch], .plain)

namespace Decoding

/-- What is pushed where no digit follows. -/
def close : Decoding → Text
  | plain => []
  | escape => ['\\']
  | digits _ _ value letter => [(value.map codePoint).getD letter]

/-- The digit an open escape takes. -/
def takes : Decoding → Char → Option ℕ
  | digits radix (_ + 1) _ _, ch => toDigit radix ch
  | _, _ => none

def next (d : Decoding) (ch : Char) : Text × Decoding :=
  match d, d.takes ch with
  | escape, _ => readEscape ch
  | digits radix left value letter, some digit =>
    ([], digits radix (left - 1) (some (value.getD 0 * radix + digit)) letter)
  | _, _ => (d.close ++ (readPlain ch).1, (readPlain ch).2)

def decode : Decoding → Text → Text
  | d, [] => d.close
  | d, ch :: text => (d.next ch).1 ++ (d.next ch).2.decode text

def past (d : Decoding) (text : Text) : Decoding :=
  text.foldl (fun d ch ↦ (d.next ch).2) d

/-- An open escape takes the first character of a text. -/
def grabs (d : Decoding) (text : Text) : Bool :=
  text.head?.any fun ch ↦ (d.takes ch).isSome

end Decoding

open Decoding

def decodeIdlLiteral (text : Text) : Text :=
  plain.decode (literalBody text)

/-- No body ends in an escape that takes a digit of what follows. -/
def separate : List Text → Bool
  | [] => true
  | body :: bodies => !(plain.past body).grabs bodies.flatten && separate bodies

/-! ### What a literal takes of the next -/

variable {d : Decoding} {ch : Char} {body rest : Text}

theorem exists_decode_append (d : Decoding) (body : Text) :
    ∃ out, ∀ rest, d.decode (body ++ rest) = out ++ (d.past body).decode rest := by
  induction body generalizing d with
  | nil => exact ⟨[], fun _ ↦ rfl⟩
  | cons ch body ih =>
    obtain ⟨out, hout⟩ := ih (d.next ch).2
    exact ⟨(d.next ch).1 ++ out, fun rest ↦ by simp [decode, past, hout]⟩

theorem next_of_takes_none (hd : d ≠ escape) (h : d.takes ch = none) :
    d.next ch = (d.close ++ (readPlain ch).1, (readPlain ch).2) := by
  cases d with
  | escape => contradiction
  | plain => rfl
  | digits => simp [Decoding.next, h]

theorem next_of_takes (h : (d.takes ch).isSome) :
    ch ≠ '\\' ∧ d.close.length = 1 ∧ ∃ radix left value letter,
      d.next ch = ([], digits radix left value letter) := by
  cases d with
  | digits radix left value letter =>
    obtain ⟨digit, h⟩ := Option.isSome_iff_exists.mp h
    refine ⟨?_, rfl, ?_⟩
    · rintro rfl
      cases left with
      | zero => contradiction
      | succ => simp [takes, toDigit, show digitValue '\\' = none by decide] at h
    · simp only [Decoding.next, h]
      exact ⟨_, _, _, _, rfl⟩
  | _ => contradiction

theorem decode_of_grabs_eq_false (hd : d ≠ escape) (h : d.grabs rest = false) :
    d.decode rest = d.close ++ plain.decode rest := by
  cases rest with
  | nil => exact (append_nil _).symm
  | cons ch rest =>
    have hplain : plain.next ch = readPlain ch := rfl
    rw [decode, next_of_takes_none hd (by simpa [grabs] using h), append_assoc, decode, hplain]

/-- A digit that an escape takes is no character of its own. By induction on the digits. -/
theorem length_decode_lt (hd : d ≠ escape) (h : d.grabs rest) :
    (d.decode rest).length < (d.close ++ plain.decode rest).length := by
  induction rest generalizing d with
  | nil => contradiction
  | cons ch rest ih =>
    obtain ⟨hch, hclose, radix, left, value, letter, hnext⟩ := next_of_takes h
    have hplain : plain.next ch = ([ch], plain) := if_neg hch
    simp only [decode, hnext, hplain, length_append, hclose, length_singleton, length_nil]
    have hclose' : (digits radix left value letter).close.length = 1 := rfl
    by_cases hgrabs : (digits radix left value letter).grabs rest
    · have hlt := ih (by simp) hgrabs
      rw [length_append] at hlt
      omega
    · rw [decode_of_grabs_eq_false (by simp) (by simpa using hgrabs), length_append]
      omega

/-- The bodies are decoded in one go. -/
theorem decode_flatten {bodies : List Text} (h : ∀ body ∈ bodies, plain.past body ≠ escape) :
    (plain.decode bodies.flatten).length ≤ (bodies.flatMap plain.decode).length ∧
      (plain.decode bodies.flatten = bodies.flatMap plain.decode ↔ separate bodies) := by
  induction bodies with
  | nil => simp [decode, close, separate]
  | cons body bodies ih =>
    obtain ⟨hbody, hbodies⟩ := forall_mem_cons.mp h
    obtain ⟨hle, hiff⟩ := ih hbodies
    obtain ⟨out, hout⟩ := exists_decode_append plain body
    have hself := hout []
    rw [append_nil, decode] at hself
    rw [flatten_cons, hout, flatMap_cons, hself, separate]
    cases hgrabs : (plain.past body).grabs bodies.flatten with
    | false =>
      rw [decode_of_grabs_eq_false hbody hgrabs, append_assoc]
      refine ⟨?_, ?_⟩
      · simpa only [length_append, Nat.add_le_add_iff_left] using hle
      · simpa using hiff
    | true =>
      have hlt := length_decode_lt hbody hgrabs
      simp only [length_append] at hlt ⊢
      refine ⟨by omega, iff_of_false (fun heq ↦ ?_) (by simp)⟩
      have := congrArg length heq
      simp only [length_append] at this
      omega

/-! ### Tokens of the lexer -/

theorem next_eq_escape_iff : (d.next ch).2 = escape ↔ d ≠ escape ∧ ch = '\\' := by
  by_cases hd : d = escape
  · subst hd
    simp only [Decoding.next, readEscape]
    split_ifs <;> try split
    all_goals simp
  cases htakes : d.takes ch with
  | none =>
    rw [next_of_takes_none hd htakes, readPlain]
    split <;> simp_all
  | some digit =>
    obtain ⟨hch, -, radix, left, value, letter, hnext⟩ :=
      next_of_takes (Option.isSome_of_eq_some htakes)
    simp [hnext, hch]

/-- The lexer and the decoder agree on what is escaped, so no body ends in an open backslash. -/
theorem past_ne_escape {quote : Char} {escaped : Bool} {source : Text}
    (hd : d = escape ↔ escaped) (h : lexString quote escaped source = some (body, rest)) :
    d.past body ≠ escape := by
  induction source generalizing d escaped body with
  | nil => contradiction
  | cons ch source ih =>
    have hstep {e : Bool} (he : (d.next ch).2 = escape ↔ e)
        (h : (lexString quote e source).map (fun (body, rest) ↦ (ch :: body, rest)) =
          some (body, rest)) : d.past body ≠ escape := by
      obtain ⟨⟨body', rest'⟩, hlex, ⟨⟩⟩ := Option.map_eq_some_iff.mp h
      show (d.next ch).2.past body' ≠ escape
      exact ih he hlex
    rw [lexString, Scan.next] at h
    rw [next_eq_escape_iff, Ne, hd] at hstep
    split_ifs at h with hescaped hback hquote
    · exact hstep (by simp [hescaped]) h
    · exact hstep (by simpa [hescaped] using hback) h
    · obtain ⟨⟩ := h
      exact fun h ↦ hescaped (hd.mp h)
    · exact hstep (by simpa using fun _ ↦ hback) h

theorem literalBody_quoted {quote : Char} (h : isQuote quote) (body : Text) :
    literalBody (quote :: (body ++ [quote])) = body := by
  simp [literalBody, h]

/-- **Adjacent literals are concatenated by value unless one ends in an open escape** that takes a
digit of the next. -/
theorem decode_parseStringLiteralRun_iff (first : StringLiteral) (rest : List StringLiteral) :
    decodeIdlLiteral (parseStringLiteralRun first rest) =
        (first :: rest).flatMap (fun literal ↦ decodeIdlLiteral literal.text) ↔
      separate ((first :: rest).map StringLiteral.body) := by
  have hbody (literal : StringLiteral) : literalBody literal.text = literal.body :=
    literalBody_quoted literal.isQuote _
  have hjoined : literalBody (parseStringLiteralRun first rest) =
      ((first :: rest).map StringLiteral.body).flatten := by
    simp only [parseStringLiteralRun, hbody]
    exact literalBody_quoted first.isQuote _
  have hclosed : ∀ body ∈ (first :: rest).map StringLiteral.body, plain.past body ≠ escape := by
    refine forall_mem_map.mpr fun literal _ ↦ ?_
    obtain ⟨source, rest, hlex⟩ := literal.lexed
    exact past_ne_escape (by simp) hlex
  simp only [← (decode_flatten hclosed).2, flatMap_map, decodeIdlLiteral, hjoined, hbody]

/-- The escape of the first literal takes the digit of the second. -/
theorem decode_adjacent_differs : ∃ first second : StringLiteral,
    decodeIdlLiteral (parseStringLiteralRun first [second]) = ['A'] ∧
      [first, second].flatMap (fun literal ↦ decodeIdlLiteral literal.text) = ['\x04', '1'] :=
  ⟨⟨'"', ['\\', 'x', '4'], rfl, "\\x4\"".toList, [], by decide⟩,
    ⟨'"', ['1'], rfl, "1\"".toList, [], by decide⟩, by decide⟩

end Bhf.IdlParser
