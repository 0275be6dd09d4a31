import Bhf.IdlParser.Scan

/-!
# `#if` expressions

The conditions of `#if` are read into tokens and evaluated by recursive descent, in one pass: there
is no tree. **The operators short-circuit while they parse**: when the value to the left of `||` is
already true, or that to the left of `&&` false, the right operand is not read at all.

The descent is bounded by a number that each call uses up; `evalIfExpression` starts it with more
than the tokens can need.
-/

namespace Bhf.IdlParser

inductive ExprToken where
  | ident (name : Text)
  | number (value : Int)
  | defined
  | not
  | and
  | or
  | lParen
  | rParen

/-- The debug form of a token. -/
def ExprToken.debug : ExprToken → Text
  | .ident name => "Ident(\"".toList ++ name ++ "\")".toList
  | .number value => "Number(".toList ++ (toString value).toList ++ ")".toList
  | .defined => "Defined".toList
  | .not => "Not".toList
  | .and => "And".toList
  | .or => "Or".toList
  | .lParen => "LParen".toList
  | .rParen => "RParen".toList

/-! ### Integers -/

/-- The value of a digit in bases up to sixteen. -/
def digitValue (c : Char) : Option ℕ :=
  if c.isDigit then some (c.toNat - '0'.toNat)
  else if 'a' ≤ c ∧ c ≤ 'f' then some (c.toNat - 'a'.toNat + 10)
  else if 'A' ≤ c ∧ c ≤ 'F' then some (c.toNat - 'A'.toNat + 10)
  else none

/-- Read digits of a base onto a number. -/
def readDigits (base : ℕ) : ℕ → Text → Option ℕ
  | value, [] => some value
  | value, c :: rest =>
    match digitValue c with
    | none => none
    | some digit => if digit < base then readDigits base (value * base + digit) rest else none

/-- A signed 64-bit integer in a base, as `i64::from_str_radix` reads it. -/
def parseI64 (base : ℕ) (text : Text) : Option Int :=
  let (sign, digits) : Int × Text :=
    match text with
    | '-' :: digits => (-1, digits)
    | '+' :: digits => (1, digits)
    | digits => (1, digits)
  if digits.isEmpty then
    none
  else
    match readDigits base 0 digits with
    | none => none
    | some value =>
      let value := sign * value
      if -2 ^ 63 ≤ value ∧ value < 2 ^ 63 then some value else none

def isHexDigit (c : Char) : Bool :=
  (digitValue c).isSome

/-- The characters a number goes on with. -/
def isNumberContinue (c : Char) : Bool :=
  isHexDigit c || c == 'x' || c == 'X'

/-- The value of an integer constant. -/
def integerConstant (text : Text) : Option Int :=
  match text with
  | '0' :: 'x' :: hex => parseI64 16 hex
  | '0' :: 'X' :: hex => parseI64 16 hex
  | text => parseI64 10 text

/-! ### Tokens -/

/-- The token of an identifier. -/
def identToken (name : Text) : ExprToken :=
  if name = "defined".toList then .defined else .ident name

/-- Read one token, or skip white space; `none` if the text is white space only. -/
def lexToken (first : Char) (rest : Text) : Except Text (Option ExprToken × Text) :=
  if isWhitespace first then
    .ok (none, rest)
  else if first = '!' then
    if rest.head? = some '=' then .error "operator '!=' is unsupported".toList
    else .ok (some .not, rest)
  else if first = '&' then
    if rest.head? = some '&' then .ok (some .and, rest.tail)
    else .error "expected '&&' in #if expression".toList
  else if first = '|' then
    if rest.head? = some '|' then .ok (some .or, rest.tail)
    else .error "expected '||' in #if expression".toList
  else if first = '(' then
    .ok (some .lParen, rest)
  else if first = ')' then
    .ok (some .rParen, rest)
  else if first.isDigit then
    let text := first :: rest.takeWhile isNumberContinue
    match integerConstant text with
    | none => .error ("invalid integer constant '".toList ++ text ++ "'".toList)
    | some value => .ok (some (.number value), rest.dropWhile isNumberContinue)
  else if isIdentifierStart first then
    .ok (some (identToken (first :: rest.takeWhile isIdentifierContinue)),
      rest.dropWhile isIdentifierContinue)
  else
    .error ("unsupported token '".toList ++ [first] ++ "' in #if expression".toList)

theorem length_le_of_lexToken {first : Char} {rest rest' : Text} {token : Option ExprToken}
    (h : lexToken first rest = .ok (token, rest')) : rest'.length ≤ rest.length := by
  unfold lexToken at h
  have htail : rest.tail.length ≤ rest.length := by simp
  have hnumber : (rest.dropWhile isNumberContinue).length ≤ rest.length :=
    (List.dropWhile_suffix _).length_le
  have hident : (rest.dropWhile isIdentifierContinue).length ≤ rest.length :=
    (List.dropWhile_suffix _).length_le
  dsimp only at h
  repeat' split at h
  all_goals first
    | (obtain ⟨-, rfl⟩ := Prod.mk.inj (Except.ok.inj h); first | assumption | exact le_rfl)
    | contradiction

def lexExpr (expression : Text) : Except Text (List ExprToken) :=
  match expression with
  | [] => .ok []
  | first :: rest =>
    match _h : lexToken first rest with
    | .error e => .error e
    | .ok (token, rest') =>
      match lexExpr rest' with
      | .error e => .error e
      | .ok tokens => .ok (token.toList ++ tokens)
termination_by expression.length
decreasing_by exact Nat.lt_succ_of_le (length_le_of_lexToken _h)

/-! ### Evaluation -/

/-- A macro counts as true unless its value is an integer zero. -/
def macroValueIsTruthy (value : Text) : Bool :=
  match parseI64 10 (trimStart (trimEnd value)) with
  | some value => value != 0
  | none => true

/-- The value of a part of the expression and the tokens left. -/
abbrev Parsed : Type :=
  Except Text (Bool × List ExprToken)

def expectIdent : List ExprToken → Except Text (Text × List ExprToken)
  | .ident name :: rest => .ok (name, rest)
  | _ => .error "expected identifier in defined expression".toList

/-- The error for a token that is not there. -/
def expectedToken (token : ExprToken) : Text :=
  "expected ".toList ++ token.debug ++ " in #if expression".toList

def parseDefined (defines : Defines) : List ExprToken → Parsed
  | .lParen :: rest =>
    match expectIdent rest with
    | .error e => .error e
    | .ok (name, .rParen :: rest) => .ok ((defines.lookup name).isSome, rest)
    | .ok _ => .error (expectedToken .rParen)
  | tokens =>
    match expectIdent tokens with
    | .error e => .error e
    | .ok (name, rest) => .ok ((defines.lookup name).isSome, rest)

/-- The error of a descent that was started with too little. -/
def tooDeep : Parsed :=
  .error "#if expression is nested too deeply".toList

mutual

def parseOr (defines : Defines) : ℕ → List ExprToken → Parsed
  | 0, _ => tooDeep
  | fuel + 1, tokens =>
    match parseAnd defines fuel tokens with
    | .error e => .error e
    | .ok (value, rest) => orLoop defines fuel value rest

/-- The operands after the first: one to the right of a true value is not read. -/
def orLoop (defines : Defines) : ℕ → Bool → List ExprToken → Parsed
  | 0, _, _ => tooDeep
  | fuel + 1, value, tokens =>
    match tokens with
    | .or :: rest =>
      if value then
        orLoop defines fuel value rest
      else
        match parseAnd defines fuel rest with
        | .error e => .error e
        | .ok (value, rest) => orLoop defines fuel value rest
    | _ => .ok (value, tokens)

def parseAnd (defines : Defines) : ℕ → List ExprToken → Parsed
  | 0, _ => tooDeep
  | fuel + 1, tokens =>
    match parseUnary defines fuel tokens with
    | .error e => .error e
    | .ok (value, rest) => andLoop defines fuel value rest

/-- The operands after the first: one to the right of a false value is not read. -/
def andLoop (defines : Defines) : ℕ → Bool → List ExprToken → Parsed
  | 0, _, _ => tooDeep
  | fuel + 1, value, tokens =>
    match tokens with
    | .and :: rest =>
      if value then
        match parseUnary defines fuel rest with
        | .error e => .error e
        | .ok (value, rest) => andLoop defines fuel value rest
      else
        andLoop defines fuel value rest
    | _ => .ok (value, tokens)

def parseUnary (defines : Defines) : ℕ → List ExprToken → Parsed
  | 0, _ => tooDeep
  | fuel + 1, tokens =>
    match tokens with
    | .not :: rest =>
      match parseUnary defines fuel rest with
      | .error e => .error e
      | .ok (value, rest) => .ok (!value, rest)
    | .defined :: rest => parseDefined defines rest
    | _ => parsePrimary defines fuel tokens

def parsePrimary (defines : Defines) : ℕ → List ExprToken → Parsed
  | 0, _ => tooDeep
  | fuel + 1, tokens =>
    match tokens with
    | .lParen :: rest =>
      match parseOr defines fuel rest with
      | .error e => .error e
      | .ok (value, .rParen :: rest) => .ok (value, rest)
      | .ok _ => .error (expectedToken .rParen)
    | .number value :: rest => .ok (value != 0, rest)
    | .ident name :: rest =>
      .ok ((defines.lookup name).any macroValueIsTruthy, rest)
    | token :: _ =>
      .error ("unexpected token ".toList ++ token.debug ++ " in #if expression".toList)
    | [] => .error "expected expression after #if".toList

end

def evalIfExpression (expression : Text) (defines : Defines) : Except Text Bool :=
  match lexExpr expression with
  | .error e => .error e
  | .ok tokens =>
    match parseOr defines (4 * tokens.length + 8) tokens with
    | .error e => .error e
    | .ok (value, rest) =>
      if rest.isEmpty then .ok value
      else .error "unexpected trailing tokens in #if expression".toList

end Bhf.IdlParser
