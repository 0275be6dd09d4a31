import Mathlib.Data.List.MinMax
import Bhf.FuzzEngine.Rng
import Bhf.Lib.Text

/-!
# Generation from a grammar

A derivation from the start symbol, with random productions. Two things end it: the output reaches
the length limit, or the nesting reaches `maxDepth`. Close to the depth limit the production with
the fewest non-terminals is taken instead of a random one. The recursion is on the levels that are
left, so the depth of the source is `maxDepth` minus the number of levels left.

A literal is appended whole, so the output may overshoot the limit on the way; `generate` cuts it in
the end.
-/

namespace Bhf.FuzzEngine

open StateExcept

inductive Symbol
  | literal (bytes : Bytes)
  | nonTerminal (name : String)
  deriving DecidableEq

structure Grammar where
  rules : List (String × List (List Symbol))
  start : String

/-! ### Reading a grammar -/

/-- The literal that was collected, if there is one. -/
def literalSymbol (literal : Bytes) : List Symbol :=
  if literal.isEmpty then [] else [.literal literal]

/-- ASCII letters, digits and underscores. -/
def isReferenceName (name : List Char) : Bool :=
  !name.isEmpty && name.all fun c ↦ c.isAlphanum || c == '_'

/-- The name of a reference and what follows it, after the opening brace. -/
def reference (rest : List Char) : Option (String × List Char) :=
  match rest.dropWhile (· != '}') with
  | [] => none
  | _ :: after =>
    if isReferenceName (rest.takeWhile (· != '}')) then
      some (String.ofList (rest.takeWhile (· != '}')), after)
    else none

theorem length_lt_of_reference {rest after : List Char} {name : String}
    (h : reference rest = some (name, after)) : after.length < rest.length := by
  rw [reference] at h
  split at h
  · contradiction
  next close after' hclose =>
  split at h
  · obtain ⟨⟩ := h
    have hle := (List.dropWhile_suffix (p := (· != '}')) (l := rest)).length_le
    rw [hclose, List.length_cons] at hle
    omega
  · contradiction

/-- The symbols of the rest of a production; a brace that opens no reference is a literal. -/
def parseProductionFrom (literal : Bytes) : List Char → List Symbol
  | [] => literalSymbol literal
  | c :: rest =>
    if c = '{' then
      match h : reference rest with
      | some (name, after) =>
        have := length_lt_of_reference h
        literalSymbol literal ++ .nonTerminal name :: parseProductionFrom [] after
      | none => parseProductionFrom (literal ++ utf8Bytes (String.singleton c)) rest
    else parseProductionFrom (literal ++ utf8Bytes (String.singleton c)) rest
termination_by text => text.length

theorem parseProductionFrom_reference (literal : Bytes) {rest after : List Char}
    {name : String} (h : reference rest = some (name, after)) :
    parseProductionFrom literal ('{' :: rest) =
      literalSymbol literal ++ .nonTerminal name :: parseProductionFrom [] after := by
  rw [parseProductionFrom, if_pos rfl]
  split
  · next name' after' h' =>
    obtain ⟨rfl, rfl⟩ := Prod.mk.inj (Option.some.inj (h.symm.trans h'))
    rfl
  · next h' => exact absurd (h.symm.trans h') (Option.some_ne_none _)

def parseProduction (s : String) : List Symbol :=
  parseProductionFrom [] s.toList

inductive GrammarError
  | noRules
  | noProductions (name : String)
  | undefinedNonTerminal (name nonTerminal : String)
  | undefinedStart (start : String)

namespace Grammar

/-- The productions of each name; a later rule for a name replaces the earlier one. -/
def parseRules : List (String × List String) →
    Except GrammarError (List (String × List (List Symbol)))
  | [] => .ok []
  | (name, productions) :: rules =>
    if productions.isEmpty then .error (.noProductions name)
    else do
      let parsed ← parseRules rules
      if (parsed.lookup name).isSome then return parsed
      else return (name, productions.map parseProduction) :: parsed

/-- The first reference to a name without a rule. -/
def undefinedReference (parsed : List (String × List (List Symbol))) : Option (String × String) :=
  parsed.findSome? fun (name, alts) ↦ alts.flatten.findSome? fun symbol ↦
    match symbol with
    | .literal _ => none
    | .nonTerminal nt => if (parsed.lookup nt).isSome then none else some (name, nt)

def fromRules (rules : List (String × List String)) (start : Option String) :
    Except GrammarError Grammar :=
  match rules with
  | [] => .error .noRules
  | (first, _) :: _ => do
    let parsed ← parseRules rules
    match undefinedReference parsed with
    | some (name, nt) => .error (.undefinedNonTerminal name nt)
    | none =>
      match start with
      | some s =>
        if (parsed.lookup s).isSome then return ⟨parsed, s⟩ else .error (.undefinedStart s)
      | none => return ⟨parsed, if (parsed.lookup "START").isSome then "START" else first⟩

def maxDepth : ℕ := 48

def collapseMargin : ℕ := 8

def nonterminalCount (alt : List Symbol) : ℕ :=
  alt.countP fun symbol ↦
    match symbol with
    | .literal _ => false
    | .nonTerminal _ => true

/-- The production for a non-terminal at a depth. -/
def choose (depth : ℕ) (alts : List (List Symbol)) : Gen (Option (List Symbol)) :=
  if maxDepth ≤ depth + collapseMargin then return alts.argmin nonterminalCount
  else do
    match ← attempt (chooseIndex alts.length) with
    | none => return none
    | some i => return alts[i]?

/-- Append what the symbols of a production become, until the output is long enough. -/
def expandSymbols (expandChild : String → Bytes → Gen Bytes) (maxLen : ℕ) :
    List Symbol → Bytes → Gen Bytes
  | [], out => return out
  | symbol :: symbols, out =>
    if maxLen ≤ out.length then return out
    else
      match symbol with
      | .literal bytes => expandSymbols expandChild maxLen symbols (out ++ bytes)
      | .nonTerminal child => do
        expandSymbols expandChild maxLen symbols (← expandChild child out)

/-- Append an expansion of a non-terminal, with `left` levels left. -/
def expand (g : Grammar) (maxLen : ℕ) : ℕ → String → Bytes → Gen Bytes
  | 0, _, out => return out
  | left + 1, nt, out =>
    if maxLen ≤ out.length then return out
    else
      match g.rules.lookup nt with
      | none => return out
      | some alts => do
        match ← choose (maxDepth - (left + 1)) alts with
        | none => return out
        | some alt => expandSymbols (g.expand maxLen left) maxLen alt out

def generate (g : Grammar) (maxLen : ℕ) : Gen Bytes := do
  let out ← g.expand maxLen maxDepth g.start []
  if out.isEmpty then giveUp
  else return out.take maxLen

theorem yields_generate (g : Grammar) (maxLen : ℕ) :
    Yields (g.generate maxLen) fun out ↦ out.length ≤ maxLen := by
  refine yields_bind fun out ↦ ?_
  split
  · exact yields_throw ()
  · exact yields_pure (List.length_take_le _ _)

/-- Without room nothing is generated. -/
theorem yields_generate_pos (g : Grammar) (maxLen : ℕ) :
    Yields (g.generate maxLen) fun _ ↦ 0 < maxLen := by
  cases maxLen with
  | zero =>
    show Yields ((pure [] : Gen Bytes) >>= fun out ↦
      if out.isEmpty then giveUp else return out.take 0) _
    exact (yields_pure rfl).bind fun out (hout : [] = out) ↦ hout ▸ yields_throw ()
  | succ n => exact fun _ _ _ _ ↦ n.succ_pos

end Grammar

end Bhf.FuzzEngine
