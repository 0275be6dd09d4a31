import Bhf.IdlParser.Preprocessor

/-!
# One output line for each logical line

What a logical line leaves in the output contains no line break, provided the macros contain none:
it is the line itself, an expansion of it, or a warning whose message is put together from fixed
texts, numbers and parts of the line. The messages of `#if` expressions quote tokens, so this goes
through the evaluation too.

Includes are passed through as they are (`passthroughIncludes`); an included file would leave as
many lines as it has.
-/

namespace Bhf.IdlParser

open StateExcept List

/-- A text on one line. -/
def NoBreak (text : Text) : Prop :=
  '\n' ∉ text

instance (text : Text) : Decidable (NoBreak text) :=
  inferInstanceAs (Decidable ('\n' ∉ text))

theorem noBreak_nil : NoBreak [] :=
  not_mem_nil

variable {text name line payload : Text} {defines : Defines} {text' rest expression value : Text}
  {c : Char} {out : Option Text} {lineNo : ℕ}

theorem NoBreak.append (h : NoBreak text) (h' : NoBreak text') : NoBreak (text ++ text') :=
  fun hmem ↦ (mem_append.mp hmem).elim h h'

theorem NoBreak.of_subset (h : NoBreak text) (hsub : text' ⊆ text) : NoBreak text' :=
  fun hmem ↦ h (hsub hmem)

theorem noBreak_cons_iff : NoBreak (c :: text) ↔ c ≠ '\n' ∧ NoBreak text := by
  rw [NoBreak, mem_cons, not_or, ne_comm]
  rfl

theorem noBreak_decimal (n : ℕ) : NoBreak (decimal n) := by
  rw [decimal, Nat.toList_repr]
  intro hmem
  have := Nat.isDigit_of_mem_toDigits (by decide) (by decide) hmem
  simp at this

theorem noBreak_toString (n : Int) : NoBreak (toString n).toList := by
  cases n with
  | ofNat n => exact noBreak_decimal n
  | negSucc n =>
    show NoBreak ("-" ++ (n + 1).repr).toList
    rw [String.toList_append]
    exact .append (by decide) (noBreak_decimal (n + 1))

theorem NoBreak.replaceChar {by_ : Text} (h : NoBreak text) (hby : NoBreak by_) :
    NoBreak (replaceChar c by_ text) := by
  intro hmem
  obtain ⟨d, hd, hmem⟩ := mem_flatMap.mp hmem
  split at hmem
  · exact hby hmem
  · exact h (mem_singleton.mp hmem ▸ hd)

theorem noBreak_warningPragma {message : Text} (h : NoBreak message) :
    NoBreak (warningPragma message) := by
  refine .append (.append (by decide) ?_) (by decide)
  exact (h.replaceChar (by decide)).replaceChar (by decide)

theorem NoBreak.trimStart (h : NoBreak text) : NoBreak (trimStart text) :=
  h.of_subset (dropWhile_suffix _).subset

/-! ### Expressions -/

/-- A token that is shown on one line. -/
def ExprToken.Clean (token : ExprToken) : Prop :=
  NoBreak token.debug

theorem clean_ident (h : NoBreak name) : (ExprToken.ident name).Clean :=
  .append (.append (by decide) h) (by decide)

theorem clean_number (value : Int) : (ExprToken.number value).Clean :=
  .append (.append (by decide) (noBreak_toString value)) (by decide)

theorem clean_identToken (h : NoBreak name) : (identToken name).Clean := by
  rw [identToken]
  split
  · exact (by decide : NoBreak ExprToken.defined.debug)
  · exact clean_ident h

/-- An error, or a token and the rest of the line, that fit on one line. -/
def LexClean : Except Text (Option ExprToken × Text) → Prop
  | .error error => NoBreak error
  | .ok (token, rest) => (∀ t ∈ token, t.Clean) ∧ NoBreak rest

theorem lexClean_some {token : ExprToken} (htoken : token.Clean) (hrest : NoBreak rest) :
    LexClean (.ok (some token, rest)) :=
  ⟨fun _ ht ↦ Option.mem_some.mp ht ▸ htoken, hrest⟩

theorem clean_lexToken {first : Char} (h : NoBreak (first :: rest)) :
    LexClean (lexToken first rest) := by
  obtain ⟨hfirst, hrest⟩ := noBreak_cons_iff.mp h
  have htake : ∀ p : Char → Bool, NoBreak (first :: rest.takeWhile p) := fun p ↦
    noBreak_cons_iff.mpr ⟨hfirst, hrest.of_subset (takeWhile_sublist p).subset⟩
  have hdrop : ∀ p : Char → Bool, NoBreak (rest.dropWhile p) := fun p ↦
    hrest.of_subset (dropWhile_suffix p).subset
  have htail : NoBreak rest.tail := hrest.of_subset rest.tail_suffix.subset
  have hkeyword : ∀ token ∈ [ExprToken.not, .and, .or, .lParen, .rParen], token.Clean := by
    intro token htoken
    simp only [mem_cons, not_mem_nil, or_false] at htoken
    rcases htoken with rfl | rfl | rfl | rfl | rfl <;> (show NoBreak _; decide)
  unfold lexToken
  split_ifs
  · exact ⟨by simp, hrest⟩
  · show NoBreak _
    decide
  · exact lexClean_some (hkeyword _ (by simp)) hrest
  iterate 2
    · exact lexClean_some (hkeyword _ (by simp)) htail
    · show NoBreak _
      decide
  iterate 2 · exact lexClean_some (hkeyword _ (by simp)) hrest
  · dsimp only
    split
    · exact .append (.append (by decide) (htake _)) (by decide)
    · exact lexClean_some (clean_number _) (hdrop _)
  · exact lexClean_some (clean_identToken (htake _)) (hdrop _)
  · exact .append (.append (by decide) (noBreak_cons_iff.mpr ⟨hfirst, noBreak_nil⟩)) (by decide)

theorem lexExpr_cons (first : Char) (rest : Text) : lexExpr (first :: rest) =
    match lexToken first rest with
    | .error e => .error e
    | .ok (token, rest') => (lexExpr rest').map (token.toList ++ ·) := by
  rw [lexExpr.eq_def]
  dsimp only
  split
  · next h => rw [h]
  · next h =>
    rw [h]
    dsimp only
    cases lexExpr _ <;> rfl

/-- Tokens that are shown on one line, or an error that is. -/
def TokensClean : Except Text (List ExprToken) → Prop
  | .error error => NoBreak error
  | .ok tokens => ∀ token ∈ tokens, token.Clean

theorem clean_lexExpr (h : NoBreak expression) : TokensClean (lexExpr expression) := by
  induction expression using lexExpr.induct with
  | case1 =>
    rw [lexExpr.eq_def]
    exact forall_mem_nil _
  | case2 first rest error herror =>
    have hclean := clean_lexToken h
    rw [herror] at hclean
    rw [lexExpr_cons, herror]
    exact hclean
  | case3 first rest token rest' hok error herror ih =>
    have hclean := clean_lexToken h
    rw [hok] at hclean
    have htail := ih hclean.2
    rw [lexExpr_cons, hok]
    dsimp only
    rw [herror] at htail ⊢
    exact htail
  | case4 first rest token rest' hok tokens htokens ih =>
    have hclean := clean_lexToken h
    rw [hok] at hclean
    have htail := ih hclean.2
    rw [lexExpr_cons, hok]
    dsimp only
    rw [htokens] at htail ⊢
    intro t ht
    rcases mem_append.mp ht with ht | ht
    · exact hclean.1 t (Option.mem_toList.mp ht)
    · exact htail t ht

/-- A value and the tokens left, or an error that is shown on one line. -/
def ParsedClean : Parsed → Prop
  | .error error => NoBreak error
  | .ok (_, rest) => ∀ token ∈ rest, token.Clean

theorem clean_tooDeep : ParsedClean tooDeep := by
  show NoBreak _
  decide

theorem clean_expectedToken : NoBreak (expectedToken .rParen) := by
  decide

theorem clean_parseDefined {tokens : List ExprToken} (h : ∀ token ∈ tokens, token.Clean) :
    ParsedClean (parseDefined defines tokens) := by
  have hident : ∀ tokens : List ExprToken, (∀ token ∈ tokens, token.Clean) →
      (∃ name rest, expectIdent tokens = .ok (name, rest) ∧ ∀ token ∈ rest, token.Clean) ∨
        ∃ error, expectIdent tokens = .error error ∧ NoBreak error := by
    intro tokens h
    unfold expectIdent
    split
    · exact .inl ⟨_, _, rfl, (forall_mem_cons.mp h).2⟩
    · exact .inr ⟨_, rfl, by decide⟩
  unfold parseDefined
  split
  · rcases hident _ (forall_mem_cons.mp h).2 with ⟨name, rest, hok, hrest⟩ | ⟨error, herror, he⟩
    · rw [hok]
      split
      · next heq => simp at heq
      · next heq =>
        obtain ⟨⟩ := heq
        exact (forall_mem_cons.mp hrest).2
      · exact clean_expectedToken
    · rw [herror]
      exact he
  · rcases hident _ h with ⟨name, rest, hok, hrest⟩ | ⟨error, herror, he⟩
    · rw [hok]
      exact hrest
    · rw [herror]
      exact he

/-- A part of the descent that keeps to one line. -/
def KeepsClean (parse : List ExprToken → Parsed) : Prop :=
  ∀ tokens, (∀ token ∈ tokens, token.Clean) → ParsedClean (parse tokens)

theorem ParsedClean.bind {r : Parsed} {f : Bool → List ExprToken → Parsed} :
    ParsedClean r → (∀ value, KeepsClean (f value)) → ParsedClean (match r with
      | .error e => .error e
      | .ok (value, rest) => f value rest) := by
  intro h hf
  cases r with
  | error e => exact h
  | ok parsed => exact hf _ _ h

/-- The whole descent, by induction on what bounds it. -/
theorem clean_parse (defines : Defines) (fuel : ℕ) :
    KeepsClean (parseOr defines fuel) ∧ (∀ value, KeepsClean (orLoop defines fuel value)) ∧
    KeepsClean (parseAnd defines fuel) ∧ (∀ value, KeepsClean (andLoop defines fuel value)) ∧
    KeepsClean (parseUnary defines fuel) ∧ KeepsClean (parsePrimary defines fuel) := by
  induction fuel with
  | zero =>
    exact ⟨fun _ _ ↦ clean_tooDeep, fun _ _ _ ↦ clean_tooDeep, fun _ _ ↦ clean_tooDeep,
      fun _ _ _ ↦ clean_tooDeep, fun _ _ ↦ clean_tooDeep, fun _ _ ↦ clean_tooDeep⟩
  | succ fuel ih =>
    obtain ⟨hor, horLoop, hand, handLoop, hunary, hprimary⟩ := ih
    refine ⟨fun tokens h ↦ ?_, fun value tokens h ↦ ?_, fun tokens h ↦ ?_, fun value tokens h ↦ ?_,
      fun tokens h ↦ ?_, fun tokens h ↦ ?_⟩
    · unfold parseOr
      exact (hand tokens h).bind horLoop
    · unfold orLoop
      split
      · have hrest := (forall_mem_cons.mp h).2
        split
        · exact horLoop _ _ hrest
        · exact (hand _ hrest).bind horLoop
      · exact h
    · unfold parseAnd
      exact (hunary tokens h).bind handLoop
    · unfold andLoop
      split
      · have hrest := (forall_mem_cons.mp h).2
        split
        · exact (hunary _ hrest).bind handLoop
        · exact handLoop _ _ hrest
      · exact h
    · unfold parseUnary
      split
      · exact (hunary _ (forall_mem_cons.mp h).2).bind fun _ _ hrest ↦ hrest
      · exact clean_parseDefined (forall_mem_cons.mp h).2
      · exact hprimary _ h
    · unfold parsePrimary
      split
      · have hinner := hor _ (forall_mem_cons.mp h).2
        split
        · next heq => rwa [heq] at hinner
        · next heq =>
          rw [heq] at hinner
          exact (forall_mem_cons.mp hinner).2
        · exact clean_expectedToken
      iterate 2 · exact (forall_mem_cons.mp h).2
      · exact .append (.append (by decide) (forall_mem_cons.mp h).1) (by decide)
      · show NoBreak _
        decide

theorem noBreak_evalIfExpression {error : Text} (h : NoBreak expression)
    (herror : evalIfExpression expression defines = .error error) : NoBreak error := by
  have hlex := clean_lexExpr h
  unfold evalIfExpression at herror
  cases htokens : lexExpr expression with
  | error e =>
    rw [htokens] at hlex herror
    obtain rfl := Except.error.inj herror
    exact hlex
  | ok tokens =>
    rw [htokens] at hlex
    simp only [htokens] at herror
    have hparse := (clean_parse defines (4 * tokens.length + 8)).1 tokens hlex
    cases hparsed : parseOr defines (4 * tokens.length + 8) tokens with
    | error e =>
      rw [hparsed] at hparse herror
      obtain rfl := Except.error.inj herror
      exact hparse
    | ok parsed =>
      simp only [hparsed] at herror
      split at herror
      · simp at herror
      · obtain rfl := Except.error.inj herror
        decide

/-! ### Expansion -/

/-- Macros whose values are on one line. -/
def Defines.OneLine (defines : Defines) : Prop :=
  ∀ name value, defines.lookup name = some value → NoBreak value

theorem Defines.OneLine.expand (h : defines.OneLine) (hname : NoBreak name) :
    NoBreak (defines.expand name) := by
  rw [Defines.expand]
  cases hlookup : defines.lookup name with
  | none => exact hname
  | some value => exact h name value hlookup

theorem noBreak_expandFrom (h : defines.OneLine) (scan : Scan) {word : Text} (hword : NoBreak word)
    (hline : NoBreak line) : NoBreak (expandFrom defines scan word line) := by
  have hflush : ∀ word : Text, NoBreak word →
      NoBreak (if word.isEmpty then [] else defines.expand word) := by
    intro word hword
    split
    · exact noBreak_nil
    · exact h.expand hword
  induction line generalizing scan word with
  | nil => cases scan <;> exact hflush word hword
  | cons c line ih =>
    obtain ⟨hc, hline⟩ := noBreak_cons_iff.mp hline
    cases scan with
    | literal quote escaped => exact noBreak_cons_iff.mpr ⟨hc, ih _ noBreak_nil hline⟩
    | outside =>
      have hsingle : NoBreak [c] := noBreak_cons_iff.mpr ⟨hc, noBreak_nil⟩
      rw [expandFrom]
      split
      · exact ih _ (hword.append hsingle) hline
      · refine (hflush word hword).append ?_
        split
        · exact noBreak_cons_iff.mpr ⟨hc, ih _ noBreak_nil hline⟩
        · split
          · exact ih _ hsingle hline
          · exact noBreak_cons_iff.mpr ⟨hc, ih _ noBreak_nil hline⟩

/-! ### Directives -/

/-- A step that emits at most one line, keeps the macros on one line each, and does not touch the
line map. -/
def OneLineStep (m : Pre (Option Text)) : Prop :=
  ∀ state out state', Runs m state out state' → state.defines.OneLine →
    (∀ text ∈ out, NoBreak text) ∧ state'.defines.OneLine ∧ state'.lineMap = state.lineMap

theorem OneLineStep.pure (h : ∀ text ∈ out, NoBreak text) : OneLineStep (Pure.pure out) := by
  rintro state _ _ ⟨⟩ hdefines
  exact ⟨h, hdefines, rfl⟩

theorem OneLineStep.silent : OneLineStep (Pure.pure none) :=
  .pure fun _ h ↦ absurd h (by simp)

theorem OneLineStep.emit (h : NoBreak text) : OneLineStep (Pure.pure (some text)) :=
  .pure fun _ ht ↦ Option.mem_some.mp ht ▸ h

theorem OneLineStep.throw (error : IdlParseError) : OneLineStep (throw error) := by
  rintro state _ _ ⟨⟩

theorem OneLineStep.get_bind {f : PreState → Pre (Option Text)}
    (hf : ∀ state out state', Runs (f state) state out state' → state.defines.OneLine →
      (∀ text ∈ out, NoBreak text) ∧ state'.defines.OneLine ∧ state'.lineMap = state.lineMap) :
    OneLineStep (get >>= f) :=
  fun state out state' h hdefines ↦ hf state out state' h hdefines

theorem OneLineStep.orThrow_bind {α : Type} {result : Except IdlParseError α}
    {f : α → Pre (Option Text)} (hf : ∀ a, result = .ok a → OneLineStep (f a)) :
    OneLineStep (orThrow result >>= f) := by
  cases result with
  | ok a => exact hf a rfl
  | error e => exact fun state out state' h ↦ absurd h (by rintro ⟨⟩)

/-- A step that changes the macros and emits nothing. -/
theorem OneLineStep.modifyDefines {f : Defines → Defines}
    (hf : ∀ defines, defines.OneLine → (f defines).OneLine) :
    OneLineStep (do modifyDefines f; return none) := by
  intro state out state' h hdefines
  obtain ⟨⟩ := h
  exact ⟨fun _ h ↦ absurd h (by simp), hf _ hdefines, rfl⟩

/-- A step that opens a conditional. -/
theorem OneLineStep.pushFrame (frame : ConditionalFrame) (h : ∀ text ∈ out, NoBreak text) :
    OneLineStep (do pushFrame frame; return out) := by
  intro state out' state' hrun hdefines
  obtain ⟨⟩ := hrun
  exact ⟨h, hdefines, rfl⟩

theorem Defines.OneLine.insert (h : defines.OneLine) (hvalue : NoBreak value) :
    Defines.OneLine (defines.insert name value) := by
  intro name' value' hlookup
  by_cases hname : name' = name
  · subst hname
    rw [AList.lookup_insert] at hlookup
    exact Option.some.inj hlookup ▸ hvalue
  · rw [AList.lookup_insert_ne hname] at hlookup
    exact h name' value' hlookup

theorem Defines.OneLine.erase (h : defines.OneLine) (name : Text) :
    Defines.OneLine (defines.erase name) := by
  intro name' value hlookup
  by_cases hname : name' = name
  · subst hname
    simp [AList.lookup_erase] at hlookup
  · rw [AList.lookup_erase_ne hname] at hlookup
    exact h name' value hlookup

theorem noBreak_of_parseMacro (h : NoBreak payload)
    (hparse : parseMacro payload lineNo = .ok (name, value)) : NoBreak value := by
  unfold parseMacro at hparse
  split at hparse
  · simp at hparse
  · next name' replacement hread =>
    split at hparse
    · simp at hparse
    · obtain ⟨⟩ := hparse
      have hpayload := h.trimStart
      rw [readIdentifier_eq_append hread] at hpayload
      exact (hpayload.of_subset (subset_append_right _ _)).trimStart

theorem noBreak_of_parseMacro_error {error : IdlParseError}
    (hparse : parseMacro payload lineNo = .error error) : NoBreak error.message := by
  unfold parseMacro at hparse
  split at hparse
  · obtain rfl := Except.error.inj hparse
    show NoBreak "expected macro name after #define".toList
    decide
  · split at hparse
    · obtain rfl := Except.error.inj hparse
      show NoBreak "function-like macros are unsupported".toList
      decide
    · simp at hparse

theorem oneLineStep_processDefine (config : Config) (lineNo : ℕ) (h : NoBreak payload) :
    OneLineStep (processDefine config payload lineNo) := by
  refine .get_bind fun state ↦ ?_
  split
  · cases hparse : parseMacro payload lineNo with
    | ok parsed =>
      exact OneLineStep.modifyDefines (fun _ hdefines ↦
        hdefines.insert (noBreak_of_parseMacro h hparse)) state
    | error error =>
      dsimp only
      split
      · refine OneLineStep.emit (noBreak_warningPragma ?_) state
        exact .append (.append (.append (by decide) (noBreak_decimal _)) (by decide))
          (noBreak_of_parseMacro_error hparse)
      · exact OneLineStep.throw _ state
  · exact OneLineStep.silent state

theorem oneLineStep_processUndef (payload : Text) (lineNo : ℕ) :
    OneLineStep (processUndef payload lineNo) := by
  refine .get_bind fun state ↦ ?_
  split
  · exact OneLineStep.orThrow_bind (fun name _ ↦
      .modifyDefines fun _ hdefines ↦ hdefines.erase name) state
  · exact OneLineStep.silent state

theorem oneLineStep_processIfdef (expected : Bool) (payload : Text) (lineNo : ℕ) :
    OneLineStep (processIfdef expected payload lineNo) :=
  .orThrow_bind fun _ _ ↦ .get_bind fun state ↦
    OneLineStep.pushFrame _ (fun _ h ↦ absurd h (by simp)) state

theorem oneLineStep_processIf (config : Config) (lineNo : ℕ) (h : NoBreak payload) :
    OneLineStep (processIf config payload lineNo) := by
  have hnone : ∀ text ∈ (none : Option Text), NoBreak text := fun _ h ↦ absurd h (by simp)
  refine .get_bind fun state ↦ ?_
  dsimp only
  split
  · cases heval : evalIfExpression (stripTrailingComment payload) state.defines with
    | ok active => exact OneLineStep.pushFrame _ hnone state
    | error error =>
      have hexpression : NoBreak (stripTrailingComment payload) :=
        h.of_subset (isPrefix_stripCommentFrom _ _).subset
      have herror := noBreak_evalIfExpression hexpression heval
      dsimp only
      split
      · refine OneLineStep.pushFrame _ (fun text ht ↦ ?_) state
        rw [← Option.mem_some.mp ht]
        refine noBreak_warningPragma ?_
        exact .append (.append (.append (by decide) (noBreak_decimal _)) (by decide)) herror
      · exact OneLineStep.throw _ state
  · exact OneLineStep.pushFrame _ hnone state

theorem oneLineStep_processElse (payload : Text) (lineNo depth : ℕ) :
    OneLineStep (processElse payload lineNo depth) := by
  unfold processElse
  split
  · exact .throw _
  · refine .get_bind fun state ↦ ?_
    split
    · exact OneLineStep.throw _ state
    · split
      · exact OneLineStep.throw _ state
      · split
        · exact OneLineStep.throw _ state
        · intro out state' h hdefines
          obtain ⟨⟩ := h
          exact ⟨fun _ h ↦ absurd h (by simp), hdefines, rfl⟩

theorem oneLineStep_processEndif (payload : Text) (lineNo depth : ℕ) :
    OneLineStep (processEndif payload lineNo depth) := by
  unfold processEndif
  split
  · exact .throw _
  · refine .get_bind fun state ↦ ?_
    split
    · exact OneLineStep.throw _ state
    · intro out state' h hdefines
      obtain ⟨⟩ := h
      exact ⟨fun _ h ↦ absurd h (by simp), hdefines, rfl⟩

/-- A line kept as it is, if it is active. -/
theorem oneLineStep_keep (h : NoBreak line) :
    OneLineStep (do return if isActive (← get) then some (trimStart line) else none) := by
  refine .get_bind fun state ↦ ?_
  split
  · exact OneLineStep.emit h.trimStart state
  · exact OneLineStep.silent state

theorem oneLineStep_processUnsupported (config : Config) (lineNo : ℕ) (h : NoBreak name) :
    OneLineStep (processUnsupported config name lineNo) := by
  unfold processUnsupported
  split
  · refine .emit (noBreak_warningPragma ?_)
    exact .append (.append (.append (by decide) h) (by decide)) (noBreak_decimal _)
  · exact .throw _

theorem noBreak_of_splitDirective (h : NoBreak line)
    (hsplit : splitDirective line = some (name, payload)) : NoBreak name ∧ NoBreak payload := by
  have hrest : NoBreak (trimStart (trimStart line).tail) :=
    (h.trimStart.of_subset (tail_suffix _).subset).trimStart
  rw [readIdentifier_eq_append hsplit] at hrest
  exact ⟨hrest.of_subset (subset_append_left _ _), hrest.of_subset (subset_append_right _ _)⟩

theorem noBreak_of_ofName {name' : Text} (h : NoBreak name)
    (hname : Directive.ofName name = .unsupported name') : NoBreak name' := by
  unfold Directive.ofName at hname
  repeat' split at hname
  all_goals first
    | exact Directive.unsupported.inj hname ▸ h
    | exact Directive.noConfusion hname

theorem oneLineStep_processDirective {context : Context}
    (hpass : context.config.passthroughIncludes) (lineNo : ℕ) (h : NoBreak line) :
    OneLineStep (processDirective context line lineNo) := by
  unfold processDirective
  split
  · exact .throw _
  · next name payload hsplit =>
    obtain ⟨hname, hpayload⟩ := noBreak_of_splitDirective h hsplit
    split
    · exact oneLineStep_processDefine _ _ hpayload
    · exact oneLineStep_processUndef _ _
    iterate 2 · exact oneLineStep_processIfdef _ _ _
    · exact oneLineStep_processIf _ _ hpayload
    · exact oneLineStep_processElse _ _ _
    · exact oneLineStep_processEndif _ _ _
    · unfold processInclude
      simp only [hpass]
      exact oneLineStep_keep h
    · exact oneLineStep_keep h
    · next hunsupported =>
      exact oneLineStep_processUnsupported _ _ (noBreak_of_ofName hname hunsupported)

end Bhf.IdlParser
