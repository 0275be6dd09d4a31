import Bhf.FuzzEngine.Grammar
import Mathlib.Computability.ContextFreeGrammar

/-!
# What a grammar generates belongs to its language

A grammar that was read is a context-free grammar, and its words are those of the language of that
grammar. `generate` cuts a derivation at two places: where the output is long enough, and where the
nesting is too deep. The second cut erases a non-terminal, so it leaves the language, but close to
it only productions with the fewest non-terminals are taken. **If these collapse every non-terminal
within `collapseMargin` levels, nothing is ever erased** (`derives_of_runs_derive`).

`derive` is the derivation without the first cut. `generate` gives the beginning of the word that it
gives from the same generator state (`exists_runs_expand`): a word that is shorter than the limit is
that word, and a word as long as the limit is a beginning of it.

In the grammar, parts that are derived separately are derived together (`derives_append`), and a
non-terminal derives what one of its productions derives (`derives_of_rule`).
-/

namespace Bhf

/-- A string of terminals and non-terminals. -/
abbrev SententialForm (T N : Type) := List (Symbol T N)

section Derivation

variable {T : Type} {g : ContextFreeGrammar T} {u u' v v' : List (Symbol T g.NT)}

theorem derives_append (hu : g.Derives u u') (hv : g.Derives v v') :
    g.Derives (u ++ v) (u' ++ v') :=
  (hu.append_right v).trans (hv.append_left u')

theorem derives_of_rule {r : ContextFreeRule T g.NT} (hr : r ∈ g.rules)
    (h : g.Derives r.output v) : g.Derives [.nonterminal r.input] v := by
  have hstep : g.Produces [.nonterminal r.input] r.output :=
    ⟨r, hr, ContextFreeRule.Rewrites.input_output⟩
  exact hstep.trans_derives h

end Derivation

end Bhf

namespace Bhf.FuzzEngine

open StateExcept List Except

namespace Grammar

/-! ### The language -/

/-- A symbol as symbols of a context-free grammar over bytes. -/
def symbolForm : Symbol → SententialForm UInt8 String
  | .literal bytes => bytes.map .terminal
  | .nonTerminal name => [.nonterminal name]

def toContextFree (g : Grammar) : ContextFreeGrammar UInt8 where
  NT := String
  initial := g.start
  rules := (g.rules.flatMap fun (name, alts) ↦
    alts.map fun alt ↦ ⟨name, alt.flatMap symbolForm⟩).toFinset

variable {g : Grammar} {nt : String} {alts : List (List Symbol)} {alt : List Symbol}
  {rules : List (String × List String)} {parsed : List (String × List (List Symbol))}
  {deriveChild : String → Gen Bytes} {maxLen : ℕ} {word : Bytes}
  {rng rng' : MutationRng}

theorem mem_rules_of_lookup (hlookup : g.rules.lookup nt = some alts) (halt : alt ∈ alts) :
    (⟨nt, alt.flatMap symbolForm⟩ : ContextFreeRule UInt8 String) ∈ g.toContextFree.rules := by
  have hmem : (nt, alts) ∈ g.rules := by
    obtain ⟨before, after, hrules, -⟩ := lookup_eq_some_iff.mp hlookup
    simp [hrules]
  exact mem_toFinset.mpr (mem_flatMap.mpr ⟨(nt, alts), hmem, mem_map_of_mem halt⟩)

/-! ### Grammars that were read -/

/-- A grammar that can be expanded. -/
structure WellFormed (g : Grammar) : Prop where
  /-- No rule is empty. -/
  ne_nil : ∀ nt alts, g.rules.lookup nt = some alts → alts ≠ []
  /-- Every name that is used has a rule. -/
  closed : ∀ nt alts, g.rules.lookup nt = some alts → ∀ alt ∈ alts, ∀ child,
    .nonTerminal child ∈ alt → (g.rules.lookup child).isSome = true
  /-- So has the start. -/
  start : (g.rules.lookup g.start).isSome = true

theorem ne_nil_of_parseRules (h : parseRules rules = .ok parsed) :
    ∀ entry ∈ parsed, entry.2 ≠ [] := by
  induction rules generalizing parsed with
  | nil =>
    obtain rfl : [] = parsed := ok.inj h
    simp
  | cons rule rules ih =>
    obtain ⟨hproductions, h⟩ := ok_of_guard h
    obtain ⟨parsed', hparsed, h⟩ := ok_of_bind h
    split at h
    · obtain rfl : parsed' = parsed := ok.inj h
      exact ih hparsed
    · obtain ⟨⟩ := h
      refine forall_mem_cons.mpr ⟨?_, ih hparsed⟩
      simpa using hproductions

/-- Every rule that was given is found. -/
theorem lookup_isSome_of_parseRules (h : parseRules rules = .ok parsed)
    {rule : String × List String} (hrule : rule ∈ rules) :
    (parsed.lookup rule.1).isSome := by
  induction rules generalizing parsed with
  | nil => contradiction
  | cons first rules ih =>
    obtain ⟨-, h⟩ := ok_of_guard h
    obtain ⟨parsed', hparsed, h⟩ := ok_of_bind h
    have hold (hmem : rule ∈ rules) := ih hparsed hmem
    split at h
    · next hsome =>
      obtain rfl : parsed' = parsed := ok.inj h
      rcases mem_cons.mp hrule with rfl | hmem
      · exact hsome
      · exact hold hmem
    · obtain ⟨⟩ := h
      rw [lookup_isSome_iff]
      rcases mem_cons.mp hrule with rfl | hmem
      · exact ⟨_, mem_cons_self, beq_self_eq_true _⟩
      · obtain ⟨entry, hentry, hkey⟩ := lookup_isSome_iff.mp (hold hmem)
        exact ⟨entry, mem_cons_of_mem _ hentry, hkey⟩

variable {child : String} {expandChild : String → Bytes → Gen Bytes}
  {symbols : List Symbol} {left : ℕ}

theorem wellFormed_of_fromRules {start : Option String} (h : fromRules rules start = .ok g) :
    g.WellFormed := by
  rcases rules with - | ⟨⟨first, productions⟩, rules⟩
  · contradiction
  obtain ⟨parsed, hparsed, h⟩ := ok_of_bind h
  have hmem {nt : String} {alts : List (List Symbol)} (hlookup : parsed.lookup nt = some alts) :
      (nt, alts) ∈ parsed := by
    obtain ⟨before, after, hrules, -⟩ := lookup_eq_some_iff.mp hlookup
    simp [hrules]
  rcases hundefined : undefinedReference parsed with - | ⟨name, nt⟩
  · have hwell (s : String) (hs : (parsed.lookup s).isSome) : WellFormed ⟨parsed, s⟩ := by
      refine ⟨fun _ _ hlookup ↦ ne_nil_of_parseRules hparsed _ (hmem hlookup),
        fun _ _ hlookup alt halt child hchild ↦ ?_, hs⟩
      rw [undefinedReference, findSome?_eq_none_iff] at hundefined
      have hnone := findSome?_eq_none_iff.mp (hundefined _ (hmem hlookup)) _
        (mem_flatten.mpr ⟨alt, halt, hchild⟩)
      by_contra hnot
      simp [hnot] at hnone
    simp only [hundefined] at h
    rcases start with - | s
    · obtain ⟨⟩ := h
      refine hwell _ ?_
      split
      · next hstart => exact hstart
      · exact lookup_isSome_of_parseRules hparsed mem_cons_self
    · by_cases hs : (parsed.lookup s).isSome
      · simp only [hs] at h
        obtain ⟨⟩ := h
        exact hwell s hs
      · simp [hs] at h
  · simp [hundefined] at h

/-! ### The derivation without the length limit -/

/-- What the symbols of a production become. -/
def deriveSymbols (deriveChild : String → Gen Bytes) : List Symbol → Gen Bytes
  | [] => return []
  | .literal bytes :: symbols => do return bytes ++ (← deriveSymbols deriveChild symbols)
  | .nonTerminal child :: symbols => do
    let word ← deriveChild child
    return word ++ (← deriveSymbols deriveChild symbols)

/-- What a non-terminal becomes, with `left` levels left. -/
def derive (g : Grammar) : ℕ → String → Gen Bytes
  | 0, _ => return []
  | left + 1, nt =>
    match g.rules.lookup nt with
    | none => return []
    | some alts => do
      match ← choose (maxDepth - (left + 1)) alts with
      | none => return []
      | some alt => deriveSymbols (g.derive left) alt

/-- A choice always comes back with a value. -/
theorem exists_runs_choose (depth : ℕ) (alts : List (List Symbol)) (rng : MutationRng) :
    ∃ o rng', Runs (choose depth alts) rng o rng' := by
  rw [choose]
  split
  · exact ⟨_, rng, Runs.pure _ rng⟩
  · obtain ⟨index, rng₁, hindex⟩ := exists_runs_attempt _ rng
    rcases index with - | i
    · exact ⟨_, _, hindex.bind (Runs.pure none rng₁)⟩
    · exact ⟨_, _, hindex.bind (Runs.pure alts[i]? rng₁)⟩

theorem exists_runs_deriveSymbols
    (h : ∀ child rng, ∃ word rng', Runs (deriveChild child) rng word rng') (symbols : List Symbol)
    (rng : MutationRng) : ∃ word rng', Runs (deriveSymbols deriveChild symbols) rng word rng' := by
  induction symbols generalizing rng with
  | nil => exact ⟨[], rng, Runs.pure [] rng⟩
  | cons symbol symbols ih =>
    cases symbol with
    | literal bytes =>
      obtain ⟨word, rng', hword⟩ := ih rng
      exact ⟨_, _, hword.bind (Runs.pure _ rng')⟩
    | nonTerminal child =>
      obtain ⟨first, rng₁, hfirst⟩ := h child rng
      obtain ⟨word, rng', hword⟩ := ih rng₁
      exact ⟨_, _, hfirst.bind (hword.bind (Runs.pure _ rng'))⟩

/-- **The derivation always ends with a word**: its depth is bounded. -/
theorem exists_runs_derive (g : Grammar) (left : ℕ) (nt : String) (rng : MutationRng) :
    ∃ word rng', Runs (g.derive left nt) rng word rng' := by
  induction left generalizing nt rng with
  | zero => exact ⟨[], rng, Runs.pure [] rng⟩
  | succ left ih =>
    rw [derive]
    rcases g.rules.lookup nt with - | alts
    · exact ⟨[], rng, Runs.pure [] rng⟩
    · obtain ⟨o, rng₁, hchoose⟩ := exists_runs_choose _ alts rng
      rcases o with - | alt
      · exact ⟨_, _, hchoose.bind (Runs.pure [] rng₁)⟩
      · obtain ⟨word, rng', hword⟩ := exists_runs_deriveSymbols ih alt rng₁
        exact ⟨_, _, hchoose.bind hword⟩

/-! ### The length limit cuts the derivation -/

/-- The output with a limit, beside the word without it: it is the whole word, with the generator in
the same state, or it is as long as the limit and a beginning. -/
def Cut (maxLen : ℕ) (out word : Bytes) (rng rng' : MutationRng) : Prop :=
  (out = word ∧ rng = rng') ∨ (maxLen ≤ out.length ∧ out <+: word)

/-- Where nothing is derived, nothing is added. -/
theorem exists_runs_pure_cut (h : Runs (pure [] : Gen Bytes) rng word rng')
    (out : Bytes) :
    ∃ out' rng'', Runs (pure out : Gen Bytes) rng out' rng'' ∧
      Cut maxLen out' (out ++ word) rng'' rng' := by
  obtain ⟨rfl, rfl⟩ := (Runs.pure [] rng).unique h
  exact ⟨out, rng, Runs.pure out rng, .inl ⟨(append_nil out).symm, rfl⟩⟩

theorem runs_expandSymbols_of_le {out : Bytes} (hout : maxLen ≤ out.length)
    (symbols : List Symbol) (rng : MutationRng) :
    Runs (expandSymbols expandChild maxLen symbols out) rng out rng := by
  cases symbols with
  | nil => exact Runs.pure out rng
  | cons symbol symbols =>
    show Runs (if maxLen ≤ out.length then pure out else _) rng out rng
    rw [if_pos hout]
    exact Runs.pure out rng

theorem exists_runs_expandSymbols
    (h : ∀ child out rng word rng', Runs (deriveChild child) rng word rng' →
      ∃ out' rng'', Runs (expandChild child out) rng out' rng'' ∧
        Cut maxLen out' (out ++ word) rng'' rng')
    (hderive : Runs (deriveSymbols deriveChild symbols) rng word rng') (out : Bytes) :
    ∃ out' rng'', Runs (expandSymbols expandChild maxLen symbols out) rng out' rng'' ∧
      Cut maxLen out' (out ++ word) rng'' rng' := by
  induction symbols generalizing rng word out with
  | nil => exact exists_runs_pure_cut hderive out
  | cons symbol symbols ih =>
    by_cases hout : maxLen ≤ out.length
    · exact ⟨out, rng, runs_expandSymbols_of_le hout _ rng, .inr ⟨hout, prefix_append _ _⟩⟩
    cases symbol with
    | literal bytes =>
      rw [expandSymbols, if_neg hout]
      obtain ⟨rest, rng₁, hrest, hword⟩ := runs_bind_iff.1 hderive
      obtain ⟨rfl, rfl⟩ := (Runs.pure _ _).unique hword
      rw [← append_assoc]
      exact ih hrest _
    | nonTerminal child =>
      rw [expandSymbols, if_neg hout]
      obtain ⟨first, rng₁, hfirst, hderive⟩ := runs_bind_iff.1 hderive
      obtain ⟨rest, rng₂, hrest, hword⟩ := runs_bind_iff.1 hderive
      obtain ⟨rfl, rfl⟩ := (Runs.pure _ _).unique hword
      rw [← append_assoc]
      obtain ⟨out', rng₃, hchild, hcut⟩ := h child out rng first rng₁ hfirst
      rcases hcut with ⟨rfl, rfl⟩ | ⟨hlen, hbegin⟩
      · obtain ⟨out', rng'', hexpand, hcut⟩ := ih hrest _
        exact ⟨out', rng'', hchild.bind hexpand, hcut⟩
      · -- The child has filled the output: the symbols after it add nothing.
        exact ⟨out', rng₃, hchild.bind (runs_expandSymbols_of_le hlen symbols rng₃),
          .inr ⟨hlen, hbegin.trans (prefix_append _ _)⟩⟩

/-- **The output is cut from the derivation that starts in the same generator state.** -/
theorem exists_runs_expand (g : Grammar) (maxLen : ℕ)
    (hderive : Runs (g.derive left nt) rng word rng') (out : Bytes) :
    ∃ out' rng'', Runs (g.expand maxLen left nt out) rng out' rng'' ∧
      Cut maxLen out' (out ++ word) rng'' rng' := by
  induction left generalizing nt rng rng' word out with
  | zero => exact exists_runs_pure_cut hderive out
  | succ left ih =>
    by_cases hout : maxLen ≤ out.length
    · rw [expand, if_pos hout]
      exact ⟨out, rng, Runs.pure out rng, .inr ⟨hout, prefix_append _ _⟩⟩
    rw [expand, if_neg hout]
    rw [derive] at hderive
    rcases hlookup : g.rules.lookup nt with - | alts
    · rw [hlookup] at hderive
      exact exists_runs_pure_cut hderive out
    · rw [hlookup] at hderive
      obtain ⟨o, rng₁, hchoose, hderive⟩ := runs_bind_iff.1 hderive
      rcases o with - | alt
      · obtain ⟨out', rng'', hout', hcut⟩ := exists_runs_pure_cut hderive out
        exact ⟨out', rng'', hchoose.bind hout', hcut⟩
      · obtain ⟨out', rng'', hexpand, hcut⟩ := exists_runs_expandSymbols
          (fun child out rng word rng' hchild ↦ ih hchild out) hderive out
        exact ⟨out', rng'', hchoose.bind hexpand, hcut⟩

/-! ### Collapsing productions keep the derivation in the language -/

/-- Expanding each non-terminal by its first production with the fewest non-terminals leaves only
terminals after so many levels. -/
def collapsesWithin (g : Grammar) : ℕ → String → Bool
  | 0, _ => false
  | levels + 1, nt =>
    match (g.rules.lookup nt).bind fun alts ↦ alts.argmin nonterminalCount with
    | none => false
    | some alt => alt.all fun symbol ↦
      match symbol with
      | .literal _ => true
      | .nonTerminal child => g.collapsesWithin levels child

/-- A choice among productions takes one of them, and close to the depth limit the first with the
fewest non-terminals. -/
theorem exists_of_runs_choose {depth : ℕ} (halts : alts ≠ []) {o : Option (List Symbol)}
    (h : Runs (choose depth alts) rng o rng') :
    ∃ alt ∈ alts, o = some alt ∧
      (maxDepth ≤ depth + collapseMargin → alts.argmin nonterminalCount = some alt) := by
  rw [choose] at h
  split at h
  · obtain ⟨rfl, -⟩ := (Runs.pure _ rng).unique h
    rcases hmin : alts.argmin nonterminalCount with - | alt
    · exact absurd (argmin_eq_none.mp hmin) halts
    · exact ⟨alt, argmin_mem hmin, rfl, fun _ ↦ rfl⟩
  · next hdepth =>
    have hlen : alts.length ≠ 0 := length_eq_zero_iff.not.mpr halts
    have hindex : Runs (attempt (chooseIndex alts.length)) rng
        (some (rng.nextU64.1.toNat % alts.length)) rng.nextU64.2 := by
      rw [chooseIndex, if_neg hlen]
      rfl
    have hlt : rng.nextU64.1.toNat % alts.length < alts.length :=
      Nat.mod_lt _ (Nat.pos_of_ne_zero hlen)
    obtain ⟨index, rng₁, hattempt, h⟩ := runs_bind_iff.1 h
    obtain ⟨rfl, rfl⟩ := hindex.unique hattempt
    obtain ⟨rfl, -⟩ := (Runs.pure _ _).unique h
    exact ⟨alts[_], getElem_mem hlt, getElem?_eq_getElem hlt, fun h ↦ absurd h hdepth⟩

theorem derives_of_runs_deriveSymbols (h : ∀ child, .nonTerminal child ∈ symbols → ∀ rng word rng',
      Runs (deriveChild child) rng word rng' →
        g.toContextFree.Derives [.nonterminal child] (word.map .terminal))
    (hderive : Runs (deriveSymbols deriveChild symbols) rng word rng') :
    g.toContextFree.Derives (symbols.flatMap symbolForm) (word.map .terminal) := by
  induction symbols generalizing rng word with
  | nil =>
    obtain ⟨rfl, -⟩ := (Runs.pure [] rng).unique hderive
    exact ContextFreeGrammar.Derives.refl _
  | cons symbol symbols ih =>
    have htail := fun child hchild ↦ h child (.tail _ hchild)
    cases symbol with
    | literal bytes =>
      obtain ⟨rest, rng₁, hrest, hword⟩ := runs_bind_iff.1 hderive
      obtain ⟨rfl, rfl⟩ := (Runs.pure _ _).unique hword
      rw [map_append]
      exact derives_append (ContextFreeGrammar.Derives.refl _) (ih htail hrest)
    | nonTerminal child =>
      obtain ⟨first, rng₁, hfirst, hderive⟩ := runs_bind_iff.1 hderive
      obtain ⟨rest, rng₂, hrest, hword⟩ := runs_bind_iff.1 hderive
      obtain ⟨rfl, rfl⟩ := (Runs.pure _ _).unique hword
      rw [map_append]
      exact derives_append (h child (.head _) _ _ _ hfirst) (ih htail hrest)

/-- **No level of the derivation is missing**: a non-terminal that is met within the margin of the
depth limit collapses in the levels that are left. -/
theorem derives_of_runs_derive (hg : g.WellFormed)
    (hcollapse : ∀ nt, (g.rules.lookup nt).isSome →
      g.collapsesWithin collapseMargin nt) (hleft : left ≤ maxDepth)
    (hnt : (g.rules.lookup nt).isSome)
    (hlevels : left ≤ collapseMargin → g.collapsesWithin left nt)
    (hderive : Runs (g.derive left nt) rng word rng') :
    g.toContextFree.Derives [.nonterminal nt] (word.map .terminal) := by
  induction left generalizing nt rng word rng' with
  | zero => exact absurd (hlevels (Nat.zero_le _)) Bool.false_ne_true
  | succ left ih =>
    obtain ⟨alts, hlookup⟩ := Option.isSome_iff_exists.mp hnt
    rw [derive, hlookup] at hderive
    obtain ⟨o, rng₁, hchoose, hderive⟩ := runs_bind_iff.1 hderive
    obtain ⟨alt, halt, rfl, hmin⟩ := exists_of_runs_choose (hg.ne_nil nt alts hlookup) hchoose
    refine derives_of_rule (mem_rules_of_lookup hlookup halt)
      (derives_of_runs_deriveSymbols (fun child hchild rng word rng' ↦ ?_) hderive)
    have hdefined := hg.closed nt alts hlookup alt halt child hchild
    refine ih (Nat.le_of_succ_le hleft) hdefined fun hmargin ↦ ?_
    rcases hmargin.eq_or_lt with rfl | hlt
    · exact hcollapse child hdefined
    · -- This level was within the margin already, so its production was the collapsing one.
      have hnear : 48 ≤ 48 - (left + 1) + 8 := by
        have hmargin : left < 8 := hlt
        omega
      have hcollapses := hlevels hlt
      rw [collapsesWithin, hlookup, Option.bind_some, hmin hnear] at hcollapses
      exact all_eq_true.mp hcollapses _ hchild

/-- With a limit above its length the word of a derivation is generated whole. -/
theorem runs_generate_of_derive (hderive : Runs (g.derive maxDepth g.start) rng word rng')
    (hword : word ≠ []) {larger : ℕ} (hlarger : word.length < larger) :
    Runs (g.generate larger) rng word rng' := by
  obtain ⟨out, rng₁, hexpand, hcut⟩ := exists_runs_expand g larger hderive []
  rcases hcut with ⟨rfl, rfl⟩ | ⟨hlen, hbegin⟩
  · refine hexpand.bind ?_
    rw [if_neg (by simpa using hword), take_of_length_le hlarger.le]
    exact Runs.pure _ _
  · have := hbegin.length_le
    rw [nil_append] at this
    omega

/-- **Generation stays inside the language.** A word shorter than the limit is derivable from the
start symbol. A word as long as the limit is the beginning of the word that the same derivation,
from the same generator state, gives with a larger limit, and that word is derivable. -/
theorem generate_mem_language {rules : List (String × List String)} {start : Option String}
    {g : Grammar} (hread : fromRules rules start = .ok g)
    (hcollapse : ∀ nt, (g.rules.lookup nt).isSome = true →
      g.collapsesWithin collapseMargin nt = true)
    (maxLen : ℕ) {rng rng' : MutationRng} {out : Bytes}
    (h : Runs (g.generate maxLen) rng out rng') :
    (out.length < maxLen → out ∈ g.toContextFree.language) ∧
      (out.length = maxLen → ∃ word larger rng'', maxLen < larger ∧ word.length < larger ∧
        Runs (g.generate larger) rng word rng'' ∧ out <+: word ∧
        word ∈ g.toContextFree.language) := by
  have hg := wellFormed_of_fromRules hread
  obtain ⟨word, rng₁, hword⟩ := exists_runs_derive g maxDepth g.start rng
  have hderives : word ∈ g.toContextFree.language :=
    derives_of_runs_derive hg hcollapse le_rfl hg.start (fun h ↦ absurd h (by decide)) hword
  obtain ⟨out', rng₂, hexpand, hcut⟩ := exists_runs_expand g maxLen hword []
  obtain ⟨out₀, rng₃, hexpand₀, h⟩ := runs_bind_iff.1 h
  obtain ⟨rfl, rfl⟩ := hexpand.unique hexpand₀
  by_cases hne : out'.isEmpty = true
  · rw [if_pos hne] at h
    exact (yields_throw (P := fun _ ↦ False) () _ _ _ h).elim
  rw [if_neg hne] at h
  obtain ⟨rfl, rfl⟩ := (Runs.pure _ _).unique h
  have hbegin : out' <+: word := by
    rcases hcut with ⟨rfl, -⟩ | ⟨-, hbegin⟩
    · exact prefix_rfl
    · exact hbegin
  refine ⟨fun hshort ↦ ?_, fun hfull ↦ ?_⟩
  · rw [length_take] at hshort
    rcases hcut with ⟨rfl, -⟩ | ⟨hlen, -⟩
    · rwa [take_of_length_le (by omega)]
    · omega
  · have hword' : word ≠ [] := by
      rintro rfl
      exact hne (by simp [prefix_nil.mp hbegin])
    refine ⟨word, max maxLen word.length + 1, rng₁, by omega, by omega, ?_, ?_, hderives⟩
    · exact runs_generate_of_derive hword hword' (by omega)
    · refine .trans ?_ hbegin
      exact take_prefix _ _

/-- Nested parentheses around one letter. -/
def nested : Grammar :=
  ⟨[("START", [[.literal [40], .nonTerminal "START", .literal [41]], [.literal [121]]])], "START"⟩

theorem fromRules_nested : fromRules [("START", ["(\x7bSTART\x7d)", "y"])] none = .ok nested := by
  have hy : parseProduction "y" = [.literal [121]] := by
    simp [parseProduction, parseProductionFrom]
    decide
  have hreference : reference ['S', 'T', 'A', 'R', 'T', '}', ')'] = some ("START", [')']) := by
    decide
  have hnested : parseProduction "(\x7bSTART\x7d)" =
      [.literal [40], .nonTerminal "START", .literal [41]] := by
    show parseProductionFrom [] ['(', '{', 'S', 'T', 'A', 'R', 'T', '}', ')'] = _
    rw [parseProductionFrom, parseProductionFrom_reference _ hreference]
    simp [parseProductionFrom]
    decide
  simp only [fromRules, parseRules, map_cons, hy, hnested]
  rfl

theorem collapsesWithin_nested (nt : String) (h : (nested.rules.lookup nt).isSome) :
    nested.collapsesWithin collapseMargin nt := by
  obtain ⟨entry, hentry, hnt⟩ := lookup_isSome_iff.mp h
  obtain rfl := mem_singleton.mp hentry
  obtain rfl : nt = "START" := by simpa using hnt
  rfl

/-- One derivation, with room for the whole word and with room for two bytes of it. -/
theorem generate_mem_language_nested :
    [40, 40, 121, 41, 41] ∈ nested.toContextFree.language ∧
      ∃ word larger rng'', 2 < larger ∧ word.length < larger ∧
        Runs (nested.generate larger) ⟨2⟩ word rng'' ∧ [40, 40] <+: word ∧
        word ∈ nested.toContextFree.language :=
  ⟨(generate_mem_language fromRules_nested collapsesWithin_nested 9
      (show Runs (nested.generate 9) ⟨2⟩ [40, 40, 121, 41, 41] ⟨15755400384260043841⟩ from
        rfl)).1 (by decide),
    (generate_mem_language fromRules_nested collapsesWithin_nested 2
      (show Runs (nested.generate 2) ⟨2⟩ [40, 40] ⟨4354685564936845356⟩ from rfl)).2 rfl⟩

end Grammar

end Bhf.FuzzEngine
