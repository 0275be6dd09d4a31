import Bhf.FuzzEngine.Structured
import Bhf.Lib.Cut

/-!
# TOML and YAML values

A TOML basic string is an opening quote, a body and a closing quote as the last byte. In the body
every backslash starts an escape of two characters and every other byte is printable and no quote
(`isBasicString`). The generators write the value of a key as such a string, cut to a budget.

Escapes take two bytes, and the encoder of a byte falls back to the byte itself where an escape does
not fit any more. For a line break that leads to an underscore, but a quote or a backslash is
printable and is then written as it is. **So the string is well formed exactly if no quote and no
backslash meets the last free byte of the budget** (`isBasicString_fragment_iff`), and the lines of
a document are well formed exactly if this is so for all its values.
-/

namespace Bhf.FuzzEngine

open StateExcept List Option

variable {config : MutatorConfig} {dictionary : Dictionary}

/-! ### Basic strings -/

/-- The characters that make an escape of two characters. -/
def isTomlEscape (b : UInt8) : Bool :=
  b = quote || b = backslash || b = byte 'b' || b = byte 't' || b = byte 'n' || b = byte 'f' ||
    b = byte 'r'

/-- What follows the opening quote: a body and the closing quote, and nothing behind it. -/
def closesString : Bytes → Bool
  | [] => false
  | [b] => b = quote
  | b :: c :: rest =>
    if b = backslash then isTomlEscape c && closesString rest
    else b ≠ quote && isPrintable b && closesString (c :: rest)

def isBasicString : Bytes → Bool
  | [] => false
  | b :: rest => b = quote && closesString rest

/-- A body that is passed over, whatever follows it. -/
def Complete (body : Bytes) : Prop :=
  ∀ b rest, closesString (body ++ b :: rest) = closesString (b :: rest)

theorem complete_nil : Complete [] :=
  fun _ _ ↦ rfl

theorem Complete.append {a b : Bytes} (ha : Complete a) (hb : Complete b) : Complete (a ++ b) := by
  intro c rest
  rw [append_assoc]
  rcases b with - | ⟨d, b⟩
  · exact ha c rest
  · exact (ha d (b ++ c :: rest)).trans (hb c rest)

variable {b : UInt8} {maxLen : ℕ} {key : Bytes}

theorem complete_escape (h : isTomlEscape b) : Complete [backslash, b] := by
  intro c rest
  show (if backslash = backslash then isTomlEscape b && closesString (c :: rest) else _) = _
  rw [if_pos rfl, h, Bool.true_and]

theorem complete_printable (h : isPrintable b) (hquote : b ≠ quote) (hbackslash : b ≠ backslash) :
    Complete [b] := by
  intro c rest
  show (if b = backslash then _ else _) = _
  rw [if_neg hbackslash, h, decide_eq_true hquote]
  rfl

/-! ### The loop over a token -/

/-- The bytes that do not fall back to something harmless. -/
def isDelicate (b : UInt8) : Bool :=
  b = quote || b = backslash

theorem complete_tomlStringByte {fits : Bool} (h : fits || !isDelicate b) :
    Complete (tomlStringByte fits b) := by
  rw [tomlStringByte]
  split
  · next hb =>
    refine complete_escape ?_
    simp only [isTomlEscape, Bool.or_eq_true, Bool.and_eq_true] at hb ⊢
    tauto
  split
  · exact complete_escape (by decide)
  split
  · exact complete_escape (by decide)
  split
  · exact complete_escape (by decide)
  split
  · next hb _ _ _ hprintable =>
    have hdelicate : ¬isDelicate b := by
      intro hdelicate
      rw [isDelicate] at hdelicate
      rcases fits
      · simp [isDelicate, hdelicate] at h
      · exact hb (by rw [hdelicate]; rfl)
    simp only [isDelicate, Bool.or_eq_true, decide_eq_true_iff, not_or] at hdelicate
    exact complete_printable hprintable hdelicate.1 hdelicate.2
  · exact complete_printable (by decide) (by decide) (by decide)

/-- What a token is written as if there is room for all of it. -/
def tomlStringBytes (token : Bytes) : Bytes :=
  token.flatMap (tomlStringByte true)

/-- No quote and no backslash of the token meets the last free byte, if `used` bytes are used
up. -/
def EscapesFitFrom (used : ℕ) (token : Bytes) (maxLen : ℕ) : Prop :=
  ∀ before b after, token = before ++ b :: after → isDelicate b →
    used + (tomlStringBytes before).length + 2 ≠ maxLen

theorem escapesFitFrom_nil (used maxLen : ℕ) : EscapesFitFrom used [] maxLen := by
  intro before b after h
  simp at h

theorem escapesFitFrom_cons (used : ℕ) (b : UInt8) (token : Bytes) (maxLen : ℕ) :
    EscapesFitFrom used (b :: token) maxLen ↔ (isDelicate b → used + 2 ≠ maxLen) ∧
      EscapesFitFrom (used + (tomlStringByte true b).length) token maxLen := by
  have hlen : ∀ before : Bytes, (tomlStringBytes (b :: before)).length =
      (tomlStringByte true b).length + (tomlStringBytes before).length := by
    intro before
    rw [tomlStringBytes, flatMap_cons, length_append]
    rfl
  constructor
  · intro h
    refine ⟨fun hb ↦ h [] b token rfl hb, fun before c after htoken hc ↦ ?_⟩
    have := h (b :: before) c after (by rw [htoken]; rfl) hc
    rw [hlen] at this
    omega
  · rintro ⟨hb, htoken⟩ before c after hsplit hc
    rcases before with - | ⟨d, before⟩
    · obtain ⟨rfl, -⟩ := cons.inj hsplit
      exact hb hc
    · obtain ⟨rfl, hrest⟩ := cons.inj hsplit
      have := htoken before c after hrest hc
      rw [hlen]
      omega

theorem pushWhile_pushTomlString_of_full {output : Bytes} (h : maxLen ≤ output.length + 1)
    (token : Bytes) : pushWhile (pushTomlString maxLen) output token = output := by
  rcases token with - | ⟨b, token⟩
  · rfl
  · rw [pushWhile, pushTomlString, if_pos h]

theorem one_le_length_tomlStringByte (fits : Bool) (b : UInt8) :
    1 ≤ (tomlStringByte fits b).length := by
  rw [tomlStringByte]
  repeat' split
  all_goals simp

theorem length_tomlStringByte_le (fits : Bool) (b : UInt8) :
    (tomlStringByte fits b).length ≤ 2 := by
  rw [tomlStringByte]
  repeat' split
  all_goals simp

theorem length_tomlStringByte_false (b : UInt8) : (tomlStringByte false b).length = 1 := by
  simp only [tomlStringByte, Bool.and_false, Bool.false_eq_true, if_false]
  split <;> rfl

theorem tomlStringByte_false_of_delicate (h : isDelicate b) : tomlStringByte false b = [b] := by
  have hprintable : isPrintable b := by
    simp only [isDelicate, Bool.or_eq_true, decide_eq_true_iff] at h
    rcases h with rfl | rfl
    · decide
    · decide
  simp only [tomlStringByte, Bool.and_false, Bool.false_eq_true, if_false]
  rw [if_pos hprintable]

/-- **What the loop appends**: a complete body, or one that ends in a quote or a backslash for which
there was one free byte. -/
theorem pushWhile_pushTomlString (maxLen : ℕ) (token : Bytes) :
    ∀ output : Bytes, ∃ body,
      pushWhile (pushTomlString maxLen) output token = output ++ body ∧
      (EscapesFitFrom output.length token maxLen → Complete body) ∧
      (¬EscapesFitFrom output.length token maxLen →
        ∃ done b, body = done ++ [b] ∧ Complete done ∧ isDelicate b) := by
  induction token with
  | nil =>
    exact fun output ↦ ⟨[], (append_nil _).symm, fun _ ↦ complete_nil,
      fun h ↦ absurd (escapesFitFrom_nil _ _) h⟩
  | cons b token ih =>
    intro output
    obtain hfull | hfits | hlast : maxLen ≤ output.length + 1 ∨ output.length + 3 ≤ maxLen ∨
        output.length + 2 = maxLen := by
      omega
    · exact ⟨[], by rw [pushWhile_pushTomlString_of_full hfull, append_nil],
        fun _ ↦ complete_nil, fun h ↦ absurd (fun _ _ _ _ _ ↦ by omega) h⟩
    · -- There is room for an escape: the byte makes a complete piece.
      obtain ⟨body, hbody, hgood, hbad⟩ := ih _
      have hpiece : Complete (tomlStringByte true b) := complete_tomlStringByte rfl
      have hiff : EscapesFitFrom output.length (b :: token) maxLen ↔
          EscapesFitFrom (output ++ tomlStringByte true b).length token maxLen := by
        rw [escapesFitFrom_cons, length_append, and_iff_right]
        omega
      refine ⟨tomlStringByte true b ++ body, ?_, fun h ↦ hpiece.append (hgood (hiff.1 h)),
        fun h ↦ ?_⟩
      · rw [pushWhile, pushTomlString, if_neg (by omega), decide_eq_true hfits, ← append_assoc]
        exact hbody
      · obtain ⟨done, c, rfl, hdone, hc⟩ := hbad (mt hiff.2 h)
        exact ⟨tomlStringByte true b ++ done, c, (append_assoc _ _ _).symm, hpiece.append hdone, hc⟩
    · -- The last free byte: what is written for it ends the loop.
      have hpush : pushWhile (pushTomlString maxLen) output (b :: token) =
          output ++ tomlStringByte false b := by
        rw [pushWhile, pushTomlString, if_neg (by omega), decide_eq_false (by omega)]
        refine pushWhile_pushTomlString_of_full ?_ token
        rw [length_append, length_tomlStringByte_false]
        omega
      refine ⟨tomlStringByte false b, hpush, fun h ↦ ?_, fun h ↦ ?_⟩
      · have hb := ((escapesFitFrom_cons _ _ _ _).1 h).1
        refine complete_tomlStringByte ?_
        rcases hdelicate : isDelicate b with - | -
        · rfl
        · exact absurd hlast (hb hdelicate)
      · have hb : isDelicate b := by
          by_contra hb
          refine h ((escapesFitFrom_cons _ _ _ _).2 ⟨fun hdelicate ↦ absurd hdelicate hb, ?_⟩)
          intro before c after _ _
          have := one_le_length_tomlStringByte true b
          omega
        exact ⟨[], b, tomlStringByte_false_of_delicate hb, complete_nil, hb⟩

/-! ### The fragment -/

theorem length_pushTomlString_le (hmax : 2 ≤ maxLen) (token : Bytes) :
    (pushWhile (pushTomlString maxLen) [quote] token).length ≤ maxLen - 1 := by
  refine length_pushWhile_le (fun output b output' _ h ↦ ?_) token [quote] ?_
  · rw [pushTomlString] at h
    split at h
    · contradiction
    obtain ⟨⟩ := h
    rw [length_append]
    by_cases hfits : output.length + 3 ≤ maxLen
    · have := length_tomlStringByte_le (decide (output.length + 3 ≤ maxLen)) b
      omega
    · rw [decide_eq_false hfits, length_tomlStringByte_false]
      omega
  · rw [length_singleton]
    omega

/-- No quote and no backslash meets the last free byte of the budget: what the token's bytes before
it are written as, the opening and the closing quote leave room for more or less than one byte. -/
abbrev EscapesFit (token : Bytes) (maxLen : ℕ) : Prop :=
  EscapesFitFrom 1 token maxLen

/-- **The fragment is a basic string exactly if the escapes fit.** -/
theorem isBasicString_fragment_iff (token : Bytes) (hmax : 2 ≤ maxLen) :
    ∃ out, tomlBasicStringFragment token maxLen = some out ∧ out.length ≤ maxLen ∧
      (isBasicString out ↔ EscapesFit token maxLen) := by
  obtain ⟨body, hbody, hgood, hbad⟩ := pushWhile_pushTomlString maxLen token [quote]
  have hlen := length_pushTomlString_le hmax token
  rw [hbody] at hlen
  rw [tomlBasicStringFragment, if_neg (by omega), hbody]
  refine ⟨_, rfl, ?_, ?_⟩
  · split
    · next hempty =>
      rw [Bool.and_eq_true, decide_eq_true_iff, decide_eq_true_iff] at hempty
      simp only [length_append, length_singleton] at hempty ⊢
      omega
    · rw [length_append, length_singleton]
      omega
  · by_cases hfits : EscapesFit token maxLen
    · refine iff_of_true ?_ hfits
      split
      · show closesString ((body ++ [byte 'x']) ++ [quote])
        have hx : Complete [byte 'x'] := complete_printable rfl (by decide) (by decide)
        exact ((hgood hfits).append hx) quote []
      · show closesString (body ++ [quote])
        exact hgood hfits quote []
    · refine iff_of_false ?_ hfits
      obtain ⟨done, b, rfl, hdone, hb⟩ := hbad hfits
      rw [if_neg (by simp)]
      show ¬closesString ((done ++ [b]) ++ [quote])
      rw [append_assoc, show closesString (done ++ ([b] ++ [quote])) = _ from hdone b [quote]]
      simp only [isDelicate, Bool.or_eq_true, decide_eq_true_iff] at hb
      rcases hb with rfl | rfl
      · decide
      · decide

/-! ### Lines -/

def isBareKeyByte (b : UInt8) : Bool :=
  isAlphabetic b || isDigit b || b = byte '_' || b = byte '-'

/-- A bare key, and behind it something of a kind. -/
def isKeyThen (rest : Bytes → Bool) (line : Bytes) : Bool :=
  !(line.takeWhile isBareKeyByte).isEmpty && rest (line.dropWhile isBareKeyByte)

/-- A fixed text, and behind it something of a kind. -/
def isTextThen (text : Bytes) (rest : Bytes → Bool) (line : Bytes) : Bool :=
  text.isPrefixOf line && rest (line.drop text.length)

/-- A table header, or a key with a basic string. -/
def isTomlLine (line : Bytes) : Bool :=
  isTextThen (bytes "[") (isKeyThen (· = bytes "]")) line ||
    isKeyThen (isTextThen (bytes " = ") isBasicString) line

/-- A key that opens a mapping, or an indented key with a basic string, which is a double-quoted
scalar of YAML as well. -/
def isYamlLine (line : Bytes) : Bool :=
  isKeyThen (· = bytes ":") line ||
    isTextThen (bytes "  ") (isKeyThen (isTextThen (bytes ": ") isBasicString)) line

/-- Every line is closed by a line break and of this kind. -/
def Lexes (isLine : Bytes → Bool) (text : Bytes) : Prop :=
  ∀ line ∈ cutAfter newline text, line.2 = true ∧ isLine line.1 = true

/-- A bare key. -/
structure BareKey (key : Bytes) : Prop where
  /-- Its bytes need no quotes. -/
  bare : ∀ b ∈ key, isBareKeyByte b
  /-- There is at least one. -/
  ne_nil : key ≠ []

theorem BareKey.isKeyThen (h : BareKey key) (rest : Bytes → Bool)
    (hb : isBareKeyByte b = false) (text : Bytes) :
    isKeyThen rest (key ++ b :: text) = rest (b :: text) := by
  rw [FuzzEngine.isKeyThen, takeWhile_append_of_pos h.bare,
    dropWhile_append_of_pos h.bare, takeWhile_cons_of_neg (by simp [hb]),
    dropWhile_cons_of_neg (by simp [hb]), append_nil]
  have hne : key.isEmpty = false := by simpa using h.ne_nil
  rw [hne]
  rfl

theorem BareKey.newline_notMem (h : BareKey key) : newline ∉ key :=
  fun hmem ↦ absurd (h.bare newline hmem) (by decide)

theorem isTextThen_append (text : Bytes) (rest : Bytes → Bool) (line : Bytes) :
    isTextThen text rest (text ++ line) = rest line := by
  rw [isTextThen, drop_left, isPrefixOf_iff_prefix.2 (prefix_append _ _)]
  rfl

variable {name value token out : Bytes} {format : SectionFormat}

theorem isTomlLine_header (h : BareKey name) : isTomlLine (bytes "[" ++ (name ++ bytes "]")) := by
  rw [isTomlLine, isTextThen_append]
  rw [show bytes "]" = [byte ']'] from rfl, h.isKeyThen _ (by decide)]
  simp

theorem isTomlLine_pair (h : BareKey key) :
    isTomlLine (key ++ (bytes " = " ++ value)) = isBasicString value := by
  have hhead : isTextThen (bytes "[") (isKeyThen (· = bytes "]"))
      (key ++ (bytes " = " ++ value)) = false := by
    rcases key with - | ⟨b, key⟩
    · exact absurd rfl h.ne_nil
    have hb : byte '[' ≠ b := by
      rintro rfl
      exact absurd (h.bare _ mem_cons_self) (by decide)
    show (((byte '[' == b) && _) && _) = false
    rw [beq_false_of_ne hb]
    rfl
  rw [isTomlLine, hhead]
  show isKeyThen _ (key ++ byte ' ' :: (bytes "= " ++ value)) = _
  rw [h.isKeyThen _ (by decide)]
  exact isTextThen_append _ isBasicString value

theorem isYamlLine_header (h : BareKey name) : isYamlLine (name ++ bytes ":") := by
  rw [isYamlLine, show bytes ":" = [byte ':'] from rfl, h.isKeyThen _ (by decide)]
  simp

theorem isYamlLine_pair (h : BareKey key) :
    isYamlLine (bytes "  " ++ (key ++ (bytes ": " ++ value))) = isBasicString value := by
  show (false || isKeyThen _ (key ++ byte ':' :: (bytes " " ++ value))) = _
  rw [h.isKeyThen _ (by decide)]
  exact isTextThen_append (bytes ": ") isBasicString value

/-! ### Sections -/

theorem isBareKeyByte_tomlBareKeyByte (isFirst : Bool) (b : UInt8) :
    isBareKeyByte (tomlBareKeyByte isFirst b) := by
  rw [tomlBareKeyByte]
  split
  · assumption
  split
  · decide
  split
  · decide
  · decide

theorem bareKey_tomlBareKeyFragment (h : tomlBareKeyFragment token maxLen = some out) :
    BareKey out := by
  rw [tomlBareKeyFragment] at h
  split at h
  · contradiction
  obtain ⟨⟩ := h
  have hbare : ∀ b ∈ pushWhile (pushing (translated tomlBareKeyByte) maxLen) [] token,
      isBareKeyByte b := by
    refine pushWhile_invariant (I := fun output ↦ ∀ b ∈ output, isBareKeyByte b)
      (fun output b output' houtput hstep ↦ ?_) token [] (by simp)
    rw [pushing] at hstep
    split at hstep
    · contradiction
    · obtain ⟨⟩ := hstep
      rw [translated]
      simpa [or_imp, forall_and] using ⟨houtput, isBareKeyByte_tomlBareKeyByte _ b⟩
  rw [orByte]
  split
  · exact ⟨by simp; decide, by simp⟩
  · next hne => exact ⟨hbare, by simpa using hne⟩

theorem newline_notMem_tomlStringByte (fits : Bool) (b : UInt8) :
    newline ∉ tomlStringByte fits b := by
  rw [tomlStringByte]
  split
  · next h =>
    simp only [Bool.and_eq_true, Bool.or_eq_true, decide_eq_true_iff] at h
    rcases h.1 with rfl | rfl
    · decide
    · decide
  split
  · decide
  split
  · decide
  split
  · decide
  split
  · next h =>
    rw [mem_singleton]
    rintro rfl
    exact absurd h (by decide)
  · decide

theorem newline_notMem_fragment (h : tomlBasicStringFragment token maxLen = some out) :
    newline ∉ out := by
  rw [tomlBasicStringFragment] at h
  split at h
  · contradiction
  obtain ⟨⟩ := h
  have hbody : newline ∉ pushWhile (pushTomlString maxLen) [quote] token := by
    refine pushWhile_invariant (I := fun output ↦ newline ∉ output)
      (fun output b output' houtput hstep ↦ ?_) token [quote] (by decide)
    rw [pushTomlString] at hstep
    split at hstep
    · contradiction
    · obtain ⟨⟩ := hstep
      rw [mem_append, not_or]
      exact ⟨houtput, newline_notMem_tomlStringByte _ b⟩
  have hquote : newline ∉ [quote] := by decide
  split
  · simp only [mem_append, not_or]
    exact ⟨⟨hbody, by decide⟩, hquote⟩
  · simp only [mem_append, not_or]
    exact ⟨hbody, hquote⟩

/-- The tokens of a round: for the name, for the key and for the value. -/
def drawTokens (dictionary : Dictionary) : Gen (Bytes × Bytes × Bytes) := do
  return (← dictionary.choose, ← dictionary.choose, ← dictionary.choose)

/-- A section that a round writes behind `before`, with the tokens drawn in the state `rng`. -/
structure Section (format : SectionFormat) (dictionary : Dictionary) (maxLen : ℕ)
    (before : Bytes) (rng : MutationRng) where
  /-- The tokens drawn. -/
  tokens : Bytes × Bytes × Bytes
  /-- The generator after the draws. -/
  next : MutationRng
  /-- They were drawn one after the other. -/
  drawn : Runs (drawTokens dictionary) rng tokens next
  /-- What is written for the name, for the key and for the value. -/
  name : Bytes
  key : Bytes
  value : Bytes
  /-- The name has a third of the free bytes, and at most 32. -/
  name_eq : format.nameFragment tokens.1
    (clamp ((maxLen - before.length - format.overhead) / 3) 1 32) = some name
  /-- The key has half of what the name leaves. -/
  key_eq : format.nameFragment tokens.2.1
    (max ((maxLen - before.length - format.overhead - name.length) / 2) 1) = some key
  /-- The value has what the name and the key leave. -/
  value_eq : format.valueFragment tokens.2.2
    (maxLen - before.length - format.overhead - name.length - key.length) = some value
  /-- That is enough for a value. -/
  enough : format.minValueLen ≤
    maxLen - before.length - format.overhead - name.length - key.length

/-- The token drawn for the value and the budget its round gives it. -/
def Section.spent {format : SectionFormat} {maxLen : ℕ} {before : Bytes} {rng : MutationRng}
    (item : Section format dictionary maxLen before rng) : Bytes × ℕ :=
  (item.tokens.2.2, maxLen - before.length - format.overhead - item.name.length - item.key.length)

/-- Sections written one behind the other, and what their values were made of. -/
inductive Document (format : SectionFormat) (dictionary : Dictionary) (maxLen : ℕ) :
    Bytes → MutationRng → List (Bytes × ℕ) → Bytes → Prop
  | nil {out : Bytes} {rng : MutationRng} : Document format dictionary maxLen out rng [] out
  | cons {before out : Bytes} {rng : MutationRng} {values : List (Bytes × ℕ)}
      (item : Section format dictionary maxLen before rng)
      (hrest : Document format dictionary maxLen
        (before ++ format.write item.name item.key item.value) item.next values out) :
      Document format dictionary maxLen before rng (item.spent :: values) out

/-- A format that writes a bare key and a basic string on two lines, of which the first is always in
order and the second one iff the string is. -/
structure SectionFormat.WritesLines (format : SectionFormat) (isLine : Bytes → Bool) :
    Prop where
  /-- Names and keys are bare keys. -/
  nameFragment : format.nameFragment = tomlBareKeyFragment
  /-- Values are basic strings. -/
  valueFragment : format.valueFragment = tomlBasicStringFragment
  /-- A value has room for its quotes. -/
  minValueLen : format.minValueLen = 2
  /-- A section is a header and a pair. -/
  lines : ∀ {name key value}, BareKey name → BareKey key → newline ∉ value →
    ∃ header pair, format.write name key value = header ++ newline :: (pair ++ [newline]) ∧
      newline ∉ header ∧ newline ∉ pair ∧ isLine header ∧ isLine pair = isBasicString value

variable {isLine : Bytes → Bool} {before : Bytes} {rng rng' : MutationRng}
  {values : List (Bytes × ℕ)}

/-- **The lines of the sections are well formed iff the escapes of every value fit.** -/
theorem Document.lexes_iff (hformat : format.WritesLines isLine)
    (h : Document format dictionary maxLen before rng values out) :
    ∃ text, out = before ++ text ∧
      (Lexes isLine text ↔ ∀ value ∈ values, EscapesFit value.1 value.2) := by
  induction h with
  | nil => exact ⟨[], (append_nil _).symm, by simp [Lexes, cutAfter]⟩
  | @cons before out rng values item _ ih =>
    obtain ⟨text, rfl, hiff⟩ := ih
    have hname := item.name_eq
    have hkey := item.key_eq
    have hvalue := item.value_eq
    have henough := item.enough
    rw [hformat.nameFragment] at hname hkey
    rw [hformat.valueFragment] at hvalue
    rw [hformat.minValueLen] at henough
    obtain ⟨header, pair, hwrite, hheader, hpair, hisHeader, hisPair⟩ :=
      hformat.lines (bareKey_tomlBareKeyFragment hname) (bareKey_tomlBareKeyFragment hkey)
        (newline_notMem_fragment hvalue)
    obtain ⟨value, hfragment, -, hstring⟩ := isBasicString_fragment_iff item.tokens.2.2 henough
    obtain rfl : value = item.value := some.inj (hfragment.symm.trans hvalue)
    refine ⟨_, append_assoc _ _ _, ?_⟩
    rw [hwrite, Lexes, append_assoc, cons_append, append_assoc, singleton_append,
      cutAfter_append_cons hheader, cutAfter_append_cons hpair, forall_mem_cons, forall_mem_cons,
      forall_mem_cons, hisHeader, hisPair, hstring, ← hiff, Lexes, Section.spent]
    simp

theorem runs_orGiveUp {α : Type} {o : Option α} {a : α} (h : Runs (orGiveUp o) rng a rng') :
    o = some a ∧ rng = rng' := by
  cases o with
  | none => obtain ⟨⟩ := h
  | some b =>
    obtain ⟨⟩ := h
    exact ⟨rfl, rfl⟩

theorem runs_checkedSub {a b c : ℕ} (h : Runs (orGiveUp (checkedSub a b)) rng c rng') :
    c = a - b ∧ rng = rng' := by
  obtain ⟨hsub, hrng⟩ := runs_orGiveUp h
  have := checkedSub_eq_some hsub
  exact ⟨by omega, hrng⟩

/-- A round leaves the output alone and is the last one, or it writes a section. -/
theorem runs_sectionRound {t : Bytes × ℕ} {r : Flow (Bytes × ℕ)}
    (h : Runs (sectionRound format config dictionary t) rng r rng') :
    r = .stop t ∨ ∃ item : Section format dictionary config.maxLen t.1 rng,
      r.state.1 = t.1 ++ format.write item.name item.key item.value ∧ rng' = item.next := by
  obtain ⟨available, _, h₁, h⟩ := runs_bind_iff.1 h
  obtain ⟨rfl, rfl⟩ := runs_checkedSub h₁
  split_ifs at h
  · obtain ⟨⟩ := h
    exact .inl rfl
  obtain ⟨nameToken, _, hnameToken, h⟩ := runs_bind_iff.1 h
  obtain ⟨keyToken, _, hkeyToken, h⟩ := runs_bind_iff.1 h
  obtain ⟨valueToken, _, hvalueToken, h⟩ := runs_bind_iff.1 h
  obtain ⟨payloadBudget, _, h₁, h⟩ := runs_bind_iff.1 h
  obtain ⟨rfl, rfl⟩ := runs_checkedSub h₁
  obtain ⟨name, _, h₁, h⟩ := runs_bind_iff.1 h
  obtain ⟨hname, rfl⟩ := runs_orGiveUp h₁
  obtain ⟨remaining, _, h₁, h⟩ := runs_bind_iff.1 h
  obtain ⟨rfl, rfl⟩ := runs_checkedSub h₁
  obtain ⟨key, _, h₁, h⟩ := runs_bind_iff.1 h
  obtain ⟨hkey, rfl⟩ := runs_orGiveUp h₁
  obtain ⟨valueBudget, _, h₁, h⟩ := runs_bind_iff.1 h
  obtain ⟨rfl, rfl⟩ := runs_checkedSub h₁
  split_ifs at h with hbudget
  · obtain ⟨⟩ := h
    exact .inl rfl
  obtain ⟨value, _, h₁, h⟩ := runs_bind_iff.1 h
  obtain ⟨hvalue, rfl⟩ := runs_orGiveUp h₁
  obtain ⟨⟩ := h
  have hdrawn : Runs (drawTokens dictionary) rng (nameToken, keyToken, valueToken) _ :=
    hnameToken.bind (hkeyToken.bind (hvalueToken.bind rfl))
  exact .inr ⟨⟨_, _, hdrawn, name, key, value, hname, hkey, hvalue, not_lt.1 hbudget⟩,
    by rw [Flow.state_nextUnless], rfl⟩

theorem document_of_runs_rounds {n : ℕ} {t t' : Bytes × ℕ}
    (h : Runs (rounds (sectionRound format config dictionary) n t) rng t' rng') :
    ∃ values, values.length ≤ n ∧
      Document format dictionary config.maxLen t.1 rng values t'.1 := by
  induction n generalizing t rng with
  | zero =>
    obtain ⟨⟩ := h
    exact ⟨[], Nat.zero_le _, .nil⟩
  | succ n ih =>
    obtain ⟨r, rng₁, hround, h⟩ := runs_bind_iff.1 h
    rcases runs_sectionRound hround with rfl | ⟨item, hitem, rfl⟩
    · obtain ⟨⟩ := h
      exact ⟨[], Nat.zero_le _, .nil⟩
    cases r with
    | next t₁ =>
      obtain ⟨values, hlen, hvalues⟩ := ih h
      exact ⟨item.spent :: values, Nat.succ_le_succ hlen, .cons item (hitem ▸ hvalues)⟩
    | stop t₁ =>
      obtain ⟨⟩ := h
      exact ⟨[item.spent], Nat.succ_le_succ (Nat.zero_le n), .cons item (hitem ▸ Document.nil)⟩

/-- A generator draws how many sections to write at most, and returns them. -/
theorem document_of_runs_sections {enabled : Bool} (hformat : format.WritesLines isLine)
    (h : Runs (structuredSections format enabled config dictionary) rng out rng') :
    ∃ requested start values, Runs (chooseIndex format.maxItems) rng requested start ∧
      values.length ≤ 1 + requested ∧
      Document format dictionary config.maxLen [] start values out ∧
      (Lexes isLine out ↔ ∀ value ∈ values, EscapesFit value.1 value.2) := by
  have hgiveUp {b : Bool} {u : Unit} {r r' : MutationRng} (h : Runs (giveUpIf b) r u r') :
      r = r' := by
    cases b with
    | true => obtain ⟨⟩ := h
    | false =>
      obtain ⟨⟩ := h
      rfl
  obtain ⟨_, _, h₁, h⟩ := runs_bind_iff.1 h
  obtain rfl := hgiveUp h₁
  obtain ⟨requested, start, hrequested, h⟩ := runs_bind_iff.1 h
  obtain ⟨t, _, hrounds, h⟩ := runs_bind_iff.1 h
  obtain ⟨_, _, -, h⟩ := runs_bind_iff.1 h
  obtain rfl : t.1 = out := by
    rw [withinLimit] at h
    split_ifs at h
    · obtain ⟨⟩ := h
      rfl
    · obtain ⟨⟩ := h
  obtain ⟨values, hlen, hdocument⟩ := document_of_runs_rounds hrounds
  obtain ⟨_, rfl, hiff⟩ := hdocument.lexes_iff hformat
  exact ⟨requested, start, values, hrequested, hlen, hdocument, hiff⟩

theorem writesLines_toml : tomlFormat.WritesLines isTomlLine := by
  refine ⟨rfl, rfl, rfl, fun {name key value} hname hkey hvalue ↦ ⟨bytes "[" ++ (name ++ bytes "]"),
    key ++ (bytes " = " ++ value), ?_, ?_, ?_, isTomlLine_header hname, isTomlLine_pair hkey⟩⟩
  · simp [tomlFormat, bytes, newline, byte]
  · simp only [mem_append, not_or]
    exact ⟨by decide, hname.newline_notMem, by decide⟩
  · simp only [mem_append, not_or]
    exact ⟨hkey.newline_notMem, by decide, hvalue⟩

theorem writesLines_yaml : yamlFormat.WritesLines isYamlLine := by
  refine ⟨rfl, rfl, rfl, fun {name key value} hname hkey hvalue ↦ ⟨name ++ bytes ":",
    bytes "  " ++ (key ++ (bytes ": " ++ value)), ?_, ?_, ?_, isYamlLine_header hname,
    isYamlLine_pair hkey⟩⟩
  · simp [yamlFormat, bytes, newline, byte]
  · simp only [mem_append, not_or]
    exact ⟨hname.newline_notMem, by decide⟩
  · simp only [mem_append, not_or]
    exact ⟨by decide, hkey.newline_notMem, by decide, hvalue⟩

/-- **When the generated strings and lines are well formed.** The fragment of a token is a basic
string within its budget iff the escapes fit. What the TOML and the YAML generator return, for every
dictionary, length limit and state of the random numbers, is the document of sections that are
drawn, and its lines are all well formed iff the escapes of every token drawn for a value fit in the
budget that its round gives it. -/
theorem generated_strings_wellFormed_iff (token : Bytes) (maxLen : ℕ) (hmax : 2 ≤ maxLen) :
    (∃ out, tomlBasicStringFragment token maxLen = some out ∧ out.length ≤ maxLen ∧
      (isBasicString out ↔ EscapesFit token maxLen)) ∧
    (∀ config dictionary rng out rng', Runs (structuredToml config dictionary) rng out rng' →
      ∃ requested start values, Runs (chooseIndex tomlFormat.maxItems) rng requested start ∧
        values.length ≤ 1 + requested ∧
        Document tomlFormat dictionary config.maxLen [] start values out ∧
        (Lexes isTomlLine out ↔ ∀ value ∈ values, EscapesFit value.1 value.2)) ∧
    ∀ config dictionary rng out rng', Runs (structuredYaml config dictionary) rng out rng' →
      ∃ requested start values, Runs (chooseIndex yamlFormat.maxItems) rng requested start ∧
        values.length ≤ 1 + requested ∧
        Document yamlFormat dictionary config.maxLen [] start values out ∧
        (Lexes isYamlLine out ↔ ∀ value ∈ values, EscapesFit value.1 value.2) :=
  ⟨isBasicString_fragment_iff token hmax,
    fun _ _ _ _ _ hrun ↦ document_of_runs_sections writesLines_toml hrun,
    fun _ _ _ _ _ hrun ↦ document_of_runs_sections writesLines_yaml hrun⟩

/-- A quote with room for its escape. -/
theorem generated_quote_wellFormed :
    ∃ out, tomlBasicStringFragment [quote] 4 = some out ∧ out.length ≤ 4 ∧ isBasicString out := by
  obtain ⟨⟨out, hout, hlen, hiff⟩, -⟩ := generated_strings_wellFormed_iff [quote] 4 (by decide)
  refine ⟨out, hout, hlen, hiff.2 ?_⟩
  rw [EscapesFit, escapesFitFrom_cons]
  exact ⟨fun _ ↦ by decide, escapesFitFrom_nil _ _⟩

/-- A quote that meets the last free byte stands unescaped. -/
theorem generated_quote_unescaped :
    tomlBasicStringFragment [quote] 3 = some [quote, quote, quote] ∧
      isBasicString [quote, quote, quote] = false := by
  decide

end Bhf.FuzzEngine
