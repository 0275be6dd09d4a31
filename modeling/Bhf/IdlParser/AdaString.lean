import Bhf.IdlParser.Scan

/-!
# String constants in generated Ada

A string constant is emitted as an Ada expression. A literal holds graphic characters only, so the
others are concatenated in as `Character'Val` terms. In Ada the concatenation of two characters is
a string, but **a character alone is not**: a value that is one control character is emitted as an
expression of another type (`denotes_renderAdaString_iff`).
-/

namespace Bhf.IdlParser

open List

/-! ### Rendering -/

def isAdaGraphic (ch : Char) : Bool :=
  (' ' ≤ ch && ch ≤ '~') || ('\u00a0' ≤ ch && ch ≤ '\u00ff')

def maxAdaCharacter : ℕ := 255

def clampAdaCodePoint (ch : Char) : ℕ :=
  if maxAdaCharacter < ch.toNat then '?'.toNat else ch.toNat

/-- A quote is doubled inside a literal. -/
def doubled (ch : Char) : Text :=
  if ch = '"' then ['"', ch] else [ch]

def quoted (run : Text) : Text :=
  '"' :: (run ++ ['"'])

def characterVal (code : ℕ) : Text :=
  "Character'Val (".toList ++ (toString code).toList ++ ")".toList

def flushRun (run : Text) : List Text :=
  if run.isEmpty then [] else [quoted run]

/-- The parts of the expression, after a run of graphic characters. -/
def adaParts : Text → Text → List Text
  | run, [] => flushRun run
  | run, ch :: value =>
    if isAdaGraphic ch then adaParts (run ++ doubled ch) value
    else flushRun run ++ characterVal (clampAdaCodePoint ch) :: adaParts [] value

def renderAdaString (value : Text) : Text :=
  let parts := adaParts [] value
  if parts.isEmpty then quoted [] else " & ".toList.intercalate parts

/-! ### What an expression denotes -/

/-- An operand of a concatenation. -/
inductive AdaOperand where
  | string (value : Text) (h : ∀ ch ∈ value, isAdaGraphic ch)
  | character (code : Fin 256)

namespace AdaOperand

def text : AdaOperand → Text
  | string value _ => quoted (value.flatMap doubled)
  | character code => characterVal code

def value : AdaOperand → Text
  | string value _ => value
  | character code => [Char.ofNat code]

def IsString : AdaOperand → Prop
  | string _ _ => True
  | character _ => False

end AdaOperand

/-- The text is an Ada expression of type `String` for the value: a concatenation is a string, and
so is a string alone. -/
def Denotes (text value : Text) : Prop :=
  ∃ operands : List AdaOperand, text = " & ".toList.intercalate (operands.map (·.text)) ∧
    value = operands.flatMap (·.value) ∧
    (2 ≤ operands.length ∨ ∃ operand ∈ operands, operand.IsString)

/-- Parts that spell a value; only what no literal can hold stands alone. -/
def Spells (parts : List Text) (value : Text) : Prop :=
  ∃ operands : List AdaOperand, operands.map (·.text) = parts ∧
    operands.flatMap (·.value) = value ∧ ∀ operand ∈ operands, operand.IsString ∨
      ∃ ch, operand.value = [ch] ∧ isAdaGraphic ch = false

theorem Spells.append {parts parts' : List Text} {value value' : Text} (h : Spells parts value)
    (h' : Spells parts' value') : Spells (parts ++ parts') (value ++ value') := by
  obtain ⟨operands, rfl, rfl, halone⟩ := h
  obtain ⟨operands', rfl, rfl, halone'⟩ := h'
  refine ⟨operands ++ operands', map_append, flatMap_append, fun operand hmem ↦ ?_⟩
  exact (mem_append.mp hmem).elim (halone operand) (halone' operand)

theorem spells_flushRun {run : Text} (h : ∀ ch ∈ run, isAdaGraphic ch) :
    Spells (flushRun (run.flatMap doubled)) run := by
  cases run with
  | nil => exact ⟨[], rfl, rfl, by simp⟩
  | cons ch run =>
    refine ⟨[.string (ch :: run) h], ?_, flatMap_singleton .., by simp [AdaOperand.IsString]⟩
    rw [flushRun, if_neg]
    · rfl
    · rw [flatMap_cons, doubled]
      split <;> simp

theorem spells_characterVal {ch : Char} (hch : ch.toNat ≤ maxAdaCharacter)
    (hcontrol : isAdaGraphic ch = false) : Spells [characterVal (clampAdaCodePoint ch)] [ch] := by
  have hvalue : [Char.ofNat ch.toNat] = [ch] := by rw [Char.ofNat_toNat]
  rw [clampAdaCodePoint, if_neg (not_lt.mpr hch)]
  refine ⟨[.character ⟨ch.toNat, Nat.lt_succ_of_le hch⟩], rfl, hvalue, ?_⟩
  simpa using .inr ⟨ch, hvalue, hcontrol⟩

/-- By induction on the characters left, with the run before them. -/
theorem spells_adaParts (run : Text) {value : Text} (hrun : ∀ ch ∈ run, isAdaGraphic ch)
    (hvalue : ∀ ch ∈ value, ch.toNat ≤ maxAdaCharacter) :
    Spells (adaParts (run.flatMap doubled) value) (run ++ value) := by
  induction value generalizing run with
  | nil => simpa [adaParts] using spells_flushRun hrun
  | cons ch value ih =>
    obtain ⟨hch, hvalue⟩ := forall_mem_cons.mp hvalue
    rw [adaParts]
    split
    · next hgraphic =>
      have hrun' : ∀ c ∈ run ++ [ch], isAdaGraphic c := by
        simpa [or_imp, forall_and] using ⟨hrun, hgraphic⟩
      simpa using ih _ hrun' hvalue
    · next hcontrol =>
      rw [Bool.not_eq_true] at hcontrol
      exact (spells_flushRun hrun).append
        ((spells_characterVal hch hcontrol).append (ih [] (by simp) hvalue))

/-- A character alone is not a string, and its term has neither a quote nor an `&`. -/
theorem not_denotes_characterVal (code : Fin 256) (value : Text) :
    ¬ Denotes (characterVal code) value := by
  have hplain : ∀ code : Fin 256, '"' ∉ characterVal code ∧ '&' ∉ characterVal code := by
    decide +kernel
  rintro ⟨operands, htext, -, htype⟩
  rcases operands with - | ⟨operand, - | ⟨operand', operands⟩⟩
  · simp at htype
  · cases operand with
    | string => exact (hplain code).1 (by simp [htext, AdaOperand.text, quoted])
    | character => simp [AdaOperand.IsString] at htype
  · exact (hplain code).2 (by simp [htext])

/-- **A string constant is emitted as a string of the same value, unless it is a single character
that no literal can hold.** -/
theorem denotes_renderAdaString_iff (value : Text) (h : ∀ ch ∈ value, ch.toNat ≤ maxAdaCharacter) :
    Denotes (renderAdaString value) value ↔ ¬ ∃ ch, value = [ch] ∧ isAdaGraphic ch = false := by
  constructor
  · rintro hdenotes ⟨ch, rfl, hch⟩
    have hle : ch.toNat ≤ 255 := h ch mem_cons_self
    refine not_denotes_characterVal ⟨ch.toNat, Nat.lt_succ_of_le hle⟩ [ch] ?_
    simpa [renderAdaString, adaParts, hch, flushRun, clampAdaCodePoint, maxAdaCharacter,
      not_lt.mpr hle] using hdenotes
  · intro hsingle
    obtain ⟨operands, htext, hvalue, halone⟩ := spells_adaParts [] (by simp) h
    rw [renderAdaString, show adaParts [] value = _ from htext.symm]
    cases operands with
    | nil =>
      obtain rfl : [] = value := hvalue
      exact ⟨[.string [] (by simp)], rfl, rfl, .inr ⟨_, mem_cons_self, trivial⟩⟩
    | cons operand operands =>
      refine ⟨operand :: operands, rfl, hvalue.symm, ?_⟩
      cases operands with
      | nil =>
        refine .inr ⟨operand, mem_cons_self, (halone operand mem_cons_self).resolve_right ?_⟩
        rintro ⟨ch, hch, hcontrol⟩
        exact hsingle ⟨ch, by simpa [hch] using hvalue.symm, hcontrol⟩
      | cons => exact .inl (by simp)

theorem denotes_two_lines : Denotes (renderAdaString "a\nb".toList) "a\nb".toList :=
  (denotes_renderAdaString_iff _ (by simp [maxAdaCharacter])).2 (by simp)

/-- A line feed is rendered as a character. -/
theorem not_denotes_line_feed :
    renderAdaString ['\n'] = "Character'Val (10)".toList ∧
      ¬ Denotes (renderAdaString ['\n']) ['\n'] :=
  ⟨by decide, not_denotes_characterVal 10 _⟩

end Bhf.IdlParser
