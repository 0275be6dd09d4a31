import Bhf.Lib.Decimal
import Bhf.Lib.Text
import Mathlib.Data.List.TakeWhile

/-!
# JSON texts

The values of JSON, a reader for its texts, and the compact way of writing them. A number is kept as
**its literal**, so that nothing depends on how a program represents numbers; a string is kept as
its code points, so a text can write it in many ways.

The reader takes a number of steps, which bounds its recursion; the length of the text is enough.
`ReadsAs text value` says that the text is read as the value wherever it stands: whatever comes
after it and however many steps more there are. Texts that read as values are put together to texts
that read as arrays and objects (`readsAs_array`, `readsAs_object`), **whoever wrote them**: the
compact writer (`readsAs_render`) is one user of these lemmas.
-/

namespace Bhf

open List

/-! ### Values -/

/-- At least one digit. -/
def isDigits (text : List Char) : Bool :=
  !text.isEmpty && text.all Char.isDigit

/-- `0`, or digits that do not start with `0`. -/
def isIntegerPart (text : List Char) : Bool :=
  text == ['0'] || (isDigits text && text.head? != some '0')

/-- Digits that may have a sign. -/
def isSignedDigits : List Char → Bool
  | '+' :: digits => isDigits digits
  | '-' :: digits => isDigits digits
  | digits => isDigits digits

/-- Nothing, or an `e` and digits that may have a sign. -/
def isExponent : List Char → Bool
  | [] => true
  | c :: rest => (c == 'e' || c == 'E') && isSignedDigits rest

/-- What may follow the integer part. -/
def isFraction : List Char → Bool
  | '.' :: rest =>
    isDigits (rest.takeWhile Char.isDigit) && isExponent (rest.dropWhile Char.isDigit)
  | rest => isExponent rest

def isUnsignedNumber (text : List Char) : Bool :=
  isIntegerPart (text.takeWhile Char.isDigit) && isFraction (text.dropWhile Char.isDigit)

/-- A number literal. -/
def isNumber : List Char → Bool
  | '-' :: rest => isUnsignedNumber rest
  | text => isUnsignedNumber text

abbrev NumberLiteral :=
  { text : List Char // isNumber text = true }

/-- The value of a literal that is an integer. -/
def integerValue : List Char → Option ℤ
  | '-' :: digits => if isDigits digits then some (-decimalValue digits) else none
  | digits => if isDigits digits then some (decimalValue digits) else none

/-- The literal of an integer. -/
def integerText (n : ℤ) : List Char :=
  if n < 0 then '-' :: paddedDecimal 1 n.natAbs else paddedDecimal 1 n.natAbs

inductive Json where
  | null
  | bool (value : Bool)
  | number (literal : NumberLiteral)
  | string (chars : List Char)
  | array (items : List Json)
  | object (members : List (List Char × Json))

namespace Json

/-! ### Strings -/

def hexValue (c : Char) : Option ℕ :=
  if c.isDigit then some (c.toNat - '0'.toNat)
  else if 'a' ≤ c ∧ c ≤ 'f' then some (c.toNat - 'a'.toNat + 10)
  else if 'A' ≤ c ∧ c ≤ 'F' then some (c.toNat - 'A'.toNat + 10)
  else none

/-- The code unit written with four hexadecimal digits. -/
def hexUnit (a b c d : Char) : Option ℕ := do
  let a ← hexValue a
  let b ← hexValue b
  let c ← hexValue c
  let d ← hexValue d
  pure (((a * 16 + b) * 16 + c) * 16 + d)

def escaped : Char → Option Char
  | '"' => some '"'
  | '\\' => some '\\'
  | '/' => some '/'
  | 'b' => some '\x08'
  | 'f' => some '\x0c'
  | 'n' => some '\n'
  | 'r' => some '\r'
  | 't' => some '\t'
  | _ => none

def isHighSurrogate (unit : ℕ) : Bool :=
  0xd800 ≤ unit && unit < 0xdc00

def isLowSurrogate (unit : ℕ) : Bool :=
  0xdc00 ≤ unit && unit < 0xe000

/-- Put a code point before what was read. -/
def push (c : Char) (read : Option (List Char × List Char)) : Option (List Char × List Char) :=
  read.map fun p ↦ (c :: p.1, p.2)

/-- The rest of a string, up to its closing quote, and what follows. -/
def readString : List Char → Option (List Char × List Char)
  | [] => none
  | '"' :: rest => some ([], rest)
  | '\\' :: 'u' :: a :: b :: c :: d :: rest =>
    match hexUnit a b c d with
    | none => none
    | some unit =>
      if isHighSurrogate unit then
        match rest with
        | '\\' :: 'u' :: a' :: b' :: c' :: d' :: rest' =>
          match hexUnit a' b' c' d' with
          | none => none
          | some low =>
            if isLowSurrogate low then
              push (Char.ofNat (0x10000 + (unit - 0xd800) * 0x400 + (low - 0xdc00)))
                (readString rest')
            else none
        | _ => none
      else if isLowSurrogate unit then none
      else push (Char.ofNat unit) (readString rest)
  | '\\' :: c :: rest =>
    match escaped c with
    | none => none
    | some c' => push c' (readString rest)
  | c :: rest => if c.toNat < 0x20 then none else push c (readString rest)

/-! ### The reader -/

def isWhitespace (c : Char) : Bool :=
  c == ' ' || c == '\n' || c == '\r' || c == '\t'

def skipWhitespace (text : List Char) : List Char :=
  text.dropWhile isWhitespace

def isNumberChar (c : Char) : Bool :=
  c.isDigit || c == '-' || c == '+' || c == '.' || c == 'e' || c == 'E'

/-- The longest run of the characters of numbers, if it is a number. -/
def readNumber (text : List Char) : Option (Json × List Char) :=
  if h : isNumber (text.takeWhile isNumberChar) = true then
    some (.number ⟨text.takeWhile isNumberChar, h⟩, text.dropWhile isNumberChar)
  else none

mutual

/-- A value at the start of a text, and what follows it. -/
def readValue : ℕ → List Char → Option (Json × List Char)
  | 0, _ => none
  | n + 1, text =>
    match skipWhitespace text with
    | '"' :: rest => (readString rest).map fun p ↦ (.string p.1, p.2)
    | '[' :: rest =>
      match skipWhitespace rest with
      | ']' :: rest' => some (.array [], rest')
      | rest' => (readItems n rest').map fun p ↦ (.array p.1, p.2)
    | '{' :: rest =>
      match skipWhitespace rest with
      | '}' :: rest' => some (.object [], rest')
      | rest' => (readMembers n rest').map fun p ↦ (.object p.1, p.2)
    | 'n' :: 'u' :: 'l' :: 'l' :: rest => some (.null, rest)
    | 't' :: 'r' :: 'u' :: 'e' :: rest => some (.bool true, rest)
    | 'f' :: 'a' :: 'l' :: 's' :: 'e' :: rest => some (.bool false, rest)
    | rest => readNumber rest

/-- Values separated by commas, and the bracket that closes the array. -/
def readItems : ℕ → List Char → Option (List Json × List Char)
  | 0, _ => none
  | n + 1, text =>
    match readValue n text with
    | none => none
    | some (item, rest) =>
      match skipWhitespace rest with
      | ',' :: rest' => (readItems n rest').map fun p ↦ (item :: p.1, p.2)
      | ']' :: rest' => some ([item], rest')
      | _ => none

/-- Members separated by commas, and the brace that closes the object. -/
def readMembers : ℕ → List Char → Option (List (List Char × Json) × List Char)
  | 0, _ => none
  | n + 1, text =>
    match skipWhitespace text with
    | '"' :: rest =>
      match readString rest with
      | none => none
      | some (key, rest) =>
        match skipWhitespace rest with
        | ':' :: rest =>
          match readValue n rest with
          | none => none
          | some (value, rest) =>
            match skipWhitespace rest with
            | ',' :: rest' => (readMembers n rest').map fun p ↦ ((key, value) :: p.1, p.2)
            | '}' :: rest' => some ([(key, value)], rest')
            | _ => none
        | _ => none
    | _ => none

end

/-- The value of a text that holds nothing else. -/
def read (text : List Char) : Option Json :=
  match readValue text.length text with
  | some (value, rest) => if skipWhitespace rest = [] then some value else none
  | none => none

/-- The value of a text in UTF-8. -/
def readUtf8 (bytes : Bytes) : Option Json :=
  (String.fromUTF8? bytes.toByteArray).bind fun text ↦ read text.toList

/-! ### Reading strings -/

/-- The text stands for one code point of a string. -/
def WritesChar (text : List Char) (c : Char) : Prop :=
  ∀ rest, readString (text ++ rest) = push c (readString rest)

variable {c : Char} {text : List Char}

theorem writesChar_self (hquote : c ≠ '"') (hback : c ≠ '\\') (hctl : 0x20 ≤ c.toNat) :
    WritesChar [c] c := by
  intro rest
  show readString (c :: rest) = _
  rw [readString, if_neg (by omega)]
  · exact hquote
  · exact fun _ _ _ _ _ h ↦ absurd h hback
  · exact fun _ _ h ↦ absurd h hback

theorem writesChar_escaped {c' : Char} (h : escaped c = some c') : WritesChar ['\\', c] c' := by
  intro rest
  have hu : c ≠ 'u' := by
    rintro rfl
    simp [escaped] at h
  show readString ('\\' :: c :: rest) = _
  rw [readString, h]
  exact fun _ _ _ _ _ h ↦ absurd h hu

theorem writesChar_unit {a b d : Char} {unit : ℕ} (h : hexUnit a b c d = some unit)
    (hhigh : isHighSurrogate unit = false) (hlow : isLowSurrogate unit = false) :
    WritesChar ['\\', 'u', a, b, c, d] (Char.ofNat unit) := by
  intro rest
  show readString ('\\' :: 'u' :: a :: b :: c :: d :: rest) = _
  rw [readString, h]
  simp [hhigh, hlow]

theorem readString_flatMap {α : Type} {text : α → List Char} {code : α → Char} {l : List α}
    (h : ∀ a ∈ l, WritesChar (text a) (code a)) (rest : List Char) :
    readString (l.flatMap text ++ '"' :: rest) = some (l.map code, rest) := by
  induction l with
  | nil => simp [readString]
  | cons a l ih =>
    rw [flatMap_cons, append_assoc, h a mem_cons_self, ih fun a ha ↦ h a (mem_cons_of_mem _ ha)]
    rfl

/-! ### Reading numbers -/

/-- What may follow a number: nothing that would make it longer. -/
def Ends (rest : List Char) : Prop :=
  ∀ c ∈ rest.head?, isNumberChar c = false

theorem ends_nil : Ends [] := by
  intro c hc
  simp at hc

theorem ends_cons {rest : List Char} (h : isNumberChar c = false) : Ends (c :: rest) := by
  rintro c' ⟨⟩
  exact h

theorem isNumberChar_of_isDigit (h : c.isDigit) : isNumberChar c := by
  simp [isNumberChar, h]

theorem all_isNumberChar_of_isDigits (h : isDigits text) : ∀ c ∈ text, isNumberChar c := by
  simp only [isDigits, Bool.and_eq_true, all_eq_true] at h
  exact fun c hc ↦ isNumberChar_of_isDigit (h.2 c hc)

theorem all_isNumberChar_of_isSignedDigits (h : isSignedDigits text) :
    ∀ c ∈ text, isNumberChar c := by
  rw [isSignedDigits.eq_def] at h
  split at h
  iterate 2 · exact forall_mem_cons.mpr ⟨rfl, all_isNumberChar_of_isDigits h⟩
  · exact all_isNumberChar_of_isDigits h

theorem all_isNumberChar_of_isExponent (h : isExponent text) : ∀ c ∈ text, isNumberChar c := by
  cases text with
  | nil => simp
  | cons c rest =>
    rw [isExponent, Bool.and_eq_true, Bool.or_eq_true, beq_iff_eq, beq_iff_eq] at h
    refine forall_mem_cons.mpr ⟨?_, all_isNumberChar_of_isSignedDigits h.2⟩
    rcases h.1 with rfl | rfl <;> rfl

theorem all_isNumberChar_of_isFraction (h : isFraction text) : ∀ c ∈ text, isNumberChar c := by
  rw [isFraction.eq_def] at h
  split at h
  · next rest =>
    rw [Bool.and_eq_true] at h
    refine forall_mem_cons.mpr ⟨rfl, ?_⟩
    rw [← takeWhile_append_dropWhile (p := Char.isDigit) (l := rest), forall_mem_append]
    exact ⟨all_isNumberChar_of_isDigits h.1, all_isNumberChar_of_isExponent h.2⟩
  · exact all_isNumberChar_of_isExponent h

theorem all_isNumberChar_of_isUnsignedNumber (h : isUnsignedNumber text) :
    ∀ c ∈ text, isNumberChar c := by
  rw [isUnsignedNumber, Bool.and_eq_true] at h
  rw [← takeWhile_append_dropWhile (p := Char.isDigit) (l := text), forall_mem_append]
  exact ⟨fun c hc ↦ isNumberChar_of_isDigit (mem_takeWhile_imp hc),
    all_isNumberChar_of_isFraction h.2⟩

theorem all_isNumberChar_of_isNumber (h : isNumber text) : ∀ c ∈ text, isNumberChar c := by
  rw [isNumber.eq_def] at h
  split at h
  · exact forall_mem_cons.mpr ⟨rfl, all_isNumberChar_of_isUnsignedNumber h⟩
  · exact all_isNumberChar_of_isUnsignedNumber h

/-- The characters of numbers are printable. -/
theorem toNat_of_isNumberChar (h : isNumberChar c) : 0x20 ≤ c.toNat ∧ c.toNat ≤ 0x7e := by
  simp only [isNumberChar, Bool.or_eq_true, beq_iff_eq] at h
  rcases h with ((((h | rfl) | rfl) | rfl) | rfl) | rfl
  · obtain ⟨hle, hge⟩ := Char.isDigit_iff_toNat.mp h
    have hzero : '0'.toNat = 48 := rfl
    have hnine : '9'.toNat = 57 := rfl
    omega
  all_goals decide

/-- A number starts with a digit or a sign. -/
theorem exists_cons_of_isNumber (h : isNumber text) :
    ∃ c rest, text = c :: rest ∧ (c.isDigit ∨ c = '-') := by
  have hunsigned {text : List Char} (h : isUnsignedNumber text) :
      ∃ c rest, text = c :: rest ∧ c.isDigit := by
    cases text with
    | nil => simp [isUnsignedNumber, isIntegerPart, isDigits] at h
    | cons c rest =>
      refine ⟨c, rest, rfl, ?_⟩
      by_contra hdigit
      simp [isUnsignedNumber, isIntegerPart, isDigits, hdigit] at h
  rw [isNumber.eq_def] at h
  split at h
  · exact ⟨_, _, rfl, .inr rfl⟩
  · obtain ⟨c, rest, rfl, hc⟩ := hunsigned h
    exact ⟨c, rest, rfl, .inl hc⟩

theorem readNumber_append {rest : List Char} (h : isNumber text) (hrest : Ends rest) :
    readNumber (text ++ rest) = some (.number ⟨text, h⟩, rest) := by
  have hall := all_isNumberChar_of_isNumber h
  have hstop : rest.takeWhile isNumberChar = [] ∧ rest.dropWhile isNumberChar = rest := by
    cases rest with
    | nil => exact ⟨rfl, rfl⟩
    | cons c rest =>
      have hc := hrest c rfl
      simp [hc]
  have htake : (text ++ rest).takeWhile isNumberChar = text := by
    rw [takeWhile_append_of_pos hall, hstop.1, append_nil]
  have hdrop : (text ++ rest).dropWhile isNumberChar = rest := by
    rw [dropWhile_append_of_pos hall, hstop.2]
  simp only [readNumber, htake, hdrop, h, dif_pos]

/-! ### Integers -/

theorem paddedDecimal_one_of_pos {n : ℕ} (hn : 0 < n) :
    paddedDecimal 1 n = (Nat.digits 10 n).reverse.map Nat.digitChar := by
  have hne : Nat.digits 10 n ≠ [] := Nat.digits_ne_nil_iff_ne_zero.mpr hn.ne'
  have hlen := length_pos_of_ne_nil hne
  rw [paddedDecimal, length_map, length_reverse, Nat.sub_eq_zero_of_le hlen]
  rfl

theorem isDigits_paddedDecimal_one (n : ℕ) : isDigits (paddedDecimal 1 n) := by
  have hlen := le_length_paddedDecimal 1 n
  rw [isDigits, Bool.and_eq_true, all_eq_true]
  refine ⟨?_, fun c hc ↦ isDigit_of_mem_paddedDecimal hc⟩
  rw [Bool.not_eq_true', isEmpty_eq_false_iff]
  exact ne_nil_of_length_pos hlen

theorem isIntegerPart_paddedDecimal_one (n : ℕ) : isIntegerPart (paddedDecimal 1 n) := by
  rcases Nat.eq_zero_or_pos n with rfl | hn
  · rfl
  rw [isIntegerPart, Bool.or_eq_true, Bool.and_eq_true]
  refine .inr ⟨isDigits_paddedDecimal_one n, ?_⟩
  have hne : Nat.digits 10 n ≠ [] := Nat.digits_ne_nil_iff_ne_zero.mpr hn.ne'
  have hlast := Nat.getLast_digit_ne_zero 10 hn.ne'
  have hlt : (Nat.digits 10 n).getLast hne < 10 :=
    Nat.digits_lt_base (by decide) (getLast_mem hne)
  have hdigit : ∀ d < 10, d ≠ 0 → Nat.digitChar d ≠ '0' := by decide
  rw [paddedDecimal_one_of_pos hn, head?_map, head?_reverse,
    getLast?_eq_some_getLast hne, bne_iff_ne]
  exact fun h ↦ hdigit _ hlt hlast (Option.some.inj h)

theorem isUnsignedNumber_paddedDecimal_one (n : ℕ) : isUnsignedNumber (paddedDecimal 1 n) := by
  have hall : ∀ c ∈ paddedDecimal 1 n, c.isDigit :=
    fun c hc ↦ isDigit_of_mem_paddedDecimal hc
  rw [isUnsignedNumber, takeWhile_eq_self_iff.mpr hall, dropWhile_eq_nil_iff.mpr hall,
    isIntegerPart_paddedDecimal_one]
  rfl

/-- What starts with a digit has no sign. -/
theorem ne_sign_of_isDigits (h : isDigits (c :: text)) : c ≠ '-' := by
  rintro rfl
  simp [isDigits] at h

theorem isNumber_integerText (n : ℤ) : isNumber (integerText n) := by
  have hnumber := isUnsignedNumber_paddedDecimal_one n.natAbs
  rw [integerText]
  split
  · exact hnumber
  have hdigits := isDigits_paddedDecimal_one n.natAbs
  rw [isNumber.eq_def]
  split
  · next heq => exact absurd rfl (ne_sign_of_isDigits (heq ▸ hdigits))
  · exact hnumber

theorem integerValue_integerText (n : ℤ) : integerValue (integerText n) = some n := by
  have hdigits := isDigits_paddedDecimal_one n.natAbs
  have hvalue := decimalValue_paddedDecimal 1 n.natAbs
  rw [integerText]
  split
  · rw [integerValue, if_pos hdigits, hvalue]
    congr 1
    omega
  · rw [integerValue.eq_def]
    split
    · next heq => exact absurd rfl (ne_sign_of_isDigits (heq ▸ hdigits))
    · rw [if_pos hdigits, hvalue]
      congr 1
      omega

/-! ### Texts that read as values -/

/-- The text starts with a character that is neither passed over nor the end of an array. -/
def Starts (text : List Char) : Prop :=
  ∃ c rest, text = c :: rest ∧ isWhitespace c = false ∧ c ≠ ']'

/-- **The text reads as the value**, wherever it stands. -/
structure ReadsAs (text : List Char) (value : Json) : Prop where
  /-- It can begin a value. -/
  starts : Starts text
  /-- It is read up to its end. -/
  reads : ∀ n rest, text.length ≤ n → Ends rest → readValue n (text ++ rest) = some (value, rest)

theorem skipWhitespace_cons (h : isWhitespace c = false) (rest : List Char) :
    skipWhitespace (c :: rest) = c :: rest := by
  simp [skipWhitespace, h]

theorem read_eq_some {value : Json} (h : ReadsAs text value) : read text = some value := by
  have hread := h.reads text.length [] le_rfl ends_nil
  rw [append_nil] at hread
  rw [read, hread]
  rfl

/-- The shape of the texts that start with a given character. -/
theorem readsAs_of_cons {value : Json} (hc : isWhitespace c = false) (hend : c ≠ ']')
    (h : ∀ n rest, text.length ≤ n → Ends rest →
      readValue (n + 1) (c :: (text ++ rest)) = some (value, rest)) :
    ReadsAs (c :: text) value := by
  refine ⟨⟨c, text, rfl, hc, hend⟩, fun n rest hn hrest ↦ ?_⟩
  obtain ⟨m, rfl⟩ : ∃ m, n = m + 1 := ⟨n - 1, by rw [length_cons] at hn; omega⟩
  exact h m rest (by rw [length_cons] at hn; omega) hrest

theorem readsAs_null : ReadsAs ['n', 'u', 'l', 'l'] .null :=
  readsAs_of_cons rfl (by decide) fun _ _ _ _ ↦ by rw [readValue]; rfl

theorem readsAs_true : ReadsAs ['t', 'r', 'u', 'e'] (.bool true) :=
  readsAs_of_cons rfl (by decide) fun _ _ _ _ ↦ by rw [readValue]; rfl

theorem readsAs_false : ReadsAs ['f', 'a', 'l', 's', 'e'] (.bool false) :=
  readsAs_of_cons rfl (by decide) fun _ _ _ _ ↦ by rw [readValue]; rfl

/-- A text that is read as a string once its opening quote is. -/
def StringText (text chars : List Char) : Prop :=
  ∀ rest, readString (text ++ '"' :: rest) = some (chars, rest)

theorem readsAs_string {chars : List Char} (h : StringText text chars) :
    ReadsAs ('"' :: (text ++ ['"'])) (.string chars) := by
  refine readsAs_of_cons rfl (by decide) fun n rest _ _ ↦ ?_
  rw [readValue, skipWhitespace_cons rfl, append_assoc]
  show (readString (text ++ '"' :: rest)).map _ = _
  rw [h rest]
  rfl

theorem readsAs_number (literal : NumberLiteral) : ReadsAs literal.1 (.number literal) := by
  obtain ⟨text, h⟩ := literal
  obtain ⟨c, tail, rfl, hc⟩ := exists_cons_of_isNumber h
  have hother : [' ', '\n', '\r', '\t', ']', '"', '[', '{', 'n', 't', 'f'].all
      (fun d ↦ !d.isDigit && d != '-') := by decide
  have hne : ∀ d ∈ [' ', '\n', '\r', '\t', ']', '"', '[', '{', 'n', 't', 'f'], c ≠ d := by
    rintro d hd rfl
    have hd' := all_eq_true.mp hother c hd
    rcases hc with hc | rfl
    · simp [hc] at hd'
    · simp at hd'
  have hws : isWhitespace c = false := by
    simp [isWhitespace, hne ' ', hne '\n', hne '\r', hne '\t']
  refine readsAs_of_cons hws (hne _ (by simp)) fun n rest _ hrest ↦ ?_
  rw [readValue, skipWhitespace_cons hws]
  -- a number starts with none of the characters the other kinds of values start with
  split <;> first
    | exact readNumber_append h hrest
    | exact absurd (cons.inj ‹_›).1 (hne _ (by simp))

/-- The literal of an integer, as a number. -/
def integer (n : ℤ) : Json :=
  .number ⟨integerText n, isNumber_integerText n⟩

/-- A member of an object. -/
def get? (value : Json) (key : List Char) : Option Json :=
  match value with
  | .object members => (members.find? (·.1 == key)).map (·.2)
  | _ => none

/-! ### Arrays and objects -/

/-- Texts with commas between them. -/
def separated : List (List Char) → List Char
  | [] => []
  | [text] => text
  | text :: texts => text ++ ',' :: separated texts

theorem separated_cons (text : List Char) (texts : List (List Char)) :
    separated (text :: texts) = text ++ texts.flatMap (',' :: ·) := by
  induction texts generalizing text with
  | nil => exact (append_nil _).symm
  | cons text' texts ih =>
    show text ++ ',' :: separated (text' :: texts) = _
    rw [ih, flatMap_cons]
    rfl

theorem exists_separated_eq_append (text : List Char) (texts : List (List Char)) :
    ∃ rest, separated (text :: texts) = text ++ rest :=
  ⟨_, separated_cons text texts⟩

theorem readValue_items (hws : isWhitespace c = false) (hend : c ≠ ']') (n : ℕ) (rest : List Char) :
    readValue (n + 1) ('[' :: c :: rest) =
      (readItems n (c :: rest)).map fun p ↦ (.array p.1, p.2) := by
  rw [readValue, skipWhitespace_cons rfl]
  simp only [skipWhitespace_cons hws]
  split
  · next heq => exact absurd (cons.inj heq).1 hend
  · rfl

theorem readValue_members (n : ℕ) (rest : List Char) :
    readValue (n + 1) ('{' :: '"' :: rest) =
      (readMembers n ('"' :: rest)).map fun p ↦ (.object p.1, p.2) := by
  rw [readValue, skipWhitespace_cons rfl]
  rfl

section Lists

variable {α : Type} {text : α → List Char} {value : α → Json} {l : List α} {n : ℕ}

theorem readItems_separated {a : α} (h : ∀ b ∈ a :: l, ReadsAs (text b) (value b))
    (hn : (separated ((a :: l).map text)).length < n) (rest : List Char) :
    readItems n (separated ((a :: l).map text) ++ ']' :: rest) =
      some ((a :: l).map value, rest) := by
  induction l generalizing a n with
  | nil =>
    obtain ⟨m, rfl⟩ : ∃ m, n = m + 1 := ⟨n - 1, by omega⟩
    have ha := (h a mem_cons_self).reads m (']' :: rest) (Nat.le_of_lt_succ hn) (ends_cons rfl)
    show readItems (m + 1) (text a ++ ']' :: rest) = some ([value a], rest)
    rw [readItems, ha]
    rfl
  | cons b l ih =>
    obtain ⟨m, rfl⟩ : ∃ m, n = m + 1 := ⟨n - 1, by omega⟩
    have hsplit : separated ((a :: b :: l).map text) =
        text a ++ ',' :: separated ((b :: l).map text) := rfl
    rw [hsplit, length_append, length_cons] at hn
    have ha := (h a mem_cons_self).reads m
      (',' :: (separated ((b :: l).map text) ++ ']' :: rest)) (by omega) (ends_cons rfl)
    have hl := ih (fun c hc ↦ h c (mem_cons_of_mem _ hc)) (n := m) (by omega)
    rw [hsplit, append_assoc, cons_append, readItems, ha]
    show (readItems m (separated _ ++ ']' :: rest)).map _ = _
    rw [hl]
    rfl

theorem readsAs_array (h : ∀ a ∈ l, ReadsAs (text a) (value a)) :
    ReadsAs ('[' :: (separated (l.map text) ++ [']'])) (.array (l.map value)) := by
  refine readsAs_of_cons rfl (by decide) fun n rest hn _ ↦ ?_
  rw [append_assoc, singleton_append]
  cases l with
  | nil => rw [readValue]; rfl
  | cons a l =>
    rw [length_append] at hn
    have hitems := readItems_separated h (n := n) hn rest
    obtain ⟨c, tail, htext, hws, hend⟩ := (h a mem_cons_self).starts
    obtain ⟨tail', htexts⟩ := exists_separated_eq_append (text a) _
    rw [map_cons, htexts, htext] at hitems ⊢
    rw [cons_append, cons_append] at hitems ⊢
    rw [readValue_items hws hend, hitems]
    rfl

variable {keyText key : α → List Char}

/-- A member of an object. -/
def memberText (keyText valueText : List Char) : List Char :=
  '"' :: (keyText ++ '"' :: ':' :: valueText)

/-- One member, up to the character that follows it. -/
theorem readMembers_memberText {keyText key text : List Char} {value : Json}
    (hkey : StringText keyText key) (h : ReadsAs text value)
    (hn : (memberText keyText text).length ≤ n) {rest : List Char} (hrest : Ends rest) :
    readMembers (n + 1) (memberText keyText text ++ rest) = match skipWhitespace rest with
      | ',' :: rest' => (readMembers n rest').map fun p ↦ ((key, value) :: p.1, p.2)
      | '}' :: rest' => some ([(key, value)], rest')
      | _ => none := by
  have hlen : text.length ≤ n := by
    simp only [memberText, length_cons, length_append] at hn
    omega
  show readMembers (n + 1) ('"' :: (keyText ++ '"' :: ':' :: text) ++ rest) = _
  rw [cons_append, append_assoc, cons_append, cons_append, readMembers,
    skipWhitespace_cons rfl]
  simp only [hkey (':' :: (text ++ rest)), skipWhitespace_cons (c := ':') rfl,
    h.reads n rest hlen hrest]

theorem readMembers_separated {a : α} (hkey : ∀ b ∈ a :: l, StringText (keyText b) (key b))
    (h : ∀ b ∈ a :: l, ReadsAs (text b) (value b))
    (hn : (separated ((a :: l).map fun b ↦ memberText (keyText b) (text b))).length < n)
    (rest : List Char) :
    readMembers n
        (separated ((a :: l).map fun b ↦ memberText (keyText b) (text b)) ++ '}' :: rest) =
      some ((a :: l).map fun b ↦ (key b, value b), rest) := by
  induction l generalizing a n with
  | nil =>
    obtain ⟨m, rfl⟩ : ∃ m, n = m + 1 := ⟨n - 1, by omega⟩
    exact readMembers_memberText (hkey a mem_cons_self) (h a mem_cons_self)
      (Nat.le_of_lt_succ hn) (ends_cons rfl)
  | cons b l ih =>
    obtain ⟨m, rfl⟩ : ∃ m, n = m + 1 := ⟨n - 1, by omega⟩
    have hsplit : separated ((a :: b :: l).map fun b ↦ memberText (keyText b) (text b)) =
        memberText (keyText a) (text a) ++
          ',' :: separated ((b :: l).map fun b ↦ memberText (keyText b) (text b)) := rfl
    rw [hsplit, length_append, length_cons] at hn
    have hl := ih (fun c hc ↦ hkey c (mem_cons_of_mem _ hc))
      (fun c hc ↦ h c (mem_cons_of_mem _ hc)) (n := m) (by omega)
    rw [hsplit, append_assoc, cons_append,
      readMembers_memberText (hkey a mem_cons_self) (h a mem_cons_self) (by omega) (ends_cons rfl)]
    show (readMembers m (separated _ ++ '}' :: rest)).map _ = _
    rw [hl]
    rfl

theorem readsAs_object (hkey : ∀ a ∈ l, StringText (keyText a) (key a))
    (h : ∀ a ∈ l, ReadsAs (text a) (value a)) :
    ReadsAs ('{' :: (separated (l.map fun a ↦ memberText (keyText a) (text a)) ++ ['}']))
      (.object (l.map fun a ↦ (key a, value a))) := by
  refine readsAs_of_cons rfl (by decide) fun n rest hn _ ↦ ?_
  rw [append_assoc, singleton_append]
  cases l with
  | nil => rw [readValue]; rfl
  | cons a l =>
    rw [length_append] at hn
    have hmembers := readMembers_separated hkey h (n := n) hn rest
    obtain ⟨tail, htexts⟩ := exists_separated_eq_append _
      (l.map fun a ↦ memberText _ (text a))
    rw [map_cons, htexts, memberText] at hmembers ⊢
    rw [cons_append, cons_append] at hmembers ⊢
    rw [readValue_members, hmembers]
    rfl

end Lists

/-! ### The compact writer -/

def hexDigit (n : ℕ) : Char :=
  if n < 10 then Char.ofNat ('0'.toNat + n) else Char.ofNat ('a'.toNat + (n - 10))

def escapeChar (c : Char) : List Char :=
  if c = '"' then ['\\', '"']
  else if c = '\\' then ['\\', '\\']
  else if c = '\x08' then ['\\', 'b']
  else if c = '\x0c' then ['\\', 'f']
  else if c = '\n' then ['\\', 'n']
  else if c = '\r' then ['\\', 'r']
  else if c = '\t' then ['\\', 't']
  else if c.toNat < 0x20 then
    ['\\', 'u', '0', '0', hexDigit (c.toNat / 16), hexDigit (c.toNat % 16)]
  else [c]

def escape (chars : List Char) : List Char :=
  chars.flatMap escapeChar

mutual

/-- A value without any whitespace. -/
def render : Json → List Char
  | .null => ['n', 'u', 'l', 'l']
  | .bool true => ['t', 'r', 'u', 'e']
  | .bool false => ['f', 'a', 'l', 's', 'e']
  | .number literal => literal.1
  | .string chars => '"' :: (escape chars ++ ['"'])
  | .array items => '[' :: (separated (renderItems items) ++ [']'])
  | .object members => '{' :: (separated (renderMembers members) ++ ['}'])

def renderItems : List Json → List (List Char)
  | [] => []
  | item :: items => render item :: renderItems items

def renderMembers : List (List Char × Json) → List (List Char)
  | [] => []
  | (key, value) :: members => memberText (escape key) (render value) :: renderMembers members

end

theorem hexValue_hexDigit : ∀ n < 16, hexValue (hexDigit n) = some n := by
  decide

theorem writesChar_escapeChar (c : Char) : WritesChar (escapeChar c) c := by
  by_cases hsimple : c ∈ ['"', '\\', '\x08', '\x0c', '\n', '\r', '\t']
  · simp only [mem_cons, not_mem_nil, or_false] at hsimple
    rcases hsimple with rfl | rfl | rfl | rfl | rfl | rfl | rfl <;> exact writesChar_escaped rfl
  simp only [mem_cons, not_mem_nil, or_false, not_or] at hsimple
  obtain ⟨hquote, hback, hb, hf, hn, hr, ht⟩ := hsimple
  rw [escapeChar, if_neg hquote, if_neg hback, if_neg hb, if_neg hf, if_neg hn, if_neg hr,
    if_neg ht]
  split
  · next hctl =>
    have hunit : hexUnit '0' '0' (hexDigit (c.toNat / 16)) (hexDigit (c.toNat % 16)) =
        some c.toNat := by
      rw [hexUnit, hexValue_hexDigit _ (by omega), hexValue_hexDigit _ (by omega)]
      show some _ = some _
      congr 1
      omega
    have hwrites := writesChar_unit hunit (by simp [isHighSurrogate]; omega)
      (by simp [isLowSurrogate]; omega)
    rwa [Char.ofNat_toNat] at hwrites
  · next hctl => exact writesChar_self hquote hback (by omega)

theorem stringText_escape (chars : List Char) : StringText (escape chars) chars := by
  intro rest
  have hwrites : ∀ c ∈ chars, WritesChar (escapeChar c) (id c) := fun c _ ↦ writesChar_escapeChar c
  rw [escape, readString_flatMap hwrites, map_id]

theorem renderItems_eq_map (items : List Json) : renderItems items = items.map render := by
  induction items with
  | nil => rfl
  | cons item items ih => rw [renderItems, ih, map_cons]

theorem renderMembers_eq_map (members : List (List Char × Json)) :
    renderMembers members =
      members.map fun member ↦ memberText (escape member.1) (render member.2) := by
  induction members with
  | nil => rfl
  | cons member members ih =>
    rw [renderMembers, ih, map_cons]

mutual

/-- **What the compact writer writes is read as what it wrote.** -/
theorem readsAs_render : ∀ value : Json, ReadsAs value.render value
  | .null => readsAs_null
  | .bool true => readsAs_true
  | .bool false => readsAs_false
  | .number literal => readsAs_number literal
  | .string chars => readsAs_string (stringText_escape chars)
  | .array items => by
    have h := readsAs_array (readsAs_renderItems items)
    rwa [map_id', ← renderItems_eq_map] at h
  | .object members => by
    have h := readsAs_object (fun member _ ↦ stringText_escape member.1)
      (readsAs_renderMembers members)
    rwa [map_id', ← renderMembers_eq_map] at h

theorem readsAs_renderItems : ∀ items : List Json, ∀ item ∈ items, ReadsAs item.render item
  | [] => List.forall_mem_nil _
  | item :: items => List.forall_mem_cons.mpr ⟨readsAs_render item, readsAs_renderItems items⟩

theorem readsAs_renderMembers :
    ∀ members : List (List Char × Json), ∀ member ∈ members, ReadsAs member.2.render member.2
  | [] => List.forall_mem_nil _
  | (_, value) :: members =>
    List.forall_mem_cons.mpr ⟨readsAs_render value, readsAs_renderMembers members⟩

end

theorem read_render (value : Json) : read value.render = some value :=
  read_eq_some (readsAs_render value)

/-- A text in UTF-8 holds what the text does. -/
theorem readUtf8_utf8Bytes (text : String) : readUtf8 (utf8Bytes text) = read text.toList := by
  rw [readUtf8, fromUTF8?_utf8Bytes]
  rfl

end Json

end Bhf
