import Bhf.Lib.Spans
import Mathlib.Data.Set.Function

/-!
# Strings and their bytes

A string and its UTF-8 bytes, and what a program does with the bytes of a text: taking the part
between two offsets, which has to begin and end at a character.

A string is also cut at every occurrence of a separator. There is always at least one part, so the
number of parts of `a.b` is the sum of those of `a` and `b` (`splitChar_append_cons`). Parts that
are joined are read back if none holds the separator (`injOn_intercalate`).
-/

namespace Bhf

open List Char

/-- The bytes of a string. -/
def utf8Bytes (s : String) : Bytes :=
  s.toByteArray.data.toList

/-- The bytes of a string decode to that string. -/
theorem fromUTF8?_utf8Bytes (s : String) : String.fromUTF8? (utf8Bytes s).toByteArray = some s := by
  have hbytes : (utf8Bytes s).toByteArray = s.toByteArray := by
    ext1
    rw [data_toByteArray, utf8Bytes, Array.toArray_toList]
  rw [hbytes, String.fromUTF8?, dif_pos s.isValidUTF8]
  rfl

theorem utf8Bytes_injective : Function.Injective utf8Bytes := by
  intro s t h
  exact Option.some.inj (by rw [← fromUTF8?_utf8Bytes s, h, fromUTF8?_utf8Bytes])

/-- Bytes that decode to a string are the bytes of that string. -/
theorem utf8Bytes_of_fromUTF8? {bytes : Bytes} {s : String}
    (h : String.fromUTF8? bytes.toByteArray = some s) : utf8Bytes s = bytes := by
  rw [String.fromUTF8?] at h
  split at h
  · obtain ⟨⟩ := h
    show bytes.toByteArray.data.toList = bytes
    rw [data_toByteArray]
  · contradiction

@[simp]
theorem toNat_ofUInt8 (byte : UInt8) : (ofUInt8 byte).toNat = byte.toNat :=
  UInt8.toNat_toUInt32 byte

@[simp]
theorem toUInt8_ofUInt8 (byte : UInt8) : (ofUInt8 byte).toUInt8 = byte :=
  UInt8.toUInt8_toUInt32 byte

theorem ofUInt8_toUInt8 {c : Char} (h : c.toNat < 256) : ofUInt8 c.toUInt8 = c := by
  apply Char.ext
  show c.val.toUInt8.toUInt32 = c.val
  rw [← UInt32.toNat_inj, UInt8.toNat_toUInt32, UInt32.toNat_toUInt8]
  exact Nat.mod_eq_of_lt h

/-- ASCII bytes are the bytes of the string of their code points. -/
theorem utf8Bytes_ofList_ascii {bytes : Bytes} (h : ∀ byte ∈ bytes, byte < 0x80) :
    utf8Bytes (String.ofList (bytes.map ofUInt8)) = bytes := by
  rw [utf8Bytes, String.toByteArray_ofList, utf8Encode, data_toByteArray,
    flatMap_map, toList_toArray]
  induction bytes with
  | nil => rfl
  | cons byte bytes ih =>
    have hbyte : (ofUInt8 byte).val ≤ 127 := by
      have hlt : byte.toNat < 128 := h byte mem_cons_self
      show byte.toUInt32.toNat ≤ 127
      rw [UInt8.toNat_toUInt32]
      omega
    have hsize : (ofUInt8 byte).utf8Size = 1 := if_pos hbyte
    have hself : (ofUInt8 byte).val.toUInt8 = byte := toUInt8_ofUInt8 byte
    rw [flatMap_cons, String.utf8EncodeChar_eq_singleton hsize, hself, singleton_append,
      ih fun byte' hbyte' ↦ h byte' (mem_cons_of_mem _ hbyte')]

theorem utf8Bytes_ofList_of_toNat_lt {chars : List Char} (h : ∀ c ∈ chars, c.toNat < 128) :
    utf8Bytes (String.ofList chars) = chars.map toUInt8 := by
  have hchars : (chars.map toUInt8).map ofUInt8 = chars := by
    rw [map_map]
    refine (map_congr_left fun c hc ↦ ?_).trans (map_id chars)
    exact ofUInt8_toUInt8 (lt_trans (h c hc) (by decide))
  have hbytes : ∀ byte ∈ chars.map toUInt8, byte < 0x80 := by
    intro byte hbyte
    obtain ⟨c, hc, rfl⟩ := mem_map.mp hbyte
    show c.val.toUInt8.toNat < 128
    have hlt : c.val.toNat < 128 := h c hc
    rw [UInt32.toNat_toUInt8]
    omega
  have hutf8 := utf8Bytes_ofList_ascii hbytes
  rwa [hchars] at hutf8

theorem utf8Bytes_append (s t : String) : utf8Bytes (s ++ t) = utf8Bytes s ++ utf8Bytes t := by
  simp [utf8Bytes, String.toByteArray_append]

theorem length_utf8Bytes_ofList_le (chars : List Char) :
    (utf8Bytes (String.ofList chars)).length ≤ 4 * chars.length := by
  rw [utf8Bytes, String.toByteArray_ofList, utf8Encode, data_toByteArray, toList_toArray]
  induction chars with
  | nil => simp
  | cons c chars ih =>
    have hsize := c.utf8Size_le_four
    rw [flatMap_cons, length_append, String.length_utf8EncodeChar, length_cons]
    omega

/-- An offset at which a character begins or the text ends: the byte there does not continue
one. -/
def isCharBoundary (text : Bytes) (i : ℕ) : Bool :=
  i == 0 || i == text.length || text[i]?.any fun byte ↦ byte < 0x80 || 0xC0 ≤ byte

/-- The part of a text between two offsets, if both are boundaries of it. -/
def strGet (text : Bytes) (start stop : ℕ) : Option Bytes :=
  if start ≤ stop ∧ stop ≤ text.length ∧ isCharBoundary text start ∧ isCharBoundary text stop then
    some (Span.slice ⟨start, stop⟩ text)
  else
    none

/-! ### Cutting at a separator -/

/-- The parts of a string between the occurrences of a separator. -/
def splitChar (sep : Char) (s : String) : List String :=
  (s.toList.splitOn sep).map String.ofList

theorem splitChar_ne_nil (sep : Char) (s : String) : splitChar sep s ≠ [] := by
  simp [splitChar, splitOn_ne_nil]

/-- A separator ends the part before it. -/
theorem splitChar_append_cons (sep : Char) (a b : String) :
    splitChar sep (a ++ String.singleton sep ++ b) = splitChar sep a ++ splitChar sep b := by
  simp [splitChar, splitOn_append_cons_self]

/-- A string in one part is that part. -/
theorem eq_of_splitChar_eq_singleton {sep : Char} {s a : String} (h : splitChar sep s = [a]) :
    a = s := by
  obtain ⟨l, hl, rfl⟩ := map_eq_singleton_iff.mp h
  have hs : [sep].intercalate (s.toList.splitOn sep) = s.toList := intercalate_splitOn sep
  rw [hl, intercalate_singleton] at hs
  rw [hs, String.ofList_toList]

/-- A string in three parts is these parts with separators between them. -/
theorem eq_of_splitChar_eq_triple {sep : Char} {s a b c : String}
    (h : splitChar sep s = [a, b, c]) :
    s = a ++ String.singleton sep ++ b ++ String.singleton sep ++ c := by
  have hs : [sep].intercalate (s.toList.splitOn sep) = s.toList := intercalate_splitOn sep
  rcases hsplit : s.toList.splitOn sep with _ | ⟨a', _ | ⟨b', _ | ⟨c', _ | _⟩⟩⟩ <;>
    simp [splitChar, hsplit] at h
  obtain ⟨rfl, rfl, rfl⟩ := h
  rw [hsplit] at hs
  rw [← String.toList_inj, ← hs]
  simp [intercalate]

/-! ### Joining with a separator -/

/-- The separator comes before every part but the first. -/
theorem intercalate_cons_eq_append {α : Type*} (sep : α) (part : List α) (parts : List (List α)) :
    [sep].intercalate (part :: parts) = part ++ parts.flatMap (sep :: ·) := by
  induction parts generalizing part with
  | nil => simp
  | cons next parts ih => simp [intercalate_cons_cons, ih]

/-- Parts without the separator are read back from their join. -/
theorem injOn_intercalate {α : Type*} [DecidableEq α] (sep : α) :
    Set.InjOn [sep].intercalate {parts | parts ≠ [] ∧ ∀ part ∈ parts, sep ∉ part} :=
  Set.LeftInvOn.injOn fun _ h ↦ splitOn_intercalate sep h.2 h.1

/-! ### White space -/

/-- The characters with the property `White_Space`. -/
def isWhitespace (c : Char) : Bool :=
  let n := c.toNat
  (0x9 ≤ n && n ≤ 0xD) || n == 0x20 || n == 0x85 || n == 0xA0 || n == 0x1680 ||
    (0x2000 ≤ n && n ≤ 0x200A) || n == 0x2028 || n == 0x2029 || n == 0x202F || n == 0x205F ||
    n == 0x3000

/-- A string without the white space at its ends. -/
def trim (s : String) : String :=
  String.ofList (((s.toList.dropWhile isWhitespace).reverse.dropWhile isWhitespace).reverse)

/-- Texts that are equal up to the case of ASCII letters. -/
def eqIgnoreAsciiCase (a b : List Char) : Bool :=
  a.map Char.toLower == b.map Char.toLower

end Bhf
