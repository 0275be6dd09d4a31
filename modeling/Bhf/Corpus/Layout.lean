import Bhf.Lib.Decimal

/-!
# Names of finding directories

Finding directories are numbered within a family: `F-0001-1a2b3c4d` has the ordinal 1 in the family
`F-`. The allocator starts one past the highest ordinal in use and takes the next name that is free.
-/

namespace Bhf.Corpus

open List

/-- The largest ordinal. -/
def maxOrdinal : ℕ :=
  2 ^ 64 - 1

def parseOrdinal (digits : List Char) : Option ℕ :=
  let value := digits.foldl (fun value digit ↦ 10 * value + (digit.toNat - '0'.toNat)) 0
  if digits = [] ∨ maxOrdinal < value then none else some value

/-- The ordinal of a name in a family, or `none` for another family. -/
def familyOrdinal (name family : String) : Option ℕ :=
  if family.toList <+: name.toList then
    parseOrdinal ((name.toList.drop family.toList.length).takeWhile Char.isDigit)
  else
    none

def isIdChar (c : Char) : Bool :=
  c.isAlphanum || c == '.' || c == '-' || c == '_'

/-- A safe single-segment finding id; its characters are ASCII, so they are its bytes. -/
def isValidFindingId (id : String) : Bool :=
  match id.toList with
  | [] => false
  | first :: rest => rest.length < 128 && first.isAlphanum && rest.all isIdChar

/-- A safe id of a family. -/
def IsFamilyId (family id : String) : Prop :=
  isValidFindingId id ∧ (familyOrdinal id family).isSome

instance (family id : String) : Decidable (IsFamilyId family id) :=
  inferInstanceAs (Decidable (_ ∧ _))

/-- An ordinal with at least four digits. -/
def decimal (n : ℕ) : List Char :=
  let digits := (Nat.digits 10 n).reverse.map Nat.digitChar
  List.replicate (4 - digits.length) '0' ++ digits

/-- The name of a directory of a family. -/
def familyName (family : String) (ordinal : ℕ) (suffix : String) : String :=
  family ++ String.ofList (decimal ordinal ++ '-' :: suffix.toList)

structure FamilyAllocator where
  family : String
  next : ℕ

namespace FamilyAllocator

/-- Start one past the highest ordinal that is in use. -/
def new (names : List String) (family : String) : FamilyAllocator :=
  { family
    next := match (names.filterMap (familyOrdinal · family)).max? with
      | none => 0
      | some highest => min (highest + 1) maxOrdinal }

/-- An id of the family whose directory exists. -/
def reservedDir (ids : FamilyAllocator) (names : List String) (id : String) : Option String :=
  if IsFamilyId ids.family id ∧ id ∈ names then some id else none

/-- The loop for the next free name, with the number of ordinals left before the last one. -/
def createLoop (names : List String) (family suffix : String) : ℕ → Option (String × ℕ)
  | 0 => none
  | left + 1 =>
    let next := maxOrdinal - (left + 1)
    let id := familyName family next suffix
    if id ∈ names then createLoop names family suffix left else some (id, next + 1)

/-- The next free name with a suffix, or `none` if the suffix is unsafe or no ordinal is left. -/
def createWithSuffix (ids : FamilyAllocator) (names : List String) (suffix : String) :
    Option (String × FamilyAllocator) :=
  if isValidFindingId suffix then
    (createLoop names ids.family suffix (maxOrdinal - ids.next)).map fun (id, next) ↦
      (id, { ids with next })
  else
    none

/-- A name that is handed out was free and belongs to the family, with an ordinal that was left. -/
theorem of_createLoop {names : List String} {family suffix id : String} {next : ℕ} :
    ∀ {left : ℕ}, createLoop names family suffix left = some (id, next) →
      id ∉ names ∧ ∃ ordinal ≤ maxOrdinal, id = familyName family ordinal suffix
  | left + 1, h => by
    rw [createLoop] at h
    split at h
    · exact of_createLoop h
    · next hfree =>
      obtain ⟨⟩ := h
      exact ⟨hfree, _, Nat.sub_le _ _, rfl⟩

theorem of_createWithSuffix {ids ids' : FamilyAllocator} {names : List String}
    {suffix id : String} (h : ids.createWithSuffix names suffix = some (id, ids')) :
    ids'.family = ids.family ∧ id ∉ names ∧ isValidFindingId suffix ∧
      ∃ ordinal ≤ maxOrdinal, id = familyName ids.family ordinal suffix := by
  rw [createWithSuffix] at h
  split at h
  · next hsuffix =>
    obtain ⟨⟨id', next⟩, hloop, heq⟩ := Option.map_eq_some_iff.mp h
    obtain ⟨⟩ := heq
    obtain ⟨hfree, hname⟩ := of_createLoop hloop
    exact ⟨rfl, hfree, hsuffix, hname⟩
  · contradiction

end FamilyAllocator

/-! ### Names with short suffixes are safe ids of their family -/

theorem length_decimal_le {n : ℕ} (hn : n ≤ maxOrdinal) : (decimal n).length ≤ 20 := by
  have hdigits : (Nat.digits 10 n).length ≤ 20 :=
    (Nat.digits_length_le_iff (by decide) n).mpr (lt_of_le_of_lt hn (by decide))
  simp only [decimal, length_append, length_replicate, length_map, length_reverse]
  omega

theorem decimal_eq (n : ℕ) : decimal n = paddedDecimal 4 n :=
  rfl

/-- The value of decimal digits is the number they were made of. -/
theorem parseOrdinal_decimal {n : ℕ} (hn : n ≤ maxOrdinal) : parseOrdinal (decimal n) = some n := by
  have hvalue : (decimal n).foldl
      (fun value digit ↦ 10 * value + (digit.toNat - '0'.toNat)) 0 = n :=
    decimalValue_paddedDecimal 4 n
  rw [parseOrdinal, hvalue, if_neg]
  rintro (hnil | hlt)
  · exact absurd (le_length_paddedDecimal 4 n) (by rw [← decimal_eq, hnil]; decide)
  · exact absurd hlt (not_lt.mpr hn)

theorem toList_findingFamily : "F-".toList = ['F', '-'] := by
  decide +kernel

/-- **A name with a short suffix is a safe id of its family.** Twenty digits and a suffix of 105
characters fill the 128 bytes that an id may have. -/
theorem isFamilyId_familyName {ordinal : ℕ} {suffix : String} (hordinal : ordinal ≤ maxOrdinal)
    (hsuffix : isValidFindingId suffix) (hshort : suffix.toList.length ≤ 105) :
    IsFamilyId "F-" (familyName "F-" ordinal suffix) := by
  have hlist : (familyName "F-" ordinal suffix).toList =
      'F' :: '-' :: (decimal ordinal ++ '-' :: suffix.toList) := by
    rw [familyName, String.toList_append, toList_findingFamily, String.toList_ofList]
    rfl
  have hchars : ∀ c ∈ suffix.toList, isIdChar c := by
    intro c hc
    rw [isValidFindingId] at hsuffix
    split at hsuffix
    · exact absurd hsuffix Bool.false_ne_true
    next first rest heq =>
    simp only [Bool.and_eq_true, all_eq_true] at hsuffix
    rcases mem_cons.mp (heq ▸ hc) with rfl | hc
    · simp [isIdChar, hsuffix.1.2]
    · exact hsuffix.2 c hc
  constructor
  · have hlen := length_decimal_le hordinal
    rw [isValidFindingId, hlist]
    simp only [Bool.and_eq_true, decide_eq_true_eq, length_cons, length_append]
    refine ⟨⟨by omega, rfl⟩, all_eq_true.mpr fun c hc ↦ ?_⟩
    simp only [mem_cons, mem_append] at hc
    rcases hc with rfl | hc | rfl | hc
    · rfl
    · simp [isIdChar, Char.isAlphanum, isDigit_of_mem_paddedDecimal hc]
    · rfl
    · exact hchars c hc
  · have htake : (decimal ordinal ++ '-' :: suffix.toList).takeWhile Char.isDigit =
        decimal ordinal := by
      rw [decimal_eq, takeWhile_append_of_pos fun c hc ↦ isDigit_of_mem_paddedDecimal hc,
        takeWhile_cons_of_neg (by decide), append_nil]
    have hfamily : ['F', '-'] <+: 'F' :: '-' :: (decimal ordinal ++ '-' :: suffix.toList) :=
      prefix_append ['F', '-'] _
    rw [familyOrdinal, hlist]
    show (parseOrdinal ((decimal ordinal ++ '-' :: suffix.toList).takeWhile Char.isDigit)).isSome
    rw [htake, parseOrdinal_decimal hordinal]
    rfl

end Bhf.Corpus
