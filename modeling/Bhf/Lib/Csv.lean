import Mathlib.Data.List.Basic

/-!
# Reading comma-separated values

A reader of records in the format of RFC 4180: fields are separated by commas, records end with a
line break, and a field in double quotes may hold any character, a quote of its own being written
twice. A line break is a line feed, with or without a carriage return before it, and it may be
missing after the last record. Text that is not of this format is refused.

The reader is a function of its mode, so what it does on a field does not depend on what follows
the separator. **A text that `Encodes` a value is read back as that value** in front of a comma or
of a line feed (`read_encodes`), and records of such texts are read back one by one
(`read_record`).
-/

namespace Bhf.Csv

open List

/-- Where the reader is. -/
inductive Mode where
  /-- Before the first character of a field. -/
  | fresh
  /-- In a field without quotes. -/
  | bare
  /-- In a field with quotes. -/
  | quoted
  /-- After a quote in such a field: it ends the field, or it is the first of two. -/
  | closed
  /-- After a carriage return, which only a line feed may follow. -/
  | cr
  deriving DecidableEq

/-- A record is the list of its fields. -/
abbrev Record := List (List Char)

/-- Read on, with the fields of the record and the characters of the field that are there. -/
def read : Mode → Record → List Char → List Char → Option (List Record)
  | .quoted, _, _, [] => none
  | .cr, _, _, [] => none
  | .fresh, [], _, [] => some []
  | _, record, field, [] => some [record ++ [field]]
  | .quoted, record, field, c :: rest =>
    if c = '"' then read .closed record field rest
    else read .quoted record (field ++ [c]) rest
  | .cr, record, field, c :: rest =>
    if c = '\n' then (read .fresh [] [] rest).map ((record ++ [field]) :: ·) else none
  | mode, record, field, c :: rest =>
    if c = ',' then read .fresh (record ++ [field]) [] rest
    else if c = '\n' then (read .fresh [] [] rest).map ((record ++ [field]) :: ·)
    else if c = '\r' then read .cr record field rest
    else if c = '"' then
      match mode with
      | .fresh => read .quoted record field rest
      | .closed => read .quoted record (field ++ [c]) rest
      | _ => none
    else if mode = .closed then none
    else read .bare record (field ++ [c]) rest

/-- The records of a text. -/
def readCsv (text : String) : Option (List (List String)) :=
  (read .fresh [] [] text.toList).map (·.map (·.map String.ofList))

/-! ### Fields -/

/-- The characters that a field without quotes may not hold. -/
def Special (c : Char) : Prop :=
  c = ',' ∨ c = '"' ∨ c = '\n' ∨ c = '\r'

instance : DecidablePred Special := fun _ ↦ inferInstanceAs (Decidable (_ ∨ _))

/-- Every quote is written twice. -/
def doubled (value : List Char) : List Char :=
  value.flatMap fun c ↦ if c = '"' then ['"', '"'] else [c]

/-- The texts that a value can be written as. -/
inductive Encodes (value : List Char) : List Char → Prop
  | bare (h : ∀ c ∈ value, ¬Special c) : Encodes value value
  | quoted : Encodes value ('"' :: doubled value ++ ['"'])

/-- The modes in which a separator ends the field. -/
def Mode.EndsField (mode : Mode) : Prop :=
  mode = .fresh ∨ mode = .bare ∨ mode = .closed

variable {mode : Mode}

theorem read_comma (h : mode.EndsField) (record : Record) (field rest : List Char) :
    read mode record field (',' :: rest) = read .fresh (record ++ [field]) [] rest := by
  obtain rfl | rfl | rfl := h <;> simp [read]

/-- A character without a meaning of its own is one of the field. -/
theorem read_plain (hmode : mode = .fresh ∨ mode = .bare) {c : Char}
    (hc : ¬Special c) (record : Record) (field rest : List Char) :
    read mode record field (c :: rest) = read .bare record (field ++ [c]) rest := by
  obtain ⟨hcomma, hquote, hlf, hcr⟩ : c ≠ ',' ∧ c ≠ '"' ∧ c ≠ '\n' ∧ c ≠ '\r' := by
    simpa [Special] using hc
  obtain rfl | rfl := hmode <;> simp [read, hcomma, hquote, hlf, hcr]

/-- The characters of a bare field are collected. -/
theorem read_bare {value : List Char} (h : ∀ c ∈ value, ¬Special c) (record : Record)
    (field rest : List Char) (hmode : mode = .fresh ∨ mode = .bare) :
    ∃ mode', mode'.EndsField ∧
      read mode record field (value ++ rest) = read mode' record (field ++ value) rest := by
  induction value generalizing field mode with
  | nil =>
    refine ⟨mode, ?_, by simp⟩
    obtain rfl | rfl := hmode
    · exact .inl rfl
    · exact .inr (.inl rfl)
  | cons c value ih =>
    rw [forall_mem_cons] at h
    obtain ⟨mode', hends, hread⟩ := ih h.2 _ (.inr rfl)
    refine ⟨mode', hends, ?_⟩
    rw [cons_append, read_plain hmode h.1, hread, append_assoc, singleton_append]

/-- The characters between the quotes are collected, two quotes as one. -/
theorem read_doubled (value : List Char) (record : Record) (field rest : List Char) :
    read .quoted record field (doubled value ++ rest) =
      read .quoted record (field ++ value) rest := by
  induction value generalizing field with
  | nil => simp [doubled]
  | cons c value ih =>
    have hstep : ∀ tail, read .quoted record field ((if c = '"' then ['"', '"'] else [c]) ++ tail) =
        read .quoted record (field ++ [c]) tail := by
      intro tail
      by_cases hc : c = '"'
      · simp [hc, read]
      · simp [hc, read]
    rw [doubled, flatMap_cons, append_assoc, hstep]
    show read .quoted record (field ++ [c]) (doubled value ++ rest) = _
    rw [ih, append_assoc, singleton_append]

/-- **A text is read back as the value that it encodes.** -/
theorem read_encodes {value text : List Char} (h : Encodes value text) (record : Record)
    (rest : List Char) :
    ∃ mode, mode.EndsField ∧
      read .fresh record [] (text ++ rest) = read mode record value rest := by
  cases h with
  | bare h => exact read_bare h record [] rest (.inl rfl)
  | quoted =>
    refine ⟨.closed, .inr (.inr rfl), ?_⟩
    calc read .fresh record [] ('"' :: doubled value ++ ['"'] ++ rest)
        = read .quoted record [] (doubled value ++ ('"' :: rest)) := by simp [read]
      _ = read .quoted record value ('"' :: rest) := by rw [read_doubled, nil_append]
      _ = read .closed record value rest := by simp [read]

/-! ### Records -/

/-- **A line of texts is read back as the record of their values.** -/
theorem read_record {texts : List (List Char)} {values : Record}
    (h : List.Forall₂ Encodes values texts) (hne : texts ≠ []) (record : Record)
    (rest : List Char) :
    read .fresh record [] ([','].intercalate texts ++ '\n' :: rest) =
      (read .fresh [] [] rest).map ((record ++ values) :: ·) := by
  induction h generalizing record with
  | nil => contradiction
  | @cons value text values texts hencodes htail ih =>
    cases htail with
    | nil =>
      obtain ⟨mode, hends, hread⟩ := read_encodes hencodes record ('\n' :: rest)
      rw [intercalate_singleton, hread]
      obtain rfl | rfl | rfl := hends <;> simp [read]
    | @cons value' text' values' texts' hencodes' htail' =>
      obtain ⟨mode, hends, hread⟩ := read_encodes hencodes record
        (',' :: ([','].intercalate (text' :: texts') ++ '\n' :: rest))
      rw [intercalate_cons_cons, append_assoc, append_assoc, singleton_append,
        hread, read_comma hends, ih (cons_ne_nil _ _), append_assoc, singleton_append]

end Bhf.Csv
