import Bhf.Lib.Csv
import Bhf.Lib.Text
import Mathlib.Data.List.Forall2

/-!
# The findings as a table

`findings.csv` has one row for each finding. A value that a spreadsheet would take for a formula
gets an apostrophe in front, and what the format could not hold otherwise is quoted.

**What a reader of the format finds in the file is the header and the values of the findings**, up
to the apostrophes, each under its name (`readCsv_renderCsv`). The quotes cannot hide a formula,
since the apostrophe is put in front of the value before the value is quoted.
-/

namespace Bhf.Results

open List

/-! ### Findings -/

inductive Kind where
  | fuzz
  | runtime
  | static
  | binary
  | differential
  | sca

def Kind.asStr : Kind → String
  | fuzz => "fuzz"
  | runtime => "runtime"
  | static => "static"
  | binary => "binary"
  | differential => "differential"
  | sca => "sca"

inductive Severity where
  | info
  | low
  | medium
  | high
  | critical

def Severity.asStr : Severity → String
  | info => "info"
  | low => "low"
  | medium => "medium"
  | high => "high"
  | critical => "critical"

inductive ConfirmationLevel where
  | sanitizerCrash
  | runtimeOracle
  | capability
  | crashLead
  | intendedRejection
  | staticConfirmed
  | static
  | advisory

def ConfirmationLevel.asStr : ConfirmationLevel → String
  | sanitizerCrash => "sanitizer_crash"
  | runtimeOracle => "runtime_oracle"
  | capability => "capability"
  | crashLead => "crash_lead"
  | intendedRejection => "intended_rejection"
  | staticConfirmed => "static_confirmed"
  | static => "static"
  | advisory => "advisory"

structure RuleRef where
  id : Option String

structure Confidence where
  level : String

structure Confirmation where
  level : ConfirmationLevel

structure Location where
  file : String
  line : Option UInt64
  function : Option String

structure Component where
  purl : Option String

structure ScaBlock where
  vulnId : String
  component : Component

structure Evidence where
  dir : String

structure Finding where
  id : String
  kind : Kind
  rule : RuleRef
  title : String
  severity : Severity
  confidence : Confidence
  cwe : List UInt32
  confirmation : Confirmation
  verdict : Option String
  location : Option Location
  group : Option String
  occurrences : ℕ
  firstSeen : Option String
  evidence : Option Evidence
  sca : Option ScaBlock

structure FindingsDocument where
  findings : List Finding

/-! ### The renderer -/

def csvHeader : String :=
  "id,kind,severity,confidence,confirmation,rule_id,cwe,title,file,line,function,group," ++
    "occurrences,verdict,vuln_id,purl,first_seen,evidence_dir"

/-- The characters at which a spreadsheet starts a formula. -/
def formulaStarts : List Char :=
  ['=', '+', '-', '@', '\t', '\r']

def startsFormula (value : String) : Bool :=
  value.toList.head?.any (· ∈ formulaStarts)

def guarded (value : String) : String :=
  if startsFormula value then "'" ++ value else value

def cell (value : String) : String :=
  if (guarded value).toList.any (· ∈ [',', '"', '\n', '\r']) then
    "\"" ++ String.ofList (Csv.doubled (guarded value).toList) ++ "\""
  else
    guarded value

/-- The values of a finding in the order of the header. -/
def Finding.row (f : Finding) : List String :=
  [ f.id,
    f.kind.asStr,
    f.severity.asStr,
    f.confidence.level,
    f.confirmation.level.asStr,
    f.rule.id.getD "",
    ";".intercalate (f.cwe.map fun c ↦ s!"CWE-{c}"),
    f.title,
    (f.location.map (·.file)).getD "",
    ((f.location.bind (·.line)).map toString).getD "",
    (f.location.bind (·.function)).getD "",
    f.group.getD "",
    toString f.occurrences,
    f.verdict.getD "",
    (f.sca.map (·.vulnId)).getD "",
    (f.sca.bind (·.component.purl)).getD "",
    f.firstSeen.getD "",
    (f.evidence.map (·.dir)).getD "" ]

def renderRow (f : Finding) : String :=
  ",".intercalate (f.row.map cell) ++ "\n"

def renderCsv (doc : FindingsDocument) : String :=
  doc.findings.foldl (fun out f ↦ out ++ renderRow f) (csvHeader ++ "\n")

/-! ### Cells -/

/-- **A cell is a way to write the guarded value.** -/
theorem encodes_cell (value : String) : Csv.Encodes (guarded value).toList (cell value).toList := by
  rw [cell]
  split
  · have htext : ("\"" ++ String.ofList (Csv.doubled (guarded value).toList) ++ "\"").toList =
        '"' :: Csv.doubled (guarded value).toList ++ ['"'] := by simp
    rw [htext]
    exact .quoted
  · next h =>
    refine .bare fun c hc hspecial ↦ h ?_
    rw [any_eq_true]
    exact ⟨c, hc, by simpa [Csv.Special] using hspecial⟩

theorem guarded_eq_or (value : String) : guarded value = value ∨ guarded value = "'" ++ value := by
  rw [guarded]
  split
  · exact .inr rfl
  · exact .inl rfl

theorem startsFormula_guarded (value : String) : startsFormula (guarded value) = false := by
  rw [guarded]
  split
  · simp [startsFormula, formulaStarts]
  · next h => exact eq_false_of_ne_true h

/-! ### The file -/

/-- The names in the header. -/
def headerNames : List String :=
  ["id", "kind", "severity", "confidence", "confirmation", "rule_id", "cwe", "title", "file",
    "line", "function", "group", "occurrences", "verdict", "vuln_id", "purl", "first_seen",
    "evidence_dir"]

theorem csvHeader_eq : csvHeader = ",".intercalate headerNames := by
  decide +kernel

theorem toList_csvHeader : csvHeader.toList = [','].intercalate (headerNames.map (·.toList)) := by
  rw [csvHeader_eq, String.toList_intercalate]
  rfl

/-- The names need no quotes. -/
theorem not_special_headerNames :
    ∀ name ∈ headerNames.map (·.toList), ∀ c ∈ name, ¬Csv.Special c := by
  simp [headerNames, Csv.Special]

theorem splitChar_csvHeader : splitChar ',' csvHeader = headerNames := by
  have hcomma : ∀ name ∈ headerNames.map (·.toList), ',' ∉ name := fun name hname hmem ↦
    not_special_headerNames name hname ',' hmem (.inl rfl)
  rw [splitChar, toList_csvHeader, splitOn_intercalate _ hcomma (by simp [headerNames])]
  simp [Function.comp_def]

theorem startsFormula_header : ∀ name ∈ headerNames, startsFormula name = false := by
  simp [headerNames, startsFormula, formulaStarts]

theorem encodes_row (f : Finding) :
    List.Forall₂ Csv.Encodes (f.row.map fun value ↦ (guarded value).toList)
      ((f.row.map cell).map (·.toList)) := by
  rw [map_map, forall₂_map_left_iff, forall₂_map_right_iff, forall₂_same]
  exact fun value _ ↦ encodes_cell value

theorem toList_renderRow (f : Finding) :
    (renderRow f).toList = [','].intercalate ((f.row.map cell).map (·.toList)) ++ ['\n'] := by
  rw [renderRow, String.toList_append, String.toList_intercalate]
  rfl

/-- The rows follow each other. -/
theorem toList_foldl_renderRow (findings : List Finding) (out : String) :
    (findings.foldl (fun out f ↦ out ++ renderRow f) out).toList =
      out.toList ++ findings.flatMap fun f ↦ (renderRow f).toList := by
  induction findings generalizing out with
  | nil => simp
  | cons f findings ih => simp [ih]

/-- The rows are read back one by one. -/
theorem read_rows (findings : List Finding) :
    Csv.read .fresh [] [] (findings.flatMap fun f ↦ (renderRow f).toList) =
      some (findings.map fun f ↦ f.row.map fun value ↦ (guarded value).toList) := by
  induction findings with
  | nil => simp [Csv.read]
  | cons f findings ih =>
    rw [flatMap_cons, toList_renderRow, append_assoc, singleton_append,
      Csv.read_record (encodes_row f) (by simp [Finding.row]), ih]
    simp

theorem readCsv_eq (doc : FindingsDocument) :
    Csv.readCsv (renderCsv doc) =
      some (splitChar ',' csvHeader :: doc.findings.map fun f ↦ f.row.map guarded) := by
  have hheader : (csvHeader ++ "\n").toList =
      [','].intercalate (headerNames.map (·.toList)) ++ ['\n'] := by
    rw [String.toList_append, toList_csvHeader]
    simp
  rw [Csv.readCsv, renderCsv, toList_foldl_renderRow, hheader, append_assoc,
    singleton_append, Csv.read_record
      (forall₂_same.2 fun name hname ↦ .bare (not_special_headerNames name hname))
      (by simp [headerNames]), read_rows, splitChar_csvHeader]
  simp [Function.comp_def]

/-- What the column of a name is to say of a finding, if there is anything to say. -/
def Finding.column (f : Finding) : String → Option String
  | "id" => some f.id
  | "kind" => some f.kind.asStr
  | "severity" => some f.severity.asStr
  | "confidence" => some f.confidence.level
  | "confirmation" => some f.confirmation.level.asStr
  | "rule_id" => f.rule.id
  | "cwe" => some (";".intercalate (f.cwe.map fun c ↦ s!"CWE-{c}"))
  | "title" => some f.title
  | "file" => f.location.map (·.file)
  | "line" => (f.location.bind (·.line)).map toString
  | "function" => f.location.bind (·.function)
  | "group" => f.group
  | "occurrences" => some (toString f.occurrences)
  | "verdict" => f.verdict
  | "vuln_id" => f.sca.map (·.vulnId)
  | "purl" => f.sca.bind (·.component.purl)
  | "first_seen" => f.firstSeen
  | "evidence_dir" => f.evidence.map (·.dir)
  | _ => none

/-- **The row has each value under its name.** -/
theorem row_eq_columns (f : Finding) :
    f.row = headerNames.map fun name ↦ (f.column name).getD "" := by
  simp [Finding.row, headerNames, Finding.column]

/-- The table that a reader of the format finds in the rendered document. -/
structure Table (doc : FindingsDocument) (records : List (List String)) : Prop where
  /-- The header, and one record for each finding: under each name of the header stands what the
  column is to say of the finding, or nothing, up to a leading apostrophe. -/
  rows : ∃ rows, records = splitChar ',' csvHeader :: rows ∧
    List.Forall₂ (fun f row ↦ row.length = 18 ∧
      List.Forall₂ (fun name field ↦
        field = (f.column name).getD "" ∨ field = "'" ++ (f.column name).getD "")
        (splitChar ',' csvHeader) row) doc.findings rows
  /-- No field starts a formula. -/
  noFormula : ∀ record ∈ records, ∀ field ∈ record, ∀ c ∈ formulaStarts,
    field.toList.head? ≠ some c

/-- **The file holds the table of the findings.** -/
theorem readCsv_renderCsv (doc : FindingsDocument) :
    ∃ records, Csv.readCsv (renderCsv doc) = some records ∧ Table doc records := by
  refine ⟨_, readCsv_eq doc, ⟨⟨_, rfl, ?_⟩, ?_⟩⟩
  · rw [forall₂_map_right_iff, forall₂_same]
    intro f hf
    refine ⟨by simp [Finding.row], ?_⟩
    rw [row_eq_columns, map_map, splitChar_csvHeader, forall₂_map_right_iff, forall₂_same]
    exact fun name _ ↦ guarded_eq_or _
  · have hguarded : ∀ value, startsFormula value = false → ∀ c ∈ formulaStarts,
        value.toList.head? ≠ some c := by
      intro value hvalue c hc hhead
      rw [startsFormula, hhead] at hvalue
      simp [hc] at hvalue
    intro record hrecord field hfield
    apply hguarded
    rw [mem_cons] at hrecord
    obtain hrecord | hrecord := hrecord
    · rw [hrecord, splitChar_csvHeader] at hfield
      exact startsFormula_header field hfield
    · obtain ⟨f, -, rfl⟩ := mem_map.1 hrecord
      obtain ⟨value, -, rfl⟩ := mem_map.1 hfield
      exact startsFormula_guarded value

/-- A finding whose title is a formula with a comma, quotes and a line break. -/
def formulaFinding : Finding where
  id := "F-1"
  kind := .static
  rule := ⟨some "-R"⟩
  title := "=A1,\"B\"\n"
  severity := .high
  confidence := ⟨"firm"⟩
  cwe := [79, 80]
  confirmation := ⟨.advisory⟩
  verdict := none
  location := some ⟨"a,b.c", some 7, none⟩
  group := none
  occurrences := 2
  firstSeen := none
  evidence := some ⟨"ev"⟩
  sca := none

theorem readCsv_renderCsv_formula :
    ∃ records, Csv.readCsv (renderCsv ⟨[formulaFinding]⟩) = some records ∧
      Table ⟨[formulaFinding]⟩ records ∧
      records = [headerNames, ["F-1", "static", "high", "firm", "advisory", "'-R",
        "CWE-79;CWE-80", "'=A1,\"B\"\n", "a,b.c", "7", "", "", "2", "", "", "", "", "ev"]] := by
  obtain ⟨records, hread, htable⟩ := readCsv_renderCsv ⟨[formulaFinding]⟩
  have hrecords := Option.some_inj.1 (hread.symm.trans (readCsv_eq _))
  refine ⟨records, hread, htable, hrecords.trans ?_⟩
  rw [splitChar_csvHeader]
  decide +kernel

end Bhf.Results
