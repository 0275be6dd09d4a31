import Bhf.IdlParser.Scan

/-!
# Runs of continued lines

What the logical lines of a source are, apart from the loop that joins them: the physical lines fall
into **maximal runs**, each ended by the first line that does not continue (`continuedRuns`), and
the `n`-th logical line begins where the `n`-th run does (`map_lineNo_logicalLines`).
-/

namespace Bhf.IdlParser

open List

/-- The maximal runs of lines joined by trailing backslashes. -/
def continuedRuns : List (Text × Bool) → List (List (Text × Bool))
  | [] => []
  | line :: rest =>
    if continues line.1 then
      match continuedRuns rest with
      | [] => [[line]]
      | run :: runs => (line :: run) :: runs
    else
      [line] :: continuedRuns rest

/-- The numbers of the first lines of runs, if the first run begins at `lineNo`. -/
def firstLines (lineNo : ℕ) : List (List (Text × Bool)) → List ℕ
  | [] => []
  | run :: runs => lineNo :: firstLines (lineNo + run.length) runs

/-- The number of the first physical line of each logical line of a source. -/
def logicalStarts (source : Text) : List ℕ :=
  firstLines 1 (continuedRuns (physicalLines source))

variable {lines : List (Text × Bool)}

theorem continuedRuns_ne_nil {run : List (Text × Bool)}
    (h : run ∈ continuedRuns lines) : run ≠ [] := by
  induction lines generalizing run with
  | nil => simp [continuedRuns] at h
  | cons line lines ih =>
    rw [continuedRuns] at h
    split at h
    · split at h
      · simp_all
      · next hruns =>
        rcases mem_cons.mp h with rfl | h
        · exact cons_ne_nil _ _
        · exact ih (hruns ▸ mem_cons_of_mem _ h)
    · rcases mem_cons.mp h with rfl | h
      · exact cons_ne_nil _ _
      · exact ih h

theorem le_of_mem_firstLines {lineNo start : ℕ} {runs : List (List (Text × Bool))}
    (h : start ∈ firstLines lineNo runs) : lineNo ≤ start := by
  induction runs generalizing lineNo with
  | nil => simp [firstLines] at h
  | cons run runs ih =>
    rcases mem_cons.mp h with rfl | h
    · exact le_rfl
    · exact (Nat.le_add_right _ _).trans (ih h)

/-- Runs begin one after another. -/
theorem pairwise_firstLines {runs : List (List (Text × Bool))} (h : ∀ run ∈ runs, run ≠ [])
    (lineNo : ℕ) : (firstLines lineNo runs).Pairwise (· < ·) := by
  induction runs generalizing lineNo with
  | nil => exact .nil
  | cons run runs ih =>
    obtain ⟨hrun, hruns⟩ := forall_mem_cons.mp h
    refine .cons (fun start hstart ↦ ?_) (ih hruns _)
    have hle := le_of_mem_firstLines hstart
    have hpos := length_pos_iff.mpr hrun
    omega

theorem pairwise_logicalStarts (source : Text) : (logicalStarts source).Pairwise (· < ·) :=
  pairwise_firstLines (fun _ h ↦ continuedRuns_ne_nil h) 1

/-- The loop that joins lines, with and without a line to be continued: the first run goes to the
line that is being continued. -/
theorem map_lineNo_joinLines (lines : List (Text × Bool)) (lineNo : ℕ) :
    (joinLines lineNo none lines).map LogicalLine.lineNo =
        firstLines lineNo (continuedRuns lines) ∧
      ∀ pending, (joinLines lineNo (some pending) lines).map LogicalLine.lineNo =
        pending.lineNo :: firstLines (lineNo + ((continuedRuns lines).head?.getD []).length)
          (continuedRuns lines).tail := by
  induction lines generalizing lineNo with
  | nil => exact ⟨rfl, fun _ ↦ rfl⟩
  | cons line lines ih =>
    obtain ⟨text, hasNewline⟩ := line
    obtain ⟨hnone, hsome⟩ := ih _
    by_cases hcontinues : continues text
    · have hruns : (continuedRuns ((text, hasNewline) :: lines)) =
          ((text, hasNewline) :: (continuedRuns lines).head?.getD []) ::
            (continuedRuns lines).tail := by
        rw [continuedRuns, if_pos hcontinues]
        cases continuedRuns lines <;> rfl
      refine ⟨?_, fun pending ↦ ?_⟩
      · rw [joinLines, if_pos hcontinues, hsome, hruns, firstLines, length_cons]
        congr 2
        omega
      · rw [joinLines, if_pos hcontinues, hsome, hruns]
        simp only [head?_cons, Option.getD_some, length_cons, tail_cons]
        congr 2
        omega
    · have hruns : continuedRuns ((text, hasNewline) :: lines) =
          [(text, hasNewline)] :: continuedRuns lines := by
        rw [continuedRuns, if_neg hcontinues]
      refine ⟨?_, fun pending ↦ ?_⟩
      all_goals
        rw [joinLines, if_neg hcontinues, map_cons, hnone, hruns]
        rfl

/-- **The logical lines begin where the runs do.** -/
theorem map_lineNo_logicalLines (source : Text) :
    (logicalLines source).map LogicalLine.lineNo = logicalStarts source :=
  (map_lineNo_joinLines _ 1).1

/-- Only the last logical line can lack its line break. -/
theorem closedBeforeLast_joinLines (h : ClosedBeforeLast lines)
    (lineNo : ℕ) (pending : Option LogicalLine) :
    ClosedBeforeLast ((joinLines lineNo pending lines).map fun line ↦
      (line.text, line.hasNewline)) := by
  induction lines generalizing lineNo pending with
  | nil =>
    cases pending with
    | none => exact .nil
    | some pending => exact pairwise_singleton _ _
  | cons line lines ih =>
    obtain ⟨text, hasNewline⟩ := line
    obtain ⟨hfirst, hrest⟩ := pairwise_cons.mp h
    have hbreak : ∀ piece ∈ (joinLines (lineNo + 1) none lines).map fun line ↦
        (line.text, line.hasNewline), hasNewline := by
      intro piece hpiece
      cases lines with
      | nil => simp [joinLines] at hpiece
      | cons next lines => exact hfirst next mem_cons_self
    cases pending with
    | none | some pending =>
      rw [joinLines]
      split
      · exact ih hrest _ _
      · exact .cons hbreak (ih hrest _ _)

/-- No line break ends up inside a logical line. -/
theorem not_mem_text_joinLines (h : ∀ line ∈ lines, '\n' ∉ line.1)
    (lineNo : ℕ) (pending : Option LogicalLine) (hpending : ∀ line ∈ pending, '\n' ∉ line.text) :
    ∀ line ∈ joinLines lineNo pending lines, '\n' ∉ line.text := by
  have hsegment : ∀ text : Text, '\n' ∉ text → '\n' ∉ segment text := by
    intro text htext hmem
    have hdropLast := dropLast_subset _ <| IsPrefix.mem hmem <| rdropWhile_prefix _ _
    exact htext <| IsPrefix.mem hdropLast <| rdropWhile_prefix _ _
  induction lines generalizing lineNo pending with
  | nil =>
    cases pending with
    | none => simp [joinLines]
    | some pending => simpa [joinLines] using hpending
  | cons line lines ih =>
    obtain ⟨text, hasNewline⟩ := line
    obtain ⟨htext, hlines⟩ := forall_mem_cons.mp h
    cases pending with
    | none =>
      rw [joinLines]
      split
      · refine ih hlines _ _ ?_
        simp [hsegment text htext]
      · exact forall_mem_cons.mpr ⟨htext, ih hlines _ _ (by simp)⟩
    | some pending =>
      have hbefore : '\n' ∉ pending.text := hpending pending rfl
      rw [joinLines]
      split
      · refine ih hlines _ _ ?_
        simp [hbefore, hsegment text htext]
      · refine forall_mem_cons.mpr ⟨?_, ih hlines _ _ (by simp)⟩
        simp [hbefore, htext]

end Bhf.IdlParser
