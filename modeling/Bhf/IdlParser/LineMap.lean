import Bhf.IdlParser.Emission
import Bhf.IdlParser.LogicalLines

/-!
# Line numbers of preprocessed sources

A location found in preprocessed C or C++ text is translated back to the original source. That is
possible because **the `n`-th output line comes from the `n`-th logical line**: the preprocessor
records the number of each logical line as it goes, and every one of them leaves exactly one line.

Line numbers are kept as machine words of 32 bits only when they are handed out. The translation is
exact as long as the numbers fit (`Fits`); a source that is longer and joins lines has line numbers
that do not, and they are reported modulo `2 ^ 32`.
-/

namespace Bhf.IdlParser

open StateExcept List LogicalLine

/-- The original line of each output line; empty for the identity. -/
structure LineMap where
  original : List ℕ := []
  deriving DecidableEq

/-- Translate a line number, counted from one. -/
def LineMap.toOriginal (map : LineMap) (preprocessedLine : UInt32) : UInt32 :=
  if preprocessedLine = 0 then
    preprocessedLine
  else
    match map.original[preprocessedLine.toNat - 1]? with
    | some line => UInt32.ofNat line
    | none => preprocessedLine

def LineMap.identity : LineMap :=
  {}

/-- The preprocessor as C and C++ sources are run through it. -/
def cLikeConfig (files : Files) : Config where
  files := files
  recovery := .recover
  passthroughIncludes := true
  trackLines := true

/-- The macros given from outside; a later one replaces an earlier one of the same name. -/
def definesOf (defines : List (Text × Text)) : Defines :=
  defines.foldl (fun map pair ↦ map.insert pair.1 pair.2) ∅

def cLikeStart (defines : List (Text × Text)) : PreState where
  defines := definesOf defines

def preprocessCLikeWithLineMap (files : Files) (source : Text) (defines : List (Text × Text)) :
    Text × LineMap :=
  match exec (preprocessSource (cLikeConfig files) source) (cLikeStart defines) with
  | (.ok output, state) => (output, ⟨state.lineMap⟩)
  | (.error _, _) => (source, .identity)

/-! ### A run over the lines -/

section Lines

variable {context : Context} {state state' : PreState}

/-- The surroundings of a source whose includes are passed through and whose lines are counted. -/
structure Context.Tracks (context : Context) : Prop where
  /-- Includes stay as they are. -/
  passthrough : context.config.passthroughIncludes = true
  /-- Lines are counted. -/
  trackLines : context.config.trackLines = true

theorem tracked_of_tracks (h : context.Tracks) (lineNo : ℕ) (state : PreState) :
    tracked context.config lineNo state = { state with lineMap := state.lineMap ++ [lineNo] } := by
  show (if context.config.trackLines then _ else _ : PreState) = _
  rw [h.trackLines]
  rfl

/-- A line leaves one line of output and one entry in the map. -/
theorem runs_processLine (h : context.Tracks) {line : LogicalLine} {emitted : Text}
    (hline : NoBreak line.text) (hdefines : state.defines.OneLine)
    (hrun : Runs (processLine context line) state emitted state') :
    NoBreak emitted ∧ state'.defines.OneLine ∧
      state'.lineMap = state.lineMap ++ [line.lineNo] := by
  have htracked := tracked_of_tracks h line.lineNo state
  have hdefines' : (tracked context.config line.lineNo state).defines.OneLine := htracked ▸ hdefines
  have hmap : (tracked context.config line.lineNo state).lineMap =
      state.lineMap ++ [line.lineNo] := by rw [htracked]
  cases hdirective : isDirective line.text with
  | false =>
    rw [Runs, exec_processLine_of_text hdirective] at hrun
    obtain ⟨⟩ := hrun
    refine ⟨?_, hdefines', hmap⟩
    split
    · exact noBreak_expandFrom hdefines' _ noBreak_nil hline
    · exact noBreak_nil
  | true =>
    rw [Runs, exec_processLine_of_directive hdirective] at hrun
    obtain ⟨out, state₁, hout, hreturn⟩ := runs_bind_iff.mp hrun
    obtain ⟨⟩ := hreturn
    obtain ⟨hout, hstep, hmap'⟩ :=
      oneLineStep_processDirective h.passthrough line.lineNo hline _ _ _ hout hdefines'
    refine ⟨?_, hstep, hmap'.trans hmap⟩
    cases out with
    | none => exact noBreak_nil
    | some text => exact hout text rfl

/-- What a run over lines leaves: one text for each line. -/
structure Emitted (context : Context) (state : PreState) (lines : List LogicalLine)
    (output : Text) (state' : PreState) (emitted : List Text) : Prop where
  /-- Each line leaves one text. -/
  length : emitted.length = lines.length
  /-- They are the lines of the output. -/
  output : output = joinPieces '\n' (emitted.zip (lines.map LogicalLine.hasNewline))
  /-- None holds a line break. -/
  noBreak : ∀ text ∈ emitted, NoBreak text
  /-- The numbers of the lines are recorded. -/
  lineMap : state'.lineMap = state.lineMap ++ lines.map LogicalLine.lineNo
  /-- An active line that is no directive leaves its expansion. -/
  expanded : ∀ i line before reached, lines[i]? = some line → isDirective line.text = false →
    Runs (processLines context (lines.take i)) state before reached → isActive reached = true →
    emitted[i]? = some (expandLine reached.defines line.text)

theorem exists_emitted (h : context.Tracks) {lines : List LogicalLine} {output : Text}
    (hlines : ∀ line ∈ lines, NoBreak line.text) (hdefines : state.defines.OneLine)
    (hrun : Runs (processLines context lines) state output state') :
    ∃ emitted, Emitted context state lines output state' emitted := by
  induction lines generalizing state output with
  | nil =>
    obtain ⟨⟩ := hrun
    exact ⟨[], rfl, rfl, by simp, by simp, by simp⟩
  | cons line lines ih =>
    obtain ⟨hline, hlines⟩ := forall_mem_cons.mp hlines
    obtain ⟨text, state₁, h₁, hrun⟩ := runs_bind_iff.mp hrun
    obtain ⟨rest, state₂, h₂, hrun⟩ := runs_bind_iff.mp hrun
    obtain ⟨⟩ := hrun
    obtain ⟨htext, hdefines₁, hmap⟩ := runs_processLine h hline hdefines h₁
    obtain ⟨emitted, hemitted⟩ := ih hlines hdefines₁ h₂
    refine ⟨text :: emitted, by simp [hemitted.length], ?_,
      forall_mem_cons.mpr ⟨htext, hemitted.noBreak⟩, ?_, ?_⟩
    · rw [hemitted.output]
      simp [joinPieces, lineBreak]
    · rw [hemitted.lineMap, hmap]
      simp
    · rintro (_ | i) line' before reached hget htext' hreached hactive
      · obtain rfl : line = line' := by simpa using hget
        obtain ⟨⟩ := hreached
        rw [Runs, exec_processLine_of_text htext', hactive] at h₁
        obtain ⟨⟨⟩, -⟩ := Prod.mk.inj h₁
        rw [tracked_of_tracks h]
        rfl
      · obtain ⟨first, state₃, h₃, hreached⟩ := runs_bind_iff.mp hreached
        obtain ⟨-, rfl⟩ := Prod.mk.inj (h₁.symm.trans h₃)
        obtain ⟨before', state₄, h₄, hreached⟩ := runs_bind_iff.mp hreached
        obtain ⟨⟩ := hreached
        exact hemitted.expanded i line' before' _ (by simpa using hget) htext' h₄ hactive

/-- The lines of the output are those texts. -/
theorem Emitted.physicalLines_prefix {lines : List LogicalLine} {output : Text}
    {emitted : List Text} (h : Emitted context state lines output state' emitted)
    (hclosed : ClosedBeforeLast (lines.map fun line ↦ (line.text, line.hasNewline))) :
    physicalLines output <+: emitted.zip (lines.map hasNewline) := by
  rw [h.output]
  refine cutAfter_join (fun piece hpiece ↦ h.noBreak _ (of_mem_zip hpiece).1) ?_
  have hflags : (emitted.zip (lines.map hasNewline)).map Prod.snd = lines.map hasNewline :=
    map_snd_zip (by rw [length_map, h.length])
  have hpairs : (lines.map hasNewline).Pairwise fun closed _ ↦ closed = true := by
    rw [pairwise_map]
    exact pairwise_map.mp hclosed
  rwa [← hflags, pairwise_map] at hpairs

end Lines

/-! ### The translation -/

section Translation

variable {files : Files} {source output : Text} {defines : List (Text × Text)} {state : PreState}

/-- The surroundings of a source that is run by itself. -/
def cLikeContext (files : Files) : Context where
  config := cLikeConfig files
  processFile := processFile (cLikeConfig files) (maxIncludeDepth + 1)
  currentFile := none
  depthAtEntry := 0

/-- What the output and the line map of a source say about each other. -/
structure MapsBack (files : Files) (source : Text) (defines : List (Text × Text)) (output : Text)
    (map : LineMap) : Prop where
  /-- There is no output line without a logical line. -/
  covered : (physicalLines output).length ≤ (logicalStarts source).length
  /-- A line number is translated to that of the first line of its run. -/
  original : ∀ n : UInt32, n ≠ 0 → ∀ start, (logicalStarts source)[n.toNat - 1]? = some start →
    (map.toOriginal n).toNat = start
  /-- Line numbers increase. -/
  increasing : ∀ m n : UInt32, m ≠ 0 → m < n → n.toNat ≤ (logicalStarts source).length →
    map.toOriginal m < map.toOriginal n
  /-- The output line of an active line that is no directive is its expansion. -/
  expanded : ∀ i line before reached, (logicalLines source)[i]? = some line →
    isDirective line.text = false →
    Runs (processLines (cLikeContext files) ((logicalLines source).take i)) (cLikeStart defines)
      before reached →
    isActive reached = true → ∀ outputLine, (physicalLines output)[i]? = some outputLine →
    outputLine.1 = expandLine reached.defines line.text

/-- The line numbers that can be asked for have originals that fit into 32 bits. -/
def Fits (source : Text) : Prop :=
  ∀ i start, (logicalStarts source)[i]? = some start → i + 1 < 2 ^ 32 → start < 2 ^ 32

theorem oneLine_definesOf (h : ∀ pair ∈ defines, NoBreak pair.2) : (definesOf defines).OneLine := by
  have hfold : ∀ (pairs : List (Text × Text)) (map : Defines), (∀ pair ∈ pairs, NoBreak pair.2) →
      map.OneLine →
      Defines.OneLine (pairs.foldl (fun map pair ↦ map.insert pair.1 pair.2) map) := by
    intro pairs
    induction pairs with
    | nil => exact fun _ _ hmap ↦ hmap
    | cons pair pairs ih =>
      intro map hpairs hmap
      obtain ⟨hpair, hpairs⟩ := forall_mem_cons.mp hpairs
      exact ih _ hpairs (hmap.insert hpair)
  refine hfold defines ∅ h fun name value hlookup ↦ ?_
  simp at hlookup

/-- A source that is run by itself is a run over its lines. -/
theorem runs_lines_of_runs
    (h : Runs (preprocessSource (cLikeConfig files) source) (cLikeStart defines) output state) :
    Runs (processLines (cLikeContext files) (logicalLines source)) (cLikeStart defines) output
      state := by
  obtain ⟨_, _, ⟨⟩, h⟩ := runs_bind_iff.mp h
  obtain ⟨out, state₁, hlines, h⟩ := runs_bind_iff.mp h
  obtain ⟨_, state₂, hclose, h⟩ := runs_bind_iff.mp h
  obtain ⟨⟨⟩, rfl⟩ := Prod.mk.inj h
  have hsame : state₂ = state₁ := by
    rw [Runs, closeFrames, exec_get_bind] at hclose
    split at hclose
    · exact absurd (Prod.mk.inj hclose).1 (by rintro ⟨⟩)
    · exact (Prod.mk.inj hclose).2.symm
  exact hsame ▸ hlines

variable {n : UInt32}

theorem toNat_ne_zero (hn : n ≠ 0) : n.toNat ≠ 0 :=
  fun h ↦ hn (UInt32.toNat_inj.mp h)

theorem toNat_toOriginal {map : LineMap} (hmap : map.original = logicalStarts source)
    (hfits : Fits source) (hn : n ≠ 0) {start : ℕ}
    (hstart : (logicalStarts source)[n.toNat - 1]? = some start) :
    (map.toOriginal n).toNat = start := by
  rw [LineMap.toOriginal, if_neg hn, hmap, hstart]
  refine Nat.mod_eq_of_lt (hfits _ _ hstart ?_)
  have := n.toNat_lt
  omega

/-- **Reported locations map back.** For every source and all macros whose values are on one line:
if preprocessing fails, the source itself is returned with the identity, and if it succeeds, the
locations map back exactly if the line numbers fit into 32 bits. -/
theorem line_map_iff (files : Files) (source : Text) (defines : List (Text × Text))
    (h : ∀ pair ∈ defines, NoBreak pair.2) :
    (∀ error state, exec (preprocessSource (cLikeConfig files) source) (cLikeStart defines) =
        (.error error, state) →
      preprocessCLikeWithLineMap files source defines = (source, .identity) ∧
        ∀ n, LineMap.identity.toOriginal n = n) ∧
    ∀ output state, exec (preprocessSource (cLikeConfig files) source) (cLikeStart defines) =
        (.ok output, state) →
      (preprocessCLikeWithLineMap files source defines).1 = output ∧
        (MapsBack files source defines output (preprocessCLikeWithLineMap files source defines).2 ↔
          Fits source) := by
  refine ⟨fun error state herror ↦ ⟨?_, fun n ↦ ?_⟩, fun output state hrun ↦ ?_⟩
  · rw [preprocessCLikeWithLineMap, herror]
  · rw [LineMap.toOriginal]
    split <;> rfl
  · have hresult : preprocessCLikeWithLineMap files source defines = (output, ⟨state.lineMap⟩) := by
      rw [preprocessCLikeWithLineMap, hrun]
    rw [hresult]
    refine ⟨rfl, ?_⟩
    have hfree : ∀ line ∈ logicalLines source, NoBreak line.text :=
      not_mem_text_joinLines (fun _ ↦ not_mem_of_mem_cutAfter) 1 none (by simp)
    have hclosed : ClosedBeforeLast ((logicalLines source).map fun line ↦
        (line.text, line.hasNewline)) :=
      closedBeforeLast_joinLines (closedBeforeLast_cutAfter source) 1 none
    have htracks : (cLikeContext files).Tracks := ⟨rfl, rfl⟩
    obtain ⟨emitted, hemitted⟩ :=
      exists_emitted htracks hfree (oneLine_definesOf h) (runs_lines_of_runs hrun)
    have hmap : state.lineMap = logicalStarts source := by
      rw [hemitted.lineMap, ← map_lineNo_logicalLines]
      rfl
    have hprefix := hemitted.physicalLines_prefix hclosed
    have hcovered : (physicalLines output).length ≤ (logicalStarts source).length := by
      have hle := hprefix.length_le
      rw [← map_lineNo_logicalLines, length_map]
      rw [length_zip, length_map] at hle
      omega
    refine ⟨fun hmaps i start hstart hi ↦ ?_, fun hfits ↦ ?_⟩
    · have hn : (UInt32.ofNat (i + 1)).toNat = i + 1 := by
        exact Nat.mod_eq_of_lt hi
      have hne : UInt32.ofNat (i + 1) ≠ 0 := by
        intro hzero
        rw [hzero] at hn
        simp at hn
      rw [← hmaps.original _ hne start (by rw [hn]; exact hstart)]
      exact UInt32.toNat_lt _
    · refine ⟨hcovered, fun n hn start ↦ toNat_toOriginal hmap hfits hn,
        fun m n hm hmn hlength ↦ ?_,
        fun i line before reached hget htext hreached hactive outputLine houtput ↦ ?_⟩
      · have hmn' : m.toNat < n.toNat := UInt32.lt_iff_toNat_lt.mp hmn
        have hpos := toNat_ne_zero hm
        have hn : n ≠ 0 := by
          rintro rfl
          simp at hmn'
        have hm' : m.toNat - 1 < (logicalStarts source).length := by omega
        have hn' : n.toNat - 1 < (logicalStarts source).length := by omega
        rw [UInt32.lt_iff_toNat_lt, toNat_toOriginal hmap hfits hm (getElem?_eq_getElem hm'),
          toNat_toOriginal hmap hfits hn (getElem?_eq_getElem hn')]
        exact pairwise_iff_getElem.mp (pairwise_logicalStarts source) _ _ hm' hn' (by omega)
      · have hemit := hemitted.expanded i line before reached hget htext hreached hactive
        have hzip : (emitted.zip ((logicalLines source).map LogicalLine.hasNewline))[i]? =
            some outputLine := by
          obtain ⟨rest, hrest⟩ := hprefix
          rw [← hrest, getElem?_append_left (List.getElem?_eq_some_iff.mp houtput).1, houtput]
        rw [List.getElem?_zip_eq_some] at hzip
        exact (Option.some.inj (hemit.symm.trans hzip.1)).symm

end Translation

/-! ### A short source and a long one -/

/-- Two lines joined, and a macro. -/
def shortSource : Text :=
  "a \\\n b\nX".toList

theorem shortSource_maps_back :
    preprocessCLikeWithLineMap noFiles shortSource [("X".toList, "1".toList)] =
        ("a  b\n1".toList, ⟨[1, 3]⟩) ∧
      MapsBack noFiles shortSource [("X".toList, "1".toList)] "a  b\n1".toList ⟨[1, 3]⟩ := by
  have hresult : preprocessCLikeWithLineMap noFiles shortSource [("X".toList, "1".toList)] =
      ("a  b\n1".toList, ⟨[1, 3]⟩) := by decide +kernel
  have hok : (exec (preprocessSource (cLikeConfig noFiles) shortSource)
      (cLikeStart [("X".toList, "1".toList)])).1 = .ok "a  b\n1".toList := by decide +kernel
  have hfits : Fits shortSource := by
    have hstarts : logicalStarts shortSource = [1, 3] := by decide +kernel
    intro i start hstart _
    have hmem := mem_of_getElem? (hstarts ▸ hstart)
    simp only [mem_cons, not_mem_nil, or_false] at hmem
    omega
  have hexec := Prod.eta (exec (preprocessSource (cLikeConfig noFiles) shortSource)
    (cLikeStart [("X".toList, "1".toList)]))
  rw [hok] at hexec
  have h := (line_map_iff noFiles shortSource [("X".toList, "1".toList)] (by decide +kernel)).2
    _ _ hexec.symm
  refine ⟨hresult, ?_⟩
  rw [hresult] at h
  exact h.2.mpr hfits

/-- A first logical line of so many continued lines and an empty one, and a second one. -/
def longSource (k : ℕ) : Text :=
  (List.replicate k ['\\', '\n']).flatten ++ ['\n', 'x']

theorem physicalLines_longSource (k : ℕ) : physicalLines (longSource k) =
    replicate k (['\\'], true) ++ [([], true), (['x'], false)] := by
  induction k with
  | zero => decide +kernel
  | succ k ih =>
    exact congrArg _ ih

theorem joinLines_replicate (k lineNo start : ℕ) (text : Text) (rest : List (Text × Bool)) :
    joinLines lineNo (some ⟨start, text, true⟩) (replicate k (['\\'], true) ++ rest) =
      joinLines (lineNo + k) (some ⟨start, text ++ replicate k ' ', true⟩) rest := by
  have hcontinues : continues ['\\'] := by decide +kernel
  have hsegment : segment ['\\'] = [] := by decide +kernel
  induction k generalizing lineNo text with
  | zero => simp
  | succ k ih =>
    rw [replicate_succ, cons_append, joinLines, if_pos hcontinues, hsegment, ih]
    simp [replicate_succ, add_assoc, add_comm 1 k]

theorem logicalLines_longSource (k : ℕ) : logicalLines (longSource (k + 1)) =
    [⟨1, replicate (k + 1) ' ', true⟩, ⟨k + 3, ['x'], false⟩] := by
  have hcontinues : continues ['\\'] := by decide +kernel
  have hsegment : segment ['\\'] = [] := by decide +kernel
  have hempty : continues [] = false := by decide +kernel
  have hlast : continues ['x'] = false := by decide +kernel
  rw [logicalLines, physicalLines_longSource, replicate_succ, cons_append, joinLines,
    if_pos hcontinues, hsegment, joinLines_replicate]
  simp [joinLines, hempty, hlast, replicate_succ]
  omega

theorem exec_longSource (files : Files) (k : ℕ) : ∃ output,
    exec (preprocessSource (cLikeConfig files) (longSource (k + 1))) (cLikeStart []) =
      (.ok output, { cLikeStart [] with lineMap := [1, k + 3] }) := by
  have hspaces : isDirective (replicate (k + 1) ' ') = false := by
    have htrim : trimStart (replicate (k + 1) ' ') = [] :=
      dropWhile_eq_nil_iff.mpr fun c hc ↦ by
        rw [eq_of_mem_replicate hc]
        decide
    rw [isDirective, htrim]
    rfl
  have htracks : (cLikeContext files).Tracks := ⟨rfl, rfl⟩
  have hline : ∀ (line : LogicalLine) (state : PreState), isDirective line.text = false →
      exec (processLine (cLikeContext files) line) state = (.ok (if isActive state then expandLine
            (tracked (cLikeConfig files) line.lineNo state).defines line.text else []),
          { state with lineMap := state.lineMap ++ [line.lineNo] }) := by
    intro line state htext
    rw [exec_processLine_of_text htext]
    rfl
  have hlines : ∃ output, exec (processLines (cLikeContext files)
      (logicalLines (longSource (k + 1)))) (cLikeStart []) =
        (.ok output, { cLikeStart [] with lineMap := [1, k + 3] }) := by
    rw [logicalLines_longSource, processLines, exec_bind, hline _ _ hspaces]
    exact ⟨_, rfl⟩
  obtain ⟨output, houtput⟩ := hlines
  refine ⟨output, ?_⟩
  show exec (do
    let output ← processLines (cLikeContext files) (logicalLines (longSource (k + 1)))
    closeFrames 0 (physicalLines (longSource (k + 1))).length
    return output) (cLikeStart []) = _
  rw [exec_bind, houtput]
  rfl

/-- The second logical line of a source of `2 ^ 32 + 1` lines is the last of them; its location is
reported as the first. -/
theorem long_source_wraps :
    logicalStarts (longSource 4294967295) = [1, 4294967297] ∧
      (preprocessCLikeWithLineMap noFiles (longSource 4294967295) []).2.toOriginal 2 = 1 := by
  obtain ⟨output, houtput⟩ := exec_longSource noFiles 4294967294
  constructor
  · rw [← map_lineNo_logicalLines, logicalLines_longSource 4294967294]
    rfl
  · rw [preprocessCLikeWithLineMap, houtput]
    rfl

end Bhf.IdlParser
