import Bhf.Corpus.LineRemap
import Bhf.Instrumenter.Rewriter

/-!
# Reported lines are the developer's lines

The rewriter counts the lines of the source and of the result as it goes and records an anchor where
they part; a report about a line of the result is turned into a line of the source with these
anchors. `Synced` is what holds of the cursors and anchors at every point of the pass: the cursors
are the lines, and **from here on the anchors resolve a line of the result to the line of the source
as far away** (`Synced.resync`). A piece keeps it (`Synced.track`) and leaves alone what earlier
lines resolve to, and so do all pieces (`Synced.run`).
-/

namespace Bhf.Instrumenter

open Bhf.LineAnchors List

/-- The number of lines of a text. -/
def numLines (text : Bytes) : ℕ :=
  1 + text.count newline

/-- The line, counted from 1, of the byte at an offset. -/
def lineOf (text : Bytes) (offset : ℕ) : ℕ :=
  numLines (text.take offset)

theorem numLines_append (a b : Bytes) : numLines (a ++ b) = numLines a + b.count newline := by
  rw [numLines, numLines, count_append, add_assoc]

theorem lineOf_append (a b : Bytes) {c : Bytes} (j : ℕ) :
    lineOf (a ++ (b ++ c)) (a.length + j) = numLines a + ((b ++ c).take j).count newline := by
  rw [lineOf, take_length_add_append, numLines_append]

/-! ### The cursors and anchors of the pass -/

theorem toNat_countNewlines {text : Bytes} (h : text.count newline < 2 ^ 32) :
    (countNewlines text).toNat = text.count newline :=
  UInt32.toNat_ofNat_of_lt' h

/-- A cursor that counts lines advances by the lines of a text. -/
theorem toNat_advance {line : UInt32} {before text : Bytes}
    (hline : line.toNat = numLines before) (hword : numLines (before ++ text) < 2 ^ 32) :
    (saturatingAdd32 line (countNewlines text)).toNat = numLines (before ++ text) := by
  rw [numLines_append] at hword ⊢
  rw [toNat_saturatingAdd32, toNat_countNewlines (by omega), hline]
  omega

/-- An anchor for a later line than all others is added behind them. -/
theorem pushAnchor_of_lt {anchors : List Anchor} {instrLine : UInt32} (srcLine : UInt32)
    (h : ∀ a ∈ anchors, a.1.toNat < instrLine.toNat) :
    pushAnchor anchors instrLine srcLine = anchors ++ [(instrLine, srcLine)] := by
  rw [pushAnchor]
  split
  · next last hlast =>
    have hlt := h last (mem_of_getLast? hlast)
    exact if_neg fun heq ↦ lt_irrefl _ (heq ▸ hlt)
  · rfl

/-- The state of the line cursors when `src` of the source has become `out`. -/
structure Synced (lines : LineCursors) (out src : Bytes) : Prop where
  /-- The line of the result. -/
  outLine : lines.outLine.toNat = numLines out
  /-- The line of the source. -/
  srcLine : lines.srcLine.toNat = numLines src
  /-- Lines are only added. -/
  src_le : numLines src ≤ numLines out
  /-- The anchors are in order. -/
  sorted : Sorted lines.anchors
  /-- No anchor is ahead. -/
  past : ∀ a ∈ lines.anchors, a.1.toNat ≤ numLines out
  /-- From here on the anchors translate line by line. -/
  resync : ∀ d, resolve lines.anchors (numLines out + d) = numLines src + d

theorem synced_start : Synced .start [] [] where
  outLine := rfl
  srcLine := rfl
  src_le := le_refl _
  sorted := .nil
  past := by simp [LineCursors.start]
  resync _ := rfl

/-- A replacement of the piece is within one line. -/
def Piece.SingleLine : Piece → Prop
  | .replaced _ replacement original => newline ∉ replacement ∧ newline ∉ original
  | _ => True

namespace Synced

variable {lines : LineCursors} {out src : Bytes}

theorem copy (h : Synced lines out src) {bytes : Bytes}
    (hword : numLines (out ++ bytes) < 2 ^ 32) :
    Synced (lines.copy bytes) (out ++ bytes) (src ++ bytes) := by
  have hle : numLines (src ++ bytes) ≤ numLines (out ++ bytes) := by
    rw [numLines_append, numLines_append]
    exact Nat.add_le_add_right h.src_le _
  refine ⟨toNat_advance h.outLine hword, toNat_advance h.srcLine (lt_of_le_of_lt hle hword),
    hle, h.sorted, fun a ha ↦ ?_, fun d ↦ ?_⟩
  · rw [numLines_append]
    exact le_trans (h.past a ha) (Nat.le_add_right _ _)
  · rw [numLines_append, numLines_append, add_assoc, add_assoc]
    exact h.resync _

/-- **Behind an insertion the anchors are in step again**: it records one if it has lines. -/
theorem insert (h : Synced lines out src) {text : Bytes}
    (hword : numLines (out ++ text) < 2 ^ 32) :
    Synced (lines.insert text) (out ++ text) src ∧
      ∀ k ≤ numLines out, resolve (lines.insert text).anchors k = resolve lines.anchors k := by
  have hcount : numLines (out ++ text) = numLines out + text.count newline := numLines_append _ _
  have htoNat : (countNewlines text).toNat = text.count newline :=
    toNat_countNewlines (by omega)
  rw [LineCursors.insert]
  by_cases hlines : 0 < text.count newline
  · rw [if_pos (UInt32.lt_iff_toNat_lt.mpr (by rwa [htoNat]))]
    have hline := toNat_advance h.outLine hword
    have hlater : ∀ a ∈ lines.anchors,
        a.1.toNat < (saturatingAdd32 lines.outLine (countNewlines text)).toNat := by
      intro a ha
      have := h.past a ha
      omega
    simp only [pushAnchor_of_lt lines.srcLine hlater]
    refine ⟨⟨hline, h.srcLine, by have := h.src_le; omega, h.sorted.concat hlater, ?_, ?_⟩, ?_⟩
    · exact forall_mem_append.mpr ⟨fun a ha ↦ le_of_lt (hline ▸ hlater a ha),
        forall_mem_singleton.mpr (le_of_eq hline)⟩
    · intro d
      rw [← hline, resolve_concat_of_le (Nat.le_add_right _ d), h.srcLine, Nat.add_sub_cancel_left]
    · intro k hk
      refine resolve_concat_of_lt (lt_of_le_of_lt hk ?_)
      rw [hline]
      omega
  · have hnone : ¬ 0 < countNewlines text := fun hpos ↦ by
      have := UInt32.lt_iff_toNat_lt.mp hpos
      exact hlines (htoNat ▸ this)
    rw [if_neg hnone]
    have hsame : numLines (out ++ text) = numLines out := by omega
    refine ⟨⟨?_, h.srcLine, ?_, h.sorted, ?_, ?_⟩, fun _ _ ↦ rfl⟩
    · rw [hsame]
      exact h.outLine
    · rw [hsame]
      exact h.src_le
    · rw [hsame]
      exact h.past
    · rw [hsame]
      exact h.resync

/-- Texts without a line end change no line. -/
theorem replace (h : Synced lines out src) {replacement original : Bytes}
    (hreplacement : newline ∉ replacement) (horiginal : newline ∉ original) :
    Synced lines (out ++ replacement) (src ++ original) := by
  have hout : numLines (out ++ replacement) = numLines out := by
    rw [numLines_append, count_eq_zero.mpr hreplacement, add_zero]
  have hsrc : numLines (src ++ original) = numLines src := by
    rw [numLines_append, count_eq_zero.mpr horiginal, add_zero]
  exact ⟨hout ▸ h.outLine, hsrc ▸ h.srcLine, hout ▸ hsrc ▸ h.src_le, h.sorted, hout ▸ h.past,
    hout ▸ hsrc ▸ h.resync⟩

/-- **One piece.** It keeps the cursors in step, and what earlier lines resolve to. -/
theorem track (h : Synced lines out src) {p : Piece} (hsingle : p.SingleLine)
    (hword : numLines (out ++ p.rendered) < 2 ^ 32) :
    Synced (p.track lines) (out ++ p.rendered) (src ++ p.original) ∧
      ∀ k ≤ numLines out, resolve (p.track lines).anchors k = resolve lines.anchors k := by
  cases p with
  | copied bytes => exact ⟨h.copy hword, fun _ _ ↦ rfl⟩
  | inserted insertion =>
    have hinsert := h.insert hword
    rwa [← append_nil src] at hinsert
  | replaced byteRange replacement original =>
    exact ⟨h.replace hsingle.1 hsingle.2, fun _ _ ↦ rfl⟩

/-- **All pieces**, by induction from one. -/
theorem run : ∀ {pieces : List Piece} {lines : LineCursors} {out src : Bytes},
    Synced lines out src → (∀ p ∈ pieces, p.SingleLine) →
    numLines (out ++ rendered pieces) < 2 ^ 32 →
    Synced (pieces.foldl Piece.track lines) (out ++ rendered pieces) (src ++ restored pieces) ∧
      ∀ k ≤ numLines out,
        resolve (pieces.foldl Piece.track lines).anchors k = resolve lines.anchors k
  | [], lines, out, src, h, _, _ => by simpa using h
  | p :: ps, lines, out, src, h, hsingle, hword => by
    obtain ⟨hp, hps⟩ := forall_mem_cons.mp hsingle
    rw [rendered_cons, ← append_assoc] at hword ⊢
    rw [restored_cons, ← append_assoc]
    have hpWord : numLines (out ++ p.rendered) < 2 ^ 32 := by
      rw [numLines_append] at hword
      omega
    obtain ⟨hnext, hkeep⟩ := h.track hp hpWord
    obtain ⟨hlast, hkeep'⟩ := run hnext hps hword
    refine ⟨hlast, fun k hk ↦ ?_⟩
    have hle : numLines out ≤ numLines (out ++ p.rendered) := by
      rw [numLines_append]
      exact Nat.le_add_right _ _
    rw [foldl_cons, hkeep' k (le_trans hk hle), hkeep k hk]

/-- **A copied byte's line resolves to its line in the source**, with the anchors of the whole
pass. -/
theorem resolve_copied {pre post : List Piece} {bytes : Bytes}
    (hsingle : ∀ p ∈ pre ++ .copied bytes :: post, p.SingleLine)
    (hword : numLines (rendered (pre ++ .copied bytes :: post)) < 2 ^ 32) (j : ℕ) :
    resolve ((pre ++ .copied bytes :: post).foldl Piece.track .start).anchors
        (numLines (rendered pre) + (bytes.take j).count newline) =
      numLines (restored pre) + (bytes.take j).count newline := by
  obtain ⟨hpre, hrest⟩ := forall_mem_append.mp hsingle
  have hwordPre : numLines (rendered pre) < 2 ^ 32 := by
    rw [rendered_append, numLines_append] at hword
    omega
  obtain ⟨hsynced, -⟩ := run synced_start hpre hwordPre
  -- The copy itself records nothing, and the pieces behind it concern later lines.
  rw [rendered_append, rendered_cons, ← append_assoc] at hword
  have hwordCopy : numLines (rendered pre ++ bytes) < 2 ^ 32 := by
    rw [numLines_append] at hword
    exact lt_of_le_of_lt (Nat.le_add_right _ _) hword
  obtain ⟨-, hkeep⟩ := run (hsynced.copy hwordCopy) (forall_mem_cons.mp hrest).2 hword
  rw [foldl_append, foldl_cons]
  refine (hkeep _ ?_).trans (hsynced.resync _)
  rw [nil_append, numLines_append]
  exact Nat.add_le_add_left (List.Sublist.count_le _ (take_sublist _ _)) _

end Synced

/-! ### The lines of reports -/

section

variable {source out : Bytes} {ops : List RewriteOp} {map : LineMap} {pieces : List Piece}

/-- The replacements of the pieces are within one line when the operations are. -/
theorem Accounts.singleLine (h : Accounts source ops out pieces)
    (hsingle : ∀ op ∈ ops, op.SingleLine source) : ∀ p ∈ pieces, p.SingleLine := by
  intro p hp
  cases p with
  | copied _ | inserted _ => exact trivial
  | replaced byteRange replacement original =>
    obtain ⟨pre, post, hpieces⟩ := append_of_mem hp
    obtain ⟨-, rfl⟩ := h.placed pre _ post hpieces
    have hop : RewriteOp.replace byteRange replacement ∈ ops :=
      h.ops_perm.mem_iff.mp (mem_filterMap.mpr ⟨_, hp, rfl⟩)
    exact (hsingle _ hop).symm

/-- The line of a byte of a copied piece, in the source and in the result. -/
theorem lineOf_copied (pre post : List Piece) {bytes : Bytes} {j : ℕ} (hj : j < bytes.length) :
    lineOf (restored (pre ++ .copied bytes :: post)) ((restored pre).length + j) =
        numLines (restored pre) + (bytes.take j).count newline ∧
      lineOf (rendered (pre ++ .copied bytes :: post)) ((rendered pre).length + j) =
        numLines (rendered pre) + (bytes.take j).count newline := by
  have htake : ∀ rest : Bytes, (bytes ++ rest).take j = bytes.take j :=
    fun rest ↦ take_append_of_le_length (le_of_lt hj)
  rw [restored_append, restored_cons, rendered_append, rendered_cons]
  refine ⟨(lineOf_append _ _ _).trans ?_, (lineOf_append _ _ _).trans ?_⟩
  all_goals exact congrArg (fun text ↦ numLines _ + text.count newline) (htake _)

/-- **Reported lines are the developer's lines.** What the rewriter returns is made of pieces that
render to the result and, with the insertions deleted and the replacements undone, to the source;
and a byte that was copied from line `i` of the source to line `k` of the result is reported at `i`,
by the line map and by the maps loaded from a directory with its sidecar. -/
theorem reported_line_eq_original (hsingle : ∀ op ∈ ops, op.SingleLine source)
    (happly : applyWithLineMap source ops = .ok (out, map)) (hlines : numLines out < 2 ^ 32)
    {dir : List Corpus.DirEntry} {basename sourcePath : String}
    (hdir : Corpus.SourceLineMaps.Holds dir basename ⟨sourcePath, map.anchors⟩) :
    ∃ pieces, Accounts source ops out pieces ∧
      ∀ pre bytes post, pieces = pre ++ .copied bytes :: post → ∀ j < bytes.length,
        ∀ i k : UInt32, i.toNat = lineOf source ((restored pre).length + j) →
          k.toNat = lineOf out ((rendered pre).length + j) →
          map.toOriginal k = i ∧
            (Corpus.SourceLineMaps.load dir).originalLine basename k = some i := by
  obtain ⟨pieces, haccounts, hanchors⟩ := applyWithLineMap_pieces hsingle happly
  have hword : numLines ([] ++ rendered pieces) < 2 ^ 32 := by
    rwa [nil_append, haccounts.rendered_eq]
  have hsorted : Sorted map.anchors :=
    hanchors ▸ (synced_start.run (haccounts.singleLine hsingle) hword).1.sorted
  refine ⟨pieces, haccounts, ?_⟩
  rintro pre bytes post rfl j hj i k hi hk
  obtain ⟨hsource, hout⟩ := lineOf_copied pre post hj
  rw [haccounts.restored_eq, ← hi] at hsource
  rw [haccounts.rendered_eq, ← hk] at hout
  have hresolve := Synced.resolve_copied (haccounts.singleLine hsingle)
    (haccounts.rendered_eq ▸ hlines) j
  rw [← hanchors, ← hsource, ← hout] at hresolve
  have hline : lookup map.anchors k = i := by
    refine UInt32.toNat_inj.mp ?_
    rw [toNat_lookup hsorted (hresolve ▸ i.toNat_lt), hresolve]
  refine ⟨hline, ?_⟩
  rw [Corpus.SourceLineMaps.originalLine, Corpus.SourceLineMaps.get_load hdir]
  show some (lookup (sortByLine map.anchors) k) = some i
  rw [hsorted.sortByLine_eq, hline]

/-- The lines `ab` and `cd`. -/
def twoLines : Bytes := [97, 98, 10, 99, 100]

/-- An insertion in the middle of a line that adds a line, and a replacement behind it. -/
def twoOps : List RewriteOp := [.replace ⟨3, 4⟩ [90], .insert ⟨1, [120, 10, 121]⟩]

/-- The lines `ax`, `yb` and `Zd`. -/
def threeLines : Bytes := [97, 120, 10, 121, 98, 10, 90, 100]

theorem reported_line_eq_original_two_ops :
    applyWithLineMap twoLines twoOps = .ok (threeLines, ⟨[(2, 1)]⟩) ∧
    ∃ pieces, Accounts twoLines twoOps threeLines pieces ∧
      ∀ pre bytes post, pieces = pre ++ .copied bytes :: post → ∀ j < bytes.length,
        ∀ i k : UInt32, i.toNat = lineOf twoLines ((restored pre).length + j) →
          k.toNat = lineOf threeLines ((rendered pre).length + j) →
          LineMap.toOriginal ⟨[(2, 1)]⟩ k = i ∧
            (Corpus.SourceLineMaps.load [Corpus.SourceLineMaps.sidecarEntry "unit.adb"
              ⟨"/src/unit.adb", [(2, 1)]⟩]).originalLine "unit.adb" k = some i := by
  have happly : applyWithLineMap twoLines twoOps = .ok (threeLines, ⟨[(2, 1)]⟩) := by
    have hsort : sortOps twoOps = [.insert ⟨1, [120, 10, 121]⟩, .replace ⟨3, 4⟩ [90]] := by
      simp [twoOps, sortOps, mergeSort, List.MergeSort.Internal.splitInTwo, RewriteOp.startByte]
    rw [applyWithLineMap, hsort]
    decide +kernel
  have hsingle : ∀ op ∈ twoOps, op.SingleLine twoLines := by
    intro op hop
    simp only [twoOps, mem_cons, not_mem_nil, or_false] at hop
    rcases hop with rfl | rfl
    · exact ⟨by decide, by decide⟩
    · exact trivial
  have hdir : Corpus.SourceLineMaps.Holds [Corpus.SourceLineMaps.sidecarEntry "unit.adb"
      ⟨"/src/unit.adb", [(2, 1)]⟩] "unit.adb" ⟨"/src/unit.adb", [(2, 1)]⟩ :=
    ⟨mem_singleton_self _, fun entry hentry _ _ _ ↦ mem_singleton.mp hentry⟩
  exact ⟨happly, reported_line_eq_original hsingle happly (by decide) hdir⟩

end

end Bhf.Instrumenter
