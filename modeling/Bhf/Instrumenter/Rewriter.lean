import Bhf.Lib.Ends
import Bhf.Lib.LineAnchors
import Bhf.Lib.Text

/-!
# The source rewriter

The instrumenter's rewriter takes a source text and a list of insertions and replacements, applies
them in the order of their offsets in one pass and returns the rewritten text with a line map. A
text is the list of its bytes; a part of one is taken with `strGet`, which refuses offsets inside a
character.

What the pass did is described by **pieces** of the text: parts copied from the source, inserted
texts, and replacements with what they replace. `Extends` says that a stretch of the pass amounts
to a list of pieces, for the text, for the place in the source and for the line cursors at once;
stretches compose (`Extends.trans`), a copy and an operation are one piece each, and so the whole
pass is a list of pieces that holds every operation once (`applyWithLineMap_pieces`).
-/

namespace Bhf.Instrumenter

open Bhf.LineAnchors List Except

inductive InstrumenterError where
  | overlappingRewrites (firstStart firstEnd secondStart secondEnd : UInt32)
  | astSourceMismatch (what : String)
  deriving DecidableEq

structure Insertion where
  byteOffset : UInt32
  text : Bytes

/-- The bytes that a replacement replaces. -/
structure ByteRange where
  start : UInt32
  stop : UInt32

namespace ByteRange

def span (range : ByteRange) : Span :=
  ⟨range.start.toNat, range.stop.toNat⟩

end ByteRange

inductive RewriteOp where
  | insert (insertion : Insertion)
  | replace (byteRange : ByteRange) (replacement : Bytes)

namespace RewriteOp

def startByte : RewriteOp → UInt32
  | .insert insertion => insertion.byteOffset
  | .replace byteRange _ => byteRange.start

def byteRange? : RewriteOp → Option ByteRange
  | .insert _ => none
  | .replace byteRange _ => some byteRange

theorem startByte_of_byteRange? {op : RewriteOp} {range : ByteRange}
    (h : op.byteRange? = some range) : op.startByte = range.start := by
  cases op with
  | insert _ => contradiction
  | replace _ _ => exact congrArg ByteRange.start (Option.some.inj h)

end RewriteOp

/-! ### The line map -/

structure LineMap where
  anchors : List Anchor
  deriving DecidableEq

namespace LineMap

def toOriginal (map : LineMap) (instrLine : UInt32) : UInt32 :=
  lookup map.anchors instrLine

end LineMap

def newline : UInt8 :=
  10

def countNewlines (text : Bytes) : UInt32 :=
  UInt32.ofNat (text.count newline)

/-- Record an anchor; one for the same line as the last anchor takes its place. -/
def pushAnchor (anchors : List Anchor) (instrLine srcLine : UInt32) : List Anchor :=
  match anchors.getLast? with
  | some last =>
    if last.1 = instrLine then
      anchors.dropLast ++ [(last.1, srcLine)]
    else
      anchors ++ [(instrLine, srcLine)]
  | none => anchors ++ [(instrLine, srcLine)]

/-- The line cursors of the pass, counted from 1, and the anchors recorded so far. -/
structure LineCursors where
  outLine : UInt32
  srcLine : UInt32
  anchors : List Anchor

namespace LineCursors

def start : LineCursors :=
  ⟨1, 1, []⟩

/-- Source is copied: both cursors advance. -/
def copy (lines : LineCursors) (slice : Bytes) : LineCursors :=
  { lines with
    outLine := saturatingAdd32 lines.outLine (countNewlines slice)
    srcLine := saturatingAdd32 lines.srcLine (countNewlines slice) }

/-- A text is inserted: its lines have no original. -/
def insert (lines : LineCursors) (text : Bytes) : LineCursors :=
  if 0 < countNewlines text then
    let outLine := saturatingAdd32 lines.outLine (countNewlines text)
    { lines with outLine, anchors := pushAnchor lines.anchors outLine lines.srcLine }
  else
    lines

/-- `replaced` lines of the source give way to `added` ones. -/
def replace (lines : LineCursors) (replaced added : UInt32) : LineCursors :=
  let outLine := saturatingAdd32 lines.outLine added
  let srcLine := saturatingAdd32 lines.srcLine replaced
  { outLine, srcLine
    anchors := if added ≠ replaced then pushAnchor lines.anchors outLine srcLine
      else lines.anchors }

end LineCursors

/-! ### The pass -/

def sourceSlice (source : Bytes) (start stop : ℕ) : Except InstrumenterError Bytes :=
  match strGet source start stop with
  | some slice => .ok slice
  | none => .error (.astSourceMismatch "source byte offsets")

/-- The variables of the pass. -/
structure RewriteState where
  out : Bytes
  cursor : ℕ
  lines : LineCursors

namespace RewriteState

/-- Copy the source up to where a group of operations starts. -/
def copyTo (source : Bytes) (groupStart : ℕ) (st : RewriteState) :
    Except InstrumenterError RewriteState :=
  if st.cursor < groupStart then
    match sourceSlice source st.cursor groupStart with
    | .ok slice =>
      .ok { out := st.out ++ slice, cursor := groupStart, lines := st.lines.copy slice }
    | .error e => .error e
  else
    .ok st

/-- One operation of a group. -/
def applyOp (source : Bytes) (st : RewriteState) : RewriteOp → RewriteState
  | .insert insertion =>
    { st with out := st.out ++ insertion.text, lines := st.lines.insert insertion.text }
  | .replace byteRange replacement =>
    let stop := byteRange.stop.toNat
    let replaced := match sourceSlice source (min st.cursor stop) stop with
      | .ok slice => countNewlines slice
      | .error _ => 0
    { out := st.out ++ replacement
      cursor := max st.cursor stop
      lines := st.lines.replace replaced (countNewlines replacement) }

/-- The inner loop goes on while the operations start where the group does; the outer one begins a
new group and copies the source up to it. -/
def enterGroup (source : Bytes) (group : Option ℕ) (start : ℕ) (st : RewriteState) :
    Except InstrumenterError RewriteState :=
  if group = some start then .ok st else st.copyTo source start

/-- The two loops over the sorted operations, the inner one with the start of its group. -/
def loop (source : Bytes) :
    Option ℕ → List RewriteOp → RewriteState → Except InstrumenterError RewriteState
  | _, [], st => .ok st
  | group, op :: ops, st => do
    let st ← st.enterGroup source group op.startByte.toNat
    loop source (some op.startByte.toNat) ops (st.applyOp source op)

def start : RewriteState :=
  ⟨[], 0, .start⟩

end RewriteState

/-- Replacements that follow each other do not overlap. -/
def checkReplacements : List ByteRange → Except InstrumenterError Unit
  | first :: second :: rest =>
    if second.start < first.stop then
      .error (.overlappingRewrites first.start first.stop second.start second.stop)
    else
      checkReplacements (second :: rest)
  | _ => .ok ()

/-- No insertion is inside a replacement. -/
def checkInsertion (replacements : List ByteRange) : RewriteOp → Except InstrumenterError Unit
  | .replace _ _ => .ok ()
  | .insert insertion => replacements.forM fun replacement ↦
    if replacement.start < insertion.byteOffset ∧ insertion.byteOffset < replacement.stop then
      .error (.overlappingRewrites replacement.start replacement.stop insertion.byteOffset
        insertion.byteOffset)
    else
      .ok ()

def validateRewrites (ops : List RewriteOp) : Except InstrumenterError Unit := do
  let replacements := ops.filterMap RewriteOp.byteRange?
  checkReplacements replacements
  ops.forM (checkInsertion replacements)

/-- The operations in the order of their offsets; those at one offset stay as they were added. -/
def sortOps (ops : List RewriteOp) : List RewriteOp :=
  ops.mergeSort fun a b ↦ a.startByte.toNat ≤ b.startByte.toNat

/-- Apply all operations to a source, with the map from the lines of the result to its lines. -/
def applyWithLineMap (source : Bytes) (ops : List RewriteOp) :
    Except InstrumenterError (Bytes × LineMap) := do
  let ops := sortOps ops
  validateRewrites ops
  let st ← RewriteState.loop source none ops .start
  if st.cursor < source.length then
    let rest ← sourceSlice source st.cursor source.length
    .ok (st.out ++ rest, ⟨st.lines.anchors⟩)
  else
    .ok (st.out, ⟨st.lines.anchors⟩)

/-! ### What the pass did -/

/-- A piece of the rewritten text: copied from the source, inserted, or put in the place of a part
of the source. -/
inductive Piece where
  | copied (bytes : Bytes)
  | inserted (insertion : Insertion)
  | replaced (byteRange : ByteRange) (replacement original : Bytes)

namespace Piece

/-- What stands in the result. -/
def rendered : Piece → Bytes
  | .copied bytes => bytes
  | .inserted insertion => insertion.text
  | .replaced _ replacement _ => replacement

/-- What stands in the source: inserted texts are deleted and replacements undone. -/
def original : Piece → Bytes
  | .copied bytes => bytes
  | .inserted _ => []
  | .replaced _ _ original => original

def op? : Piece → Option RewriteOp
  | .copied _ => none
  | .inserted insertion => some (.insert insertion)
  | .replaced byteRange replacement _ => some (.replace byteRange replacement)

/-- The line cursors behind a piece, if no replacement adds or drops a line. -/
def track (lines : LineCursors) : Piece → LineCursors
  | .copied bytes => lines.copy bytes
  | .inserted insertion => lines.insert insertion.text
  | .replaced _ _ _ => lines

end Piece

def rendered (pieces : List Piece) : Bytes :=
  pieces.flatMap Piece.rendered

def restored (pieces : List Piece) : Bytes :=
  pieces.flatMap Piece.original

@[simp] theorem rendered_nil : rendered [] = [] := rfl

@[simp] theorem restored_nil : restored [] = [] := rfl

@[simp] theorem rendered_cons (p : Piece) (ps : List Piece) :
    rendered (p :: ps) = p.rendered ++ rendered ps := rfl

@[simp] theorem restored_cons (p : Piece) (ps : List Piece) :
    restored (p :: ps) = p.original ++ restored ps := rfl

@[simp] theorem rendered_append (ps qs : List Piece) :
    rendered (ps ++ qs) = rendered ps ++ rendered qs :=
  flatMap_append

@[simp] theorem restored_append (ps qs : List Piece) :
    restored (ps ++ qs) = restored ps ++ restored qs :=
  flatMap_append

/-- The piece may stand at this offset of the source, as far as the source reaches. A replacement
replaces its range. An insertion is made at its offset, or behind a replacement of `ops` that starts
there. -/
def Piece.StandsAt (source : Bytes) (ops : List RewriteOp) (offset : ℕ) : Piece → Prop
  | .copied _ => True
  | .inserted insertion => offset = min insertion.byteOffset.toNat source.length ∨
      ∃ range replacement, .replace range replacement ∈ ops ∧
        range.start = insertion.byteOffset ∧ offset = min range.stop.toNat source.length
  | .replaced byteRange _ original => offset = min byteRange.start.toNat source.length ∧
      original = byteRange.span.slice source

/-- Each of the pieces stands at its place. They begin at the offset `start` of the source. -/
def Placed (source : Bytes) (ops : List RewriteOp) (start : ℕ) (pieces : List Piece) : Prop :=
  ∀ pre p post, pieces = pre ++ p :: post →
    p.StandsAt source ops (start + (restored pre).length)

section

variable {source : Bytes} {all : List RewriteOp} {start : ℕ}

theorem Placed.append {ps qs : List Piece} (hps : Placed source all start ps)
    (hqs : Placed source all (start + (restored ps).length) qs) :
    Placed source all start (ps ++ qs) := by
  intro pre p post h
  rcases append_eq_append_iff.mp h with ⟨front, rfl, hqs'⟩ | ⟨back, rfl, hback⟩
  · rw [restored_append, length_append, ← add_assoc]
    exact hqs front p post hqs'
  · rcases append_eq_cons_iff.mp hback.symm with ⟨rfl, rfl⟩ | ⟨back', rfl, _⟩
    · simpa using hqs [] p post rfl
    · exact hps pre p back' rfl

theorem placed_singleton {p : Piece} (h : p.StandsAt source all start) :
    Placed source all start [p] := by
  intro pre p' post heq
  obtain ⟨rfl, hp⟩ | ⟨-, hnil⟩ := singleton_eq_append_iff.mp heq
  · exact (cons.inj hp).1 ▸ h
  · simp at hnil

end

/-- A stretch of the pass that amounts to a list of pieces. -/
structure Extends (source : Bytes) (ops : List RewriteOp) (st : RewriteState)
    (pieces : List Piece) (st' : RewriteState) : Prop where
  /-- What was written. -/
  out : st'.out = st.out ++ rendered pieces
  /-- How much of the source is done. -/
  consumed : source.take st'.cursor = source.take st.cursor ++ restored pieces
  /-- What became of the line cursors. -/
  lines : st'.lines = pieces.foldl Piece.track st.lines
  /-- Where the pieces stand. -/
  placed : Placed source ops (source.take st.cursor).length pieces

namespace Extends

variable {source : Bytes} {all : List RewriteOp} {st st₁ st₂ : RewriteState}
  {ps qs : List Piece}

theorem refl (source : Bytes) (all : List RewriteOp) (st : RewriteState) :
    Extends source all st [] st where
  out := by simp
  consumed := by simp
  lines := rfl
  placed := by
    intro pre p post h
    simp at h

theorem trans (h₁ : Extends source all st ps st₁) (h₂ : Extends source all st₁ qs st₂) :
    Extends source all st (ps ++ qs) st₂ where
  out := by rw [h₂.out, h₁.out, rendered_append, append_assoc]
  consumed := by rw [h₂.consumed, h₁.consumed, restored_append, append_assoc]
  lines := by rw [h₂.lines, h₁.lines, foldl_append]
  placed := by
    refine h₁.placed.append ?_
    rw [← length_append, ← h₁.consumed]
    exact h₂.placed

end Extends

section

variable {source : Bytes} {all : List RewriteOp} {st st' : RewriteState}

theorem of_sourceSlice {slice : Bytes} {start stop : ℕ}
    (h : sourceSlice source start stop = .ok slice) :
    start ≤ stop ∧ stop ≤ source.length ∧ slice = Span.slice ⟨start, stop⟩ source := by
  rw [sourceSlice] at h
  split at h
  · next part hpart =>
    obtain ⟨⟩ := h
    rw [strGet] at hpart
    split at hpart
    · next hfits => exact ⟨hfits.1, hfits.2.1, (Option.some.inj hpart).symm⟩
    · contradiction
  · contradiction

/-- A copy is one copied piece, or none if there is nothing to copy. -/
theorem extends_copyTo {groupStart : ℕ} (h : st.copyTo source groupStart = .ok st') :
    ∃ ps, Extends source all st ps st' ∧ ps.filterMap Piece.op? = [] ∧
      st'.cursor = max st.cursor groupStart := by
  rw [RewriteState.copyTo] at h
  split at h
  · next hlt =>
    split at h
    · next slice hslice =>
      obtain ⟨⟩ := h
      obtain ⟨hle, -, rfl⟩ := of_sourceSlice hslice
      refine ⟨[.copied _], ⟨by simp [Piece.rendered], ?_, rfl, placed_singleton trivial⟩, rfl,
        (max_eq_right hle).symm⟩
      have htake := Span.take_append_slice st.cursor groupStart source
      rw [max_eq_right hle] at htake
      show source.take groupStart = _ ++ (_ ++ [])
      rw [append_nil]
      exact htake.symm
    · contradiction
  · obtain ⟨⟩ := h
    exact ⟨[], .refl source all st, rfl, (max_eq_left (by omega)).symm⟩

/-- No line is added or dropped by an operation: a replacement stays within one line. -/
def RewriteOp.SingleLine (source : Bytes) : RewriteOp → Prop
  | .insert _ => True
  | .replace byteRange replacement =>
    newline ∉ byteRange.span.slice source ∧ newline ∉ replacement

theorem countNewlines_of_not_mem {text : Bytes} (h : newline ∉ text) : countNewlines text = 0 := by
  rw [countNewlines, count_eq_zero.mpr h]
  rfl

theorem LineCursors.replace_zero (lines : LineCursors) : lines.replace 0 0 = lines := by
  simp [LineCursors.replace, saturatingAdd32_zero]

/-- The pass has come to the operation or, if that is an insertion, to the end of a replacement that
starts where it is made. -/
def RewriteOp.Reached (all : List RewriteOp) (cursor : ℕ) (op : RewriteOp) : Prop :=
  cursor = op.startByte.toNat ∨ op.byteRange? = none ∧
    ∃ range replacement, .replace range replacement ∈ all ∧ range.start = op.startByte ∧
      cursor = range.stop.toNat

theorem extends_insert {insertion : Insertion}
    (hreached : (RewriteOp.insert insertion).Reached all st.cursor) :
    Extends source all st [.inserted insertion] (st.applyOp source (.insert insertion)) where
  out := by simp [RewriteState.applyOp, Piece.rendered]
  consumed := by simp [RewriteState.applyOp, Piece.original]
  lines := rfl
  placed := by
    refine placed_singleton ?_
    rw [length_take]
    rcases hreached with hat | ⟨-, range, replacement, hmem, hstart, hstop⟩
    · exact .inl (hat ▸ rfl)
    · exact .inr ⟨range, replacement, hmem, hstart, hstop ▸ rfl⟩

theorem extends_replace {byteRange : ByteRange} {replacement : Bytes}
    (hsingle : (RewriteOp.replace byteRange replacement).SingleLine source)
    (hcursor : st.cursor = byteRange.start.toNat) :
    Extends source all st [.replaced byteRange replacement (byteRange.span.slice source)]
      (st.applyOp source (.replace byteRange replacement)) where
  out := by simp [RewriteState.applyOp, Piece.rendered]
  consumed := by
    show source.take (max st.cursor byteRange.stop.toNat) = _ ++ (_ ++ [])
    rw [append_nil, hcursor]
    exact (Span.take_append_slice _ _ _).symm
  lines := by
    have hreplaced : (match sourceSlice source (min st.cursor byteRange.stop.toNat)
        byteRange.stop.toNat with
        | .ok slice => countNewlines slice
        | .error _ => 0) = 0 := by
      split
      · next slice hslice =>
        obtain ⟨-, -, rfl⟩ := of_sourceSlice hslice
        refine countNewlines_of_not_mem fun hmem ↦ ?_
        rcases le_total byteRange.start.toNat byteRange.stop.toNat with hle | hle
        · rw [hcursor, min_eq_left hle] at hmem
          exact hsingle.1 hmem
        · rw [hcursor, min_eq_right hle] at hmem
          simp [Span.slice] at hmem
      · rfl
    show st.lines.replace _ (countNewlines replacement) = st.lines
    rw [hreplaced, countNewlines_of_not_mem hsingle.2, LineCursors.replace_zero]
  placed := by
    refine placed_singleton ⟨?_, rfl⟩
    rw [length_take, hcursor]

/-- The order in which the operations are applied: by offset, and each replacement before the next
operation, unless an insertion is made where it starts. -/
def RewriteOp.Before (a b : RewriteOp) : Prop :=
  a.startByte.toNat ≤ b.startByte.toNat ∧
    ∀ ra, a.byteRange? = some ra → ra.stop.toNat ≤ b.startByte.toNat ∨
      b.byteRange? = none ∧ ra.start = b.startByte

/-- The operation is not behind the pass. -/
def RewriteOp.Ahead (all : List RewriteOp) (cursor : ℕ) (op : RewriteOp) : Prop :=
  cursor ≤ op.startByte.toNat ∨ op.Reached all cursor

section

variable {op op' : RewriteOp} {cursor : ℕ}

/-- Where a group is entered, its first operation is reached. -/
theorem RewriteOp.Ahead.reached (h : op.Ahead all cursor) :
    op.Reached all (max cursor op.startByte.toNat) := by
  rcases h with hle | hat | ⟨hnone, range, replacement, hmem, hstart, rfl⟩
  · exact .inl (max_eq_right hle)
  · exact .inl (by rw [hat, max_self])
  · rcases le_total range.stop.toNat op.startByte.toNat with hle | hle
    · exact .inl (max_eq_right hle)
    · exact .inr ⟨hnone, range, replacement, hmem, hstart, max_eq_left hle⟩

/-- The operations behind an insertion stay ahead of the pass. -/
theorem RewriteOp.Ahead.of_le (h : op'.Ahead all cursor)
    (hle : op.startByte.toNat ≤ op'.startByte.toNat) :
    op'.Ahead all (max cursor op.startByte.toNat) := by
  rcases le_total op.startByte.toNat cursor with hstart | hstart
  · rwa [max_eq_left hstart]
  · exact .inl ((max_eq_right hstart).trans_le hle)

/-- So do those behind a replacement. -/
theorem RewriteOp.Before.ahead {range : ByteRange} {replacement : Bytes}
    (h : (RewriteOp.replace range replacement).Before op')
    (hmem : .replace range replacement ∈ all) :
    op'.Ahead all (max range.start.toNat range.stop.toNat) := by
  obtain ⟨hstart, hstop⟩ := h
  rcases hstop range rfl with hle | ⟨hnone, heq⟩
  · exact .inl (Nat.max_le.mpr ⟨hstart, hle⟩)
  · rcases le_total range.stop.toNat range.start.toNat with hle | hle
    · exact .inl ((max_eq_left hle).trans_le hstart)
    · exact .inr (.inr ⟨hnone, range, replacement, hmem, heq, max_eq_right hle⟩)

end

/-- **Every operation of the loop is one piece**, between copied ones. -/
theorem extends_loop : ∀ {ops : List RewriteOp} {group : Option ℕ} {st : RewriteState},
    ops.Pairwise RewriteOp.Before → (∀ op ∈ ops, op ∈ all ∧ op.SingleLine source) →
    (∀ start, group = some start → start ≤ st.cursor) →
    (∀ op ∈ ops, op.Ahead all st.cursor) →
    RewriteState.loop source group ops st = .ok st' →
    ∃ ps, Extends source all st ps st' ∧ ps.filterMap Piece.op? = ops
  | [], _, st, _, _, _, _, h => by
    obtain rfl := ok.inj h
    exact ⟨[], .refl source all st, rfl⟩
  | op :: ops, group, st, hops, hsingle, hgroup, hahead, h => by
    obtain ⟨hop, hops⟩ := pairwise_cons.mp hops
    obtain ⟨⟨hmem, hsingleOp⟩, hsingle⟩ := forall_mem_cons.mp hsingle
    obtain ⟨haheadOp, haheadOps⟩ := forall_mem_cons.mp hahead
    rw [RewriteState.loop] at h
    obtain ⟨st₁, hcopy, hrest⟩ := ok_of_bind h
    -- Within a group the source is copied up to its start already.
    obtain ⟨copies, hcopies, hnone, hcursor⟩ : ∃ ps, Extends source all st ps st₁ ∧
        ps.filterMap Piece.op? = [] ∧ st₁.cursor = max st.cursor op.startByte.toNat := by
      rw [RewriteState.enterGroup] at hcopy
      split at hcopy
      · next hsame =>
        obtain ⟨⟩ := hcopy
        exact ⟨[], .refl source all st, rfl, (Nat.max_eq_left (hgroup _ hsame)).symm⟩
      · exact extends_copyTo hcopy
    have hreached := hcursor ▸ haheadOp.reached
    obtain ⟨piece, hpiece, hpieceOp, hstop⟩ : ∃ p,
        Extends source all st₁ [p] (st₁.applyOp source op) ∧ p.op? = some op ∧
        st₁.cursor ≤ (st₁.applyOp source op).cursor ∧
        ∀ op' ∈ ops, op'.Ahead all (st₁.applyOp source op).cursor := by
      cases op with
      | insert insertion =>
        refine ⟨_, extends_insert hreached, rfl, le_refl _, fun op' hop' ↦ ?_⟩
        show op'.Ahead all st₁.cursor
        rw [hcursor]
        exact (haheadOps op' hop').of_le (hop op' hop').1
      | replace byteRange replacement =>
        have hat : st₁.cursor = byteRange.start.toNat := hreached.resolve_right (by simp [
          RewriteOp.byteRange?])
        refine ⟨_, extends_replace hsingleOp hat, rfl, le_max_left _ _, fun op' hop' ↦ ?_⟩
        show op'.Ahead all (max st₁.cursor byteRange.stop.toNat)
        rw [hat]
        exact (hop op' hop').ahead hmem
    obtain ⟨ps, hps, hpsOps⟩ := extends_loop hops hsingle (fun start hsame ↦ by
        obtain ⟨⟩ := hsame
        exact le_trans (hcursor ▸ le_max_right _ _) hstop.1)
      hstop.2 hrest
    refine ⟨copies ++ ([piece] ++ ps), hcopies.trans (hpiece.trans hps), ?_⟩
    rw [filterMap_append, hnone, filterMap_append, hpsOps]
    simp [hpieceOp]

/-! ### The order that validation leaves -/

/-- Ranges in the order of their starts that pass the check of each with the next follow each
other: the check of neighbours is a check of all. -/
theorem pairwise_of_checkReplacements : ∀ {ranges : List ByteRange},
    ranges.Pairwise (fun a b ↦ a.start.toNat ≤ b.start.toNat) →
    checkReplacements ranges = .ok () →
    ranges.Pairwise fun a b ↦ a.stop.toNat ≤ b.start.toNat
  | [], _, _ => .nil
  | [range], _, _ => List.pairwise_singleton _ _
  | first :: second :: rest, hsorted, h => by
    rw [checkReplacements] at h
    split at h
    · contradiction
    next hnext =>
    obtain ⟨-, hsorted⟩ := pairwise_cons.mp hsorted
    have hle : first.stop.toNat ≤ second.start.toNat :=
      UInt32.le_iff_toNat_le.mp (UInt32.not_lt.mp hnext)
    refine pairwise_cons.mpr ⟨?_, pairwise_of_checkReplacements hsorted h⟩
    intro range hrange
    rcases mem_cons.mp hrange with rfl | hrange
    · exact hle
    · exact le_trans hle ((pairwise_cons.mp hsorted).1 range hrange)

/-- The sorted operations are in order once they are validated. -/
theorem pairwise_before_of_validate {ops : List RewriteOp}
    (h : validateRewrites (sortOps ops) = .ok ()) : (sortOps ops).Pairwise RewriteOp.Before := by
  have hsorted : (sortOps ops).Pairwise fun a b ↦ a.startByte.toNat ≤ b.startByte.toNat := by
    refine (pairwise_mergeSort ?_ ?_ ops).imp fun hle ↦ by simpa using hle
    · intro a b c hab hbc
      simp only [decide_eq_true_eq] at hab hbc ⊢
      exact le_trans hab hbc
    · intro a b
      simpa using le_total _ _
  obtain ⟨_, hcheck, hinsertions⟩ := ok_of_bind h
  have hranges : ((sortOps ops).filterMap RewriteOp.byteRange?).Pairwise fun a b ↦
      a.start.toNat ≤ b.start.toNat := by
    refine pairwise_filterMap.mpr (hsorted.imp fun hle ra hra rb hrb ↦ ?_)
    rwa [RewriteOp.startByte_of_byteRange? hra, RewriteOp.startByte_of_byteRange? hrb] at hle
  have hapart := pairwise_filterMap.mp (pairwise_of_checkReplacements hranges hcheck)
  refine ((hsorted.and hapart).imp_of_mem fun {a b} ha hb hab ↦ ⟨hab.1, fun ra hra ↦ ?_⟩)
  cases b with
  | replace rb replacement => exact .inl (hab.2 ra hra rb rfl)
  | insert insertion =>
    have hstart := hab.1
    rw [RewriteOp.startByte_of_byteRange? hra] at hstart
    have hoffset := of_forM_eq_ok (of_forM_eq_ok hinsertions _ hb) ra
      (mem_filterMap.mpr ⟨a, ha, hra⟩)
    split at hoffset
    · contradiction
    next hinside =>
    rcases Nat.eq_or_lt_of_le hstart with heq | hlt
    · exact .inr ⟨rfl, UInt32.toNat_inj.mp heq⟩
    · exact .inl (UInt32.le_iff_toNat_le.mp (UInt32.not_lt.mp fun hstop ↦ hinside ⟨hlt, hstop⟩))

/-- The pieces that turn a source into a result. -/
structure Accounts (source : Bytes) (ops : List RewriteOp) (out : Bytes)
    (pieces : List Piece) : Prop where
  /-- Rendered they are the result. -/
  rendered_eq : rendered pieces = out
  /-- Undone they are the source. -/
  restored_eq : restored pieces = source
  /-- They hold the operations that were asked for. -/
  ops_perm : (pieces.filterMap Piece.op?).Perm ops
  /-- Each stands at its place. -/
  placed : Placed source ops 0 pieces

/-- **The whole pass is a list of pieces.** -/
theorem applyWithLineMap_pieces {ops : List RewriteOp} {out : Bytes} {map : LineMap}
    (hsingle : ∀ op ∈ ops, op.SingleLine source)
    (h : applyWithLineMap source ops = .ok (out, map)) :
    ∃ pieces, Accounts source ops out pieces ∧
      map.anchors = (pieces.foldl Piece.track .start).anchors := by
  obtain ⟨⟨⟩, hvalid, h⟩ := ok_of_bind h
  obtain ⟨st, hloop, h⟩ := ok_of_bind h
  have hperm : (sortOps ops).Perm ops := mergeSort_perm _ _
  obtain ⟨ps, hps, hops⟩ := extends_loop (pairwise_before_of_validate hvalid)
    (fun op hop ↦ ⟨hperm.mem_iff.mp hop, hsingle op (hperm.mem_iff.mp hop)⟩) (by simp)
    (fun _ _ ↦ .inl (Nat.zero_le _)) hloop
  have hout : st.out = rendered ps := hps.out
  have hconsumed : source.take st.cursor = restored ps := hps.consumed
  have hlines : st.lines = ps.foldl Piece.track .start := hps.lines
  have hplaced : Placed source ops 0 ps := hps.placed
  split at h
  · next hlt =>
    -- What is left of the source is copied at the end.
    obtain ⟨rest, hrest, h⟩ := ok_of_bind h
    obtain ⟨⟩ := h
    obtain ⟨-, -, rfl⟩ := of_sourceSlice hrest
    refine ⟨ps ++ [.copied (Span.slice ⟨st.cursor, source.length⟩ source)], ⟨?_, ?_, ?_, ?_⟩, ?_⟩
    · rw [rendered_append, ← hout]
      exact congrArg (st.out ++ ·) (append_nil _)
    · have htake := Span.take_append_slice st.cursor source.length source
      rw [Nat.max_eq_right (le_of_lt hlt), take_length] at htake
      rw [restored_append, ← hconsumed]
      exact (congrArg (source.take st.cursor ++ ·) (append_nil _)).trans htake
    · rw [filterMap_append, hops]
      exact (append_nil _).symm ▸ hperm
    · exact hplaced.append (placed_singleton trivial)
    · rw [foldl_append, ← hlines]
      rfl
  · next hge =>
    obtain ⟨⟩ := h
    refine ⟨ps, ⟨hout.symm, ?_, hops ▸ hperm, hplaced⟩, congrArg LineCursors.anchors hlines⟩
    rw [← hconsumed, take_of_length_le (by omega)]

end

end Bhf.Instrumenter
