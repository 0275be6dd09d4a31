import Mathlib.Data.List.Basic

/-!
# Spans of a buffer and patches that fill them

A `Span` is a half-open range of positions. `slice` reads it, `overwrite` replaces it by data of the
same length, and everything else here is pointwise: `getElem?_slice` and `getElem?_overwrite` say
what stands at a position, and the laws about lengths and disjoint spans are read off them.

A `Patch` recomputes one span from the whole buffer. **When does running a list of patches leave
every patch satisfied?** The buffer is rewritten while the patches run, so a patch may have been
computed from bytes that a later one replaced. With disjoint outputs that is the only way to fail:
`settled_run_iff` says that a patch is satisfied in the end exactly when it computes the same data
from the finished buffer as it did at its turn. A patch that *ignores* the outputs of itself and of
its successors always does (`settled_of_mem_run`), and running satisfied patches changes nothing
(`run_eq_self_of_settled`).
-/

namespace Bhf

open List

/-- A string of bytes. -/
abbrev Bytes := List UInt8

/-- The positions `start ≤ i < stop` of a buffer. -/
structure Span where
  start : ℕ
  stop : ℕ
  deriving DecidableEq

namespace Span

variable {α : Type}

/-- The number of positions of a span. -/
def len (s : Span) : ℕ :=
  s.stop - s.start

/-- A span of a buffer of `n` elements. -/
structure FitsIn (s : Span) (n : ℕ) : Prop where
  /-- It does not end before it starts. -/
  start_le : s.start ≤ s.stop
  /-- It ends in the buffer. -/
  stop_le : s.stop ≤ n

instance (s : Span) (n : ℕ) : Decidable (s.FitsIn n) :=
  decidable_of_iff (s.start ≤ s.stop ∧ s.stop ≤ n) ⟨fun h ↦ ⟨h.1, h.2⟩, fun h ↦ ⟨h.1, h.2⟩⟩

/-- No position belongs to both spans. -/
def Disjoint (s t : Span) : Prop :=
  s.stop ≤ t.start ∨ t.stop ≤ s.start

variable {s t : Span} {buf data : List α} {i : ℕ}

theorem Disjoint.symm (h : s.Disjoint t) : t.Disjoint s :=
  Or.symm h

/-- A span inside another one. -/
structure Within (s t : Span) : Prop where
  /-- It does not start before. -/
  start_le : t.start ≤ s.start
  /-- It does not end behind. -/
  stop_le : s.stop ≤ t.stop

theorem Within.refl (s : Span) : s.Within s :=
  ⟨Nat.le_refl _, Nat.le_refl _⟩

theorem Disjoint.within {s' t' : Span} (h : s.Disjoint t) (hs : s'.Within s) (ht : t'.Within t) :
    s'.Disjoint t' := by
  obtain ⟨_, _⟩ := hs
  obtain ⟨_, _⟩ := ht
  rcases h with h | h
  · exact .inl (by omega)
  · exact .inr (by omega)

/-! ### Reading and replacing a span -/

/-- The elements of a span. -/
def slice (s : Span) (buf : List α) : List α :=
  (buf.take s.stop).drop s.start

/-- Replace the elements of a span. -/
def overwrite (s : Span) (buf data : List α) : List α :=
  buf.take s.start ++ data ++ buf.drop s.stop

theorem length_slice (hs : s.FitsIn buf.length) : (s.slice buf).length = s.len := by
  have := hs.stop_le
  simp only [slice, len, length_drop, length_take]
  omega

/-- Data of any length may replace a span. -/
theorem length_overwrite_add (hs : s.FitsIn buf.length) :
    (s.overwrite buf data).length + s.len = buf.length + data.length := by
  obtain ⟨hstart, hstop⟩ := hs
  simp only [overwrite, len, length_append, length_take, length_drop]
  omega

theorem length_overwrite (hs : s.FitsIn buf.length) (hd : data.length = s.len) :
    (s.overwrite buf data).length = buf.length := by
  have hlen : _ + _ = buf.length + data.length := length_overwrite_add hs
  omega

theorem getElem?_slice (s : Span) (buf : List α) (i : ℕ) :
    (s.slice buf)[i]? = if s.start + i < s.stop then buf[s.start + i]? else none := by
  rw [slice, getElem?_drop, getElem?_take]

section

variable (hs : s.FitsIn buf.length) (hd : data.length = s.len)

include hs hd

theorem getElem?_overwrite_of_outside (hi : i < s.start ∨ s.stop ≤ i) :
    (s.overwrite buf data)[i]? = buf[i]? := by
  have hle := hs.start_le
  have hstop := hs.stop_le
  have htake : (buf.take s.start).length = s.start := by
    rw [length_take]
    omega
  have hlen : (buf.take s.start ++ data).length = s.stop := by
    rw [length_append, htake, hd, len]
    omega
  rcases hi with hi | hi
  · rw [overwrite, append_assoc, getElem?_append_left (by omega), getElem?_take, if_pos hi]
  · rw [overwrite, getElem?_append_right (by omega), hlen, getElem?_drop]
    congr 1
    omega

theorem getElem?_overwrite_of_inside (hi : i < s.len) :
    (s.overwrite buf data)[s.start + i]? = data[i]? := by
  have hle := hs.start_le
  have hstop := hs.stop_le
  have htake : (buf.take s.start).length = s.start := by
    rw [length_take]
    omega
  rw [overwrite, append_assoc, getElem?_append_right (by omega), htake,
    getElem?_append_left (by omega)]
  congr 1
  omega

@[simp]
theorem slice_overwrite_self : s.slice (s.overwrite buf data) = data := by
  refine ext_getElem? fun i ↦ ?_
  rw [getElem?_slice]
  by_cases hi : s.start + i < s.stop
  · rw [if_pos hi, getElem?_overwrite_of_inside hs hd (by rw [len]; omega)]
  · rw [if_neg hi, getElem?_eq_none (by rw [hd, len]; omega)]

/-- **The frame law.** Replacing a span leaves every disjoint span alone. -/
theorem slice_overwrite_of_disjoint (hst : s.Disjoint t) :
    t.slice (s.overwrite buf data) = t.slice buf := by
  refine ext_getElem? fun i ↦ ?_
  rw [getElem?_slice, getElem?_slice]
  split
  · next hi =>
    refine getElem?_overwrite_of_outside hs hd ?_
    rcases hst with h | h
    · exact .inr (by omega)
    · exact .inl (by omega)
  · rfl

end

theorem slice_set_of_outside (hi : i < s.start ∨ s.stop ≤ i) (buf : List α) (a : α) :
    s.slice (buf.set i a) = s.slice buf := by
  rw [slice, slice, take_set, drop_set]
  rcases hi with hi | hi
  · rw [if_pos hi]
  · rw [set_eq_of_length_le, ite_self]
    rw [length_drop, length_take]
    omega

theorem slice_set_of_inside (hi : s.start ≤ i) (buf : List α) (a : α) :
    s.slice (buf.set i a) = (s.slice buf).set (i - s.start) a := by
  rw [slice, slice, take_set, drop_set, if_neg (Nat.not_lt.2 hi)]

/-- The span of a part of a concatenation. -/
theorem slice_append_middle (l mid r : List α) :
    slice ⟨l.length, l.length + mid.length⟩ (l ++ (mid ++ r)) = mid := by
  simp [slice, take_append, take_of_length_le]

theorem slice_of_eq_append {l mid r : List α} (hbuf : buf = l ++ (mid ++ r))
    (hstart : s.start = l.length) (hstop : s.stop = l.length + mid.length) : s.slice buf = mid := by
  obtain ⟨start, stop⟩ := s
  obtain rfl : start = l.length := hstart
  obtain rfl : stop = l.length + mid.length := hstop
  rw [hbuf, slice_append_middle]

/-- Two adjacent spans are one span. -/
theorem slice_append_slice {a b c : ℕ} (hab : a ≤ b) (hbc : b ≤ c) (buf : List α)
    (hc : c ≤ buf.length) : slice ⟨a, b⟩ buf ++ slice ⟨b, c⟩ buf = slice ⟨a, c⟩ buf := by
  have htake : buf.take b = (buf.take c).take b := by
    rw [take_take, Nat.min_eq_left hbc]
  have hlen : a ≤ ((buf.take c).take b).length := by
    rw [length_take, length_take]
    omega
  rw [slice, slice, slice, htake, ← drop_append_of_le_length hlen, take_append_drop]

theorem slice_append_drop {a b : ℕ} (hab : a ≤ b) (buf : List α) (hb : b ≤ buf.length) :
    slice ⟨a, b⟩ buf ++ buf.drop b = buf.drop a := by
  nth_rewrite 3 [← take_append_drop b buf]
  rw [slice, drop_append_of_le_length]
  rw [length_take]
  omega

/-- A part and the span behind it. -/
theorem take_append_slice (a b : ℕ) (buf : List α) :
    buf.take a ++ slice ⟨a, b⟩ buf = buf.take (max a b) := by
  rcases Nat.le_total a b with hab | hab
  · rw [Nat.max_eq_right hab, slice, show buf.take a = (buf.take b).take a by
      rw [take_take, Nat.min_eq_left hab], take_append_drop]
  · rw [Nat.max_eq_left hab, slice, drop_of_length_le, append_nil]
    exact Nat.le_trans (length_take_le _ _) hab

theorem overwrite_slice_self (hs : s.FitsIn buf.length) : s.overwrite buf (s.slice buf) = buf := by
  have hle := hs.start_le
  have hstop := hs.stop_le
  have hdrop : (buf.take s.stop).drop s.start ++ buf.drop s.stop = buf.drop s.start := by
    rw [← drop_append_of_le_length (by rw [length_take]; omega), take_append_drop]
  rw [overwrite, slice, append_assoc, hdrop, take_append_drop]

end Span

/-! ### Patches -/

/-- A recipe that fills one span of a buffer with data computed from the whole buffer. -/
structure Patch (α : Type) where
  out : Span
  data : List α → List α

namespace Patch

variable {α : Type} {n : ℕ}

/-- A patch for buffers of `n` elements. -/
structure Fills (p : Patch α) (n : ℕ) : Prop where
  /-- The output lies in the buffer. -/
  fitsIn : p.out.FitsIn n
  /-- The data fills it. -/
  length_data : ∀ buf, buf.length = n → (p.data buf).length = p.out.len

/-- Recompute the patch's span. -/
def apply (p : Patch α) (buf : List α) : List α :=
  p.out.overwrite buf (p.data buf)

/-- Recompute the spans one after the other. -/
def run (ps : List (Patch α)) (buf : List α) : List α :=
  ps.foldl (fun b p ↦ p.apply b) buf

/-- The span already holds the data the patch computes. -/
def Settled (p : Patch α) (buf : List α) : Prop :=
  p.out.slice buf = p.data buf

/-- What stands in the span `s` does not influence the patch. -/
def Ignores (p : Patch α) (n : ℕ) (s : Span) : Prop :=
  ∀ buf data, buf.length = n → s.FitsIn n → data.length = s.len →
    p.data (s.overwrite buf data) = p.data buf

@[simp]
theorem run_nil (buf : List α) : run [] buf = buf :=
  rfl

@[simp]
theorem run_cons (p : Patch α) (ps : List (Patch α)) (buf : List α) :
    run (p :: ps) buf = run ps (p.apply buf) :=
  rfl

theorem run_append (ps qs : List (Patch α)) (buf : List α) :
    run (ps ++ qs) buf = run qs (run ps buf) :=
  foldl_append ..

variable {p : Patch α} {buf : List α} {ps : List (Patch α)}

theorem length_apply (hp : p.Fills n) (hbuf : buf.length = n) : (p.apply buf).length = n := by
  rw [apply, Span.length_overwrite (hbuf ▸ hp.fitsIn) (hp.length_data buf hbuf), hbuf]

section

variable (hps : ∀ p ∈ ps, p.Fills n) (hbuf : buf.length = n)

include hps hbuf

theorem length_run : (run ps buf).length = n := by
  induction ps generalizing buf with
  | nil => exact hbuf
  | cons p ps ih =>
    exact ih (fun q hq ↦ hps q (mem_cons_of_mem p hq)) (length_apply (hps p mem_cons_self) hbuf)

/-- What every patch keeps, the run keeps. -/
theorem run_frame {β : Type} {f : List α → β}
    (hf : ∀ p ∈ ps, ∀ buf : List α, buf.length = n → p.Fills n → f (p.apply buf) = f buf) :
    f (run ps buf) = f buf := by
  induction ps generalizing buf with
  | nil => rfl
  | cons p ps ih =>
    have hp := hps p mem_cons_self
    rw [run_cons, ih (fun q hq ↦ hps q (mem_cons_of_mem p hq)) (length_apply hp hbuf)
      (fun q hq ↦ hf q (mem_cons_of_mem p hq))]
    exact hf p mem_cons_self buf hbuf hp

/-- **A run is framed by its outputs**: a span disjoint from all of them keeps its elements. -/
theorem slice_run_of_disjoint {s : Span} (hs : ∀ p ∈ ps, p.out.Disjoint s) :
    s.slice (run ps buf) = s.slice buf :=
  run_frame hps hbuf fun p hp buf hbuf hfills ↦ Span.slice_overwrite_of_disjoint
    (hbuf ▸ hfills.fitsIn) (hfills.length_data buf hbuf) (hs p hp)

theorem getElem?_run_of_outside {i : ℕ}
    (hi : ∀ p ∈ ps, i < p.out.start ∨ p.out.stop ≤ i) : (run ps buf)[i]? = buf[i]? :=
  run_frame (f := fun buf ↦ buf[i]?) hps hbuf fun p hp buf hbuf hfills ↦
    Span.getElem?_overwrite_of_outside (hbuf ▸ hfills.fitsIn) (hfills.length_data buf hbuf)
      (hi p hp)

end

/-! ### When a run settles its patches -/

/-- Patches for one buffer length whose outputs do not overlap. -/
structure Compatible (n : ℕ) (ps : List (Patch α)) : Prop where
  /-- Each is a patch for this length. -/
  fills : ∀ p ∈ ps, p.Fills n
  /-- Their outputs do not overlap. -/
  disjoint : ps.Pairwise fun p q ↦ p.out.Disjoint q.out

theorem Compatible.of_append_left {qs : List (Patch α)} (h : Compatible n (ps ++ qs)) :
    Compatible n ps :=
  ⟨fun p hp ↦ h.fills p (mem_append_left qs hp), (pairwise_append.1 h.disjoint).1⟩

/-- A patch of a run is settled at the end exactly when it computes the same data from the finished
buffer as it did at its turn. -/
theorem settled_run_iff {before after : List (Patch α)} (hps : Compatible n (before ++ p :: after))
    (hbuf : buf.length = n) :
    p.Settled (run (before ++ p :: after) buf) ↔
      p.data (run before buf) = p.data (run (before ++ p :: after) buf) := by
  have hp : p.Fills n := hps.fills p (by simp)
  have hlen : (run before buf).length = n :=
    length_run (fun q hq ↦ hps.fills q (by simp [hq])) hbuf
  have hafter : ∀ q ∈ after, q.Fills n := fun q hq ↦ hps.fills q (by simp [hq])
  have hdisjoint : ∀ q ∈ after, q.out.Disjoint p.out := fun q hq ↦
    ((pairwise_cons.1 (pairwise_append.1 hps.disjoint).2.1).1 q hq).symm
  have hslice : p.out.slice (run (before ++ p :: after) buf) = p.data (run before buf) := by
    rw [run_append, run_cons, slice_run_of_disjoint hafter (length_apply hp hlen) hdisjoint]
    exact Span.slice_overwrite_self (hlen ▸ hp.fitsIn) (hp.length_data _ hlen)
  rw [Settled, hslice]

/-- A run settles every patch that ignores its own output and those of its successors. -/
theorem settled_run_of_ignores {before after : List (Patch α)}
    (hps : Compatible n (before ++ p :: after)) (hbuf : buf.length = n)
    (hp : ∀ q ∈ p :: after, p.Ignores n q.out) : p.Settled (run (before ++ p :: after) buf) := by
  rw [settled_run_iff hps hbuf, run_append]
  refine (run_frame (fun q hq ↦ hps.fills q (mem_append_right _ hq))
    (length_run (fun q hq ↦ hps.fills q (mem_append_left _ hq)) hbuf) ?_).symm
  exact fun q hq buf hbuf hfills ↦ hp q hq buf _ hbuf hfills.fitsIn (hfills.length_data buf hbuf)

/-- Running settled patches changes nothing. -/
theorem run_eq_self_of_settled (hps : ∀ p ∈ ps, p.out.FitsIn buf.length)
    (h : ∀ p ∈ ps, p.Settled buf) : run ps buf = buf := by
  induction ps with
  | nil => rfl
  | cons p ps ih =>
    have hp : p.apply buf = buf := by
      rw [apply, ← h p mem_cons_self]
      exact Span.overwrite_slice_self (hps p mem_cons_self)
    rw [run_cons, hp]
    exact ih (fun q hq ↦ hps q (mem_cons_of_mem p hq)) (fun q hq ↦ h q (mem_cons_of_mem p hq))

end Patch

end Bhf
