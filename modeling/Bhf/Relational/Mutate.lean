import Bhf.Relational.Observation

/-!
# Mutation and coverage of a relational campaign

The generator of the campaign is xorshift64*. The mutator works on a buffer that is never empty:
`mutate` puts a byte into an empty one, and a byte is only deleted from a buffer with two or more
(`mutateRounds_ne_nil`). So a draw below the length of the buffer is always a position in it.
-/

namespace Bhf.Relational

/-! ### The generator -/

structure Rng where
  state : UInt64

namespace Rng

def new (seed : UInt64) : Rng :=
  ⟨if seed = 0 then 0x9E3779B97F4A7C15 else seed⟩

def nextU64 (rng : Rng) : UInt64 × Rng :=
  let x := rng.state
  let x := x ^^^ (x >>> 12)
  let x := x ^^^ (x <<< 25)
  let x := x ^^^ (x >>> 27)
  (x * 0x2545F4914F6CDD1D, ⟨x⟩)

def below (rng : Rng) (bound : ℕ) : ℕ × Rng :=
  if bound = 0 then (0, rng)
  else (rng.nextU64.1.toNat % bound, rng.nextU64.2)

def byte (rng : Rng) : UInt8 × Rng :=
  (rng.nextU64.1.toUInt8, rng.nextU64.2)

end Rng

/-! ### The mutator -/

/-- The buffer and the generator of the mutator. -/
abbrev Buffer := Bytes × Rng

/-- One mutation of the buffer, by the choice that was drawn. -/
def mutateBy (maxLen choice : ℕ) (out : Bytes) (rng : Rng) : Buffer :=
  if choice = 0 then
    let (i, rng) := rng.below out.length
    let (bit, rng) := rng.below 8
    (out.modify i (· ^^^ ((1 : UInt8) <<< UInt8.ofNat bit)), rng)
  else if choice = 1 then
    let (i, rng) := rng.below out.length
    let (byte, rng) := rng.byte
    (out.set i byte, rng)
  else if choice = 2 ∧ out.length < maxLen then
    let (i, rng) := rng.below (out.length + 1)
    let (byte, rng) := rng.byte
    (out.insertIdx i byte, rng)
  else if choice = 3 ∧ 1 < out.length then
    let (i, rng) := rng.below out.length
    (out.eraseIdx i, rng)
  else
    let (i, rng) := rng.below out.length
    let (byte, rng) := rng.byte
    (out.set i (97 + byte % 26), rng)

def mutateOnce (maxLen : ℕ) (buffer : Buffer) : Buffer :=
  mutateBy maxLen (buffer.2.below 5).1 buffer.1 (buffer.2.below 5).2

/-- `ByteMutator::mutate`; the mutator is its generator. -/
def mutate (base : Bytes) (maxLen : ℕ) (rng : Rng) : Buffer :=
  let (out, rng) := if base.isEmpty then ([rng.byte.1], rng.byte.2) else (base, rng)
  let (more, rng) := rng.below 4
  let (out, rng) := (mutateOnce maxLen)^[1 + more] (out, rng)
  (out.take maxLen, rng)

theorem mutateBy_ne_nil (maxLen choice : ℕ) {out : Bytes} (h : out ≠ []) (rng : Rng) :
    (mutateBy maxLen choice out rng).1 ≠ [] := by
  have hpos : 0 < out.length := List.length_pos_iff.2 h
  have hlength : 0 < (mutateBy maxLen choice out rng).1.length := by
    rw [mutateBy]
    split_ifs with _ _ _ herase
    · simpa using hpos
    · simpa using hpos
    · rw [List.length_insertIdx]
      split <;> omega
    · rw [List.length_eraseIdx]
      split <;> omega
    · simpa using hpos
  exact List.length_pos_iff.1 hlength

/-- **The buffer is never empty.** -/
theorem mutateRounds_ne_nil (maxLen rounds : ℕ) {buffer : Buffer} (h : buffer.1 ≠ []) :
    ((mutateOnce maxLen)^[rounds] buffer).1 ≠ [] := by
  refine Function.Iterate.rec (Prod.fst · ≠ []) h (fun _ hbuffer ↦ ?_) rounds
  rw [mutateOnce]
  exact mutateBy_ne_nil maxLen _ hbuffer _

/-! ### Coverage -/

/-- Fold a bitmap into the union of those before it, and say whether it has a byte where they had
none. -/
def UnionBitmap.fold : Bytes → Bytes → Bytes × Bool
  | acc, [] => (acc, false)
  | [], byte :: bitmap =>
    let rest := fold [] bitmap
    (byte :: rest.1, decide (byte ≠ 0) || rest.2)
  | seen :: acc, byte :: bitmap =>
    let rest := fold acc bitmap
    ((seen ||| byte) :: rest.1, decide (byte ≠ 0 ∧ seen = 0) || rest.2)

/-- The edges that were hit. -/
def hits (bitmap : Bytes) : Set ℕ :=
  {edge | bitmap[edge]?.getD 0 ≠ 0}

theorem UnionBitmap.fold_spec (acc bitmap : Bytes) :
    hits (fold acc bitmap).1 = hits acc ∪ hits bitmap ∧
      ((fold acc bitmap).2 ↔ ∃ edge ∈ hits bitmap, edge ∉ hits acc) := by
  fun_induction fold with
  | case1 => simp [hits]
  | case2 _ _ rest ih | case3 _ _ _ _ rest ih =>
    constructor
    · ext (_ | edge)
      · simp [hits, imp_iff_not_or]
      · exact Set.ext_iff.mp ih.1 edge
    · rw [← Nat.or_exists_add_one]
      simp [rest, ih.2, hits]

end Bhf.Relational
