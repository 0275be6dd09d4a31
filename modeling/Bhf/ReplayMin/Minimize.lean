import Bhf.Lib.Ddmin
import Bhf.Lib.Spans

/-!
# Minimising the bytes of an input

`ddminBytes` is delta debugging over bytes: the loop of the source is `Ddmin.ddmin` at the type of
bytes. The source's `splitRanges` first brings the number of ranges between one and the length,
where it already is whenever the loop calls it.

**For a predicate that does not fail the result is 1-minimal** (`ddminBytes_minimal`): it is a part
of the input for which the predicate holds, and without any one of its bytes it does not.
-/

namespace Bhf.ReplayMin

variable {ε : Type}

structure ByteMinimization where
  originalLen : ℕ
  minimized : Bytes
  predicateRuns : ℕ

def ddminBytes (input : Bytes) (predicate : Bytes → Except ε Bool) : Except ε ByteMinimization :=
  (Ddmin.ddmin predicate input).map fun (minimized, runs) ↦ ⟨input.length, minimized, runs⟩

/-- **The result keeps the predicate, is a part of the input and is 1-minimal.** -/
theorem ddminBytes_minimal (ε : Type) (input : Bytes) (p : Bytes → Bool)
    (hinput : p input) :
    ∃ result : ByteMinimization,
      ddminBytes (ε := ε) input (fun candidate ↦ .ok (p candidate)) = .ok result ∧
      p result.minimized ∧ result.minimized.Sublist input ∧
      result.minimized.length ≤ input.length ∧
      ∀ i < result.minimized.length, p (result.minimized.eraseIdx i) = false := by
  obtain ⟨minimized, runs, hddmin, hsublist, haccepted, hminimal⟩ :=
    Ddmin.ddmin_spec (fun candidate ↦ Except.ok (ε := ε) _) (fun _ ↦ rfl) input
  refine ⟨⟨input.length, minimized, runs⟩, ?_, haccepted hinput, hsublist, hsublist.length_le,
    hminimal⟩
  rw [ddminBytes, hddmin]
  rfl

/-- A predicate that needs two bytes far apart. -/
theorem ddminBytes_minimal_two_bytes :
    ∃ result : ByteMinimization,
      ddminBytes (ε := Unit) [7, 1, 2, 3, 9] (fun candidate ↦
        .ok (candidate.contains 7 && candidate.contains 9)) = .ok result ∧
      (result.minimized.contains 7 && result.minimized.contains 9) ∧
      result.minimized.Sublist [7, 1, 2, 3, 9] ∧
      result.minimized.length ≤ [7, 1, 2, 3, 9].length ∧
      ∀ i < result.minimized.length,
        ((result.minimized.eraseIdx i).contains 7 && (result.minimized.eraseIdx i).contains 9) =
          false :=
  ddminBytes_minimal Unit [7, 1, 2, 3, 9]
    (fun candidate ↦ candidate.contains 7 && candidate.contains 9) (by decide)

end Bhf.ReplayMin
