import Bhf.FuzzEngine.BinFrame

/-!
# The fix-up pass is a run of patches

Each derivation is a patch: it computes one output range from the whole buffer. The fix-up pass is
then a run of these patches in **pass order** — everything except the checksums, then the checksums
— provided that every value fits its width, and `verify` says that every patch is settled.

Whether a value fits does not depend on the buffer: lengths and offsets come from the layout alone,
and a digest always fits the width of its algorithm. So a fix-up that went through once goes through
on every buffer (`runs_fixupInPlace_iff`).
-/

namespace Bhf.FuzzEngine.BinFrame

open StateExcept EncodedMessage List

open StateExcept (Runs exec)

/-! ### Integers of a given width -/

theorem IntWidth.le_maxValue_iff (width : IntWidth) (value : UInt64) :
    value ≤ width.maxValue ↔ value.toNat < 256 ^ width.size := by
  cases width with
  | u8 | u16 | u32 => exact Nat.lt_succ_iff.symm

@[simp]
theorem length_encodeUint (width : IntWidth) (endian : Endian) (value : UInt64) :
    (encodeUint width endian value).length = width.size :=
  ByteOrder.length_bytes ..

variable {buf buf' : Bytes} {ds : List PendingDerivation}

/-- Reading a range of the right width finds a value exactly when its encoding stands there. -/
theorem readUint_eq_some_iff {range : Span} {width : IntWidth} {endian : Endian} {value : UInt64}
    (hrange : range.FitsIn buf.length) (hlen : range.len = width.size)
    (hvalue : value ≤ width.maxValue) :
    readUint buf range width endian = some value ↔
      range.slice buf = encodeUint width endian value := by
  have hslice : (range.slice buf).length = width.size := by rw [Span.length_slice hrange, hlen]
  have hfits := (width.le_maxValue_iff value).1 hvalue
  rw [readUint, if_pos hrange, if_neg (not_not.2 hslice), Option.some_inj, encodeUint]
  constructor
  · intro h
    have hlt : endian.value (range.slice buf) < 2 ^ 64 := by
      refine lt_of_lt_of_le (endian.value_lt _) ?_
      rw [hslice]
      cases width <;> decide
    rw [← h, UInt64.toNat_ofNat_of_lt' hlt, ← hslice, endian.bytes_value]
  · intro h
    rw [h, endian.value_bytes hfits, UInt64.ofNat_toNat]

/-! ### Derivations as patches -/

namespace PendingDerivation

def out : PendingDerivation → Span
  | .length out _ _ _ | .checksum out _ _ _ | .offset out _ _ _ | .tlvLength out _ _ _ => out

def width : PendingDerivation → IntWidth
  | .length _ width _ _ | .offset _ width _ _ | .tlvLength _ width _ _ => width
  | .checksum _ kind _ _ => kind.outputWidth

/-- The computed value. -/
def value (d : PendingDerivation) (bytes : Bytes) : UInt64 :=
  (d.evaluate bytes).2.2.2

theorem evaluate_eq (d : PendingDerivation) (bytes : Bytes) :
    d.evaluate bytes = (d.out, d.width, d.endian, d.value bytes) := by
  cases d <;> rfl

/-- The derivation as a recipe for its output range. -/
def patch (d : PendingDerivation) : Patch UInt8 :=
  ⟨d.out, fun buf ↦ encodeUint d.width d.endian (d.value buf)⟩

/-- The computed value fits the width of the field. By `value_le_maxValue_iff` the buffer in this
definition is irrelevant. -/
def Fits (d : PendingDerivation) : Prop :=
  d.value [] ≤ d.width.maxValue

/-- A digest fits the width of its algorithm. -/
theorem compute_le_maxValue (kind : ChecksumKind) (bytes : Bytes) :
    kind.compute bytes ≤ kind.outputWidth.maxValue := by
  rw [IntWidth.le_maxValue_iff]
  cases kind with
  | crc32 => exact (BinFrame.crc32 bytes).toNat_lt
  | crc16Ccitt => exact (BinFrame.crc16Ccitt bytes).toNat_lt
  | sum8 | xor8 => exact UInt8.toNat_lt _

theorem value_le_maxValue_iff (d : PendingDerivation) (buf : Bytes) :
    d.value buf ≤ d.width.maxValue ↔ d.Fits := by
  cases d with
  | checksum out kind endian covers =>
    exact iff_of_true (compute_le_maxValue kind _) (compute_le_maxValue kind _)
  | length | offset | tlvLength => exact Iff.rfl

variable {d : PendingDerivation}

theorem ignores_of_not_checksum (hd : d.isChecksum = false) (n : ℕ) (s : Span) :
    d.patch.Ignores n s := fun buf data _ _ _ ↦ by
  -- the value of a derivation other than a checksum comes from the layout alone
  show encodeUint _ _ (d.value _) = encodeUint _ _ (d.value buf)
  cases d with
  | checksum => simp [isChecksum] at hd
  | length | offset | tlvLength => rfl

/-- A checksum does not depend on the bytes outside its cover. -/
theorem ignores_of_disjoint {n : ℕ} {out s : Span} {kind : ChecksumKind} {endian : Endian}
    {covers : List Span} (h : ∀ range ∈ covers, s.Disjoint range) :
    (checksum out kind endian covers).patch.Ignores n s := by
  intro buf data hbuf hs hdata
  have hslices : covers.map (fun range ↦ range.slice (s.overwrite buf data)) =
      covers.map (fun range ↦ range.slice buf) :=
    map_congr_left fun range hrange ↦
      Span.slice_overwrite_of_disjoint (hbuf ▸ hs) hdata (h range hrange)
  show encodeUint _ _ (kind.compute (covers.flatMap _)) =
    encodeUint _ _ (kind.compute (covers.flatMap _))
  rw [flatMap_def, flatMap_def, hslices]

/-- The output range suits a buffer of `n` bytes. -/
structure Sized (d : PendingDerivation) (n : ℕ) : Prop where
  /-- The range lies in the buffer. -/
  fitsIn : d.out.FitsIn n
  /-- It has the width of the derivation. -/
  len_out : d.out.len = d.width.size

theorem Sized.fills {n : ℕ} (h : d.Sized n) : d.patch.Fills n :=
  ⟨h.fitsIn, fun _ _ ↦ (length_encodeUint ..).trans h.len_out.symm⟩

theorem readUint_eq_value_iff {buf : Bytes} (hd : d.Sized buf.length) (hfits : d.Fits) :
    readUint buf d.out d.width d.endian = some (d.value buf) ↔ d.patch.Settled buf :=
  readUint_eq_some_iff hd.fitsIn hd.len_out ((d.value_le_maxValue_iff buf).2 hfits)

end PendingDerivation

/-! ### The two passes -/

/-- The order in which the fix-up pass applies the derivations. -/
def passOrder (ds : List PendingDerivation) : List PendingDerivation :=
  (ds.filter fun d ↦ !d.isChecksum) ++ ds.filter fun d ↦ d.isChecksum

/-- The run of patches that the fix-up pass performs. -/
def settle (ds : List PendingDerivation) (buf : Bytes) : Bytes :=
  Patch.run ((passOrder ds).map PendingDerivation.patch) buf

@[simp]
theorem mem_passOrder {d : PendingDerivation} : d ∈ passOrder ds ↔ d ∈ ds := by
  cases h : d.isChecksum <;> simp [passOrder, h]

theorem passOrder_perm (ds : List PendingDerivation) : (passOrder ds).Perm ds := by
  have h := filter_append_perm (fun d : PendingDerivation ↦ !d.isChecksum) ds
  simpa [passOrder] using h

theorem runs_applyDerivation_iff {d : PendingDerivation} :
    Runs (applyDerivation d) buf () buf' ↔ d.Fits ∧ buf' = d.patch.apply buf := by
  have hrun : Runs (applyDerivation d) buf () buf' ↔
      Runs (writeUint d.out d.width d.endian (d.value buf)) buf () buf' := by
    rw [Runs, applyDerivation, exec_get_bind, d.evaluate_eq, Runs]
  rw [hrun, ← d.value_le_maxValue_iff buf, Runs, writeUint]
  split
  · next h => simp [UInt64.not_le.2 h]
  · next h => simp [UInt64.not_lt.1 h, eq_comm, Patch.apply, PendingDerivation.patch]

theorem runs_forM_applyDerivation_iff :
    Runs (ds.forM applyDerivation) buf () buf' ↔
      (∀ d ∈ ds, d.Fits) ∧ buf' = Patch.run (ds.map PendingDerivation.patch) buf := by
  induction ds generalizing buf with
  | nil => simp [Runs, eq_comm]
  | cons d ds ih =>
    show Runs (applyDerivation d >>= fun _ ↦ ds.forM applyDerivation) buf () buf' ↔ _
    rw [runs_bind_iff, forall_mem_cons]
    constructor
    · rintro ⟨_, buf₁, hd, hds⟩
      obtain ⟨hfits, rfl⟩ := runs_applyDerivation_iff.1 hd
      obtain ⟨hall, rfl⟩ := ih.1 hds
      exact ⟨⟨hfits, hall⟩, rfl⟩
    · rintro ⟨⟨hfits, hall⟩, rfl⟩
      exact ⟨(), _, runs_applyDerivation_iff.2 ⟨hfits, rfl⟩, ih.2 ⟨hall, rfl⟩⟩

theorem runs_applyDerivations_iff :
    Runs (applyDerivations ds) buf () buf' ↔ (∀ d ∈ ds, d.Fits) ∧ buf' = settle ds buf := by
  rw [applyDerivations, runs_bind_iff, settle, passOrder, map_append, Patch.run_append]
  constructor
  · rintro ⟨_, buf₁, h₁, h₂⟩
    obtain ⟨hfits₁, rfl⟩ := runs_forM_applyDerivation_iff.1 h₁
    obtain ⟨hfits₂, rfl⟩ := runs_forM_applyDerivation_iff.1 h₂
    refine ⟨fun d hd ↦ ?_, rfl⟩
    rcases mem_append.1 (mem_passOrder.2 hd) with h | h
    · exact hfits₁ d h
    · exact hfits₂ d h
  · rintro ⟨hfits, rfl⟩
    exact ⟨(), _, runs_forM_applyDerivation_iff.2 ⟨fun d hd ↦ hfits d (mem_filter.1 hd).1, rfl⟩,
      runs_forM_applyDerivation_iff.2 ⟨fun d hd ↦ hfits d (mem_filter.1 hd).1, rfl⟩⟩

/-- The fix-up pass goes through exactly when every value fits, and then it runs the patches. -/
theorem runs_fixupInPlace_iff {e e' : EncodedMessage} :
    Runs fixupInPlace e () e' ↔
      (∀ d ∈ e.derivations, d.Fits) ∧ e' = { e with bytes := settle e.derivations e.bytes } := by
  rw [Runs, fixupInPlace, exec_get_bind, exec_zoom, Prod.mk.injEq]
  constructor
  · rintro ⟨hok, rfl⟩
    obtain ⟨hfits, hbytes⟩ := runs_applyDerivations_iff.1
      (show Runs (applyDerivations e.derivations) e.bytes () _ from Prod.ext hok rfl)
    exact ⟨hfits, congrArg (fun bytes ↦ { e with bytes := bytes }) hbytes⟩
  · rintro ⟨hfits, rfl⟩
    have hrun : exec (applyDerivations e.derivations) e.bytes =
        (.ok (), settle e.derivations e.bytes) := runs_applyDerivations_iff.2 ⟨hfits, rfl⟩
    rw [hrun]
    exact ⟨rfl, rfl⟩

/-! ### The integrity gate -/

/-- Every derivation has an output range of its width in a buffer of `n` bytes and a value that
fits. -/
def WellSized (n : ℕ) (ds : List PendingDerivation) : Prop :=
  ∀ d ∈ ds, d.Sized n ∧ d.Fits

theorem verify_iff {e : EncodedMessage} (h : WellSized e.bytes.length e.derivations) :
    e.verify ↔ ∀ d ∈ e.derivations, d.patch.Settled e.bytes := by
  rw [verify, all_eq_true]
  refine forall₂_congr fun d hd ↦ ?_
  rw [d.evaluate_eq, ← PendingDerivation.readUint_eq_value_iff (h d hd).1 (h d hd).2]
  dsimp only
  cases readUint e.bytes d.out d.width d.endian <;> simp

/-- On its own bytes, checking as a foreign buffer is checking. -/
theorem verifyBytes_self (e : EncodedMessage) : e.verifyBytes e.bytes = e.verify := by
  rw [verifyBytes, if_neg (not_not.2 rfl)]
  congr 1
  funext d
  rw [d.evaluate_eq]

end Bhf.FuzzEngine.BinFrame
