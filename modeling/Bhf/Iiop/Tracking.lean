import Bhf.Iiop.Cdr

/-!
# A reader following a writer

`Tracks shift full w r` says that the reader `r` stands exactly where the writer `w` has got to: the
bytes `w` has produced are an initial part of `full`, and `r` reads `full` from byte `shift` on,
with the same byte order and with its own alignment base moved by `shift`. The shift is what lets
one set of lemmas serve both a reader over a whole stream and the reader that is handed only the
tail of it, whose alignment base is raised accordingly: both see the same absolute positions.

For every write there is a lemma that the matching read returns the written value and tracks the
writer afterwards, provided the write **fits**: the aligned absolute position does not overflow
(`CdrWriter.Fits`). When it does not fit the read is refused (`Tracks.takeAligned_of_not_fits`),
although the write went through without padding.
-/

namespace Bhf.Iiop

open StateExcept List CdrWriter CdrReader ByteOrder

namespace CdrWriter

/-- The pad bytes in front of an item of the given alignment. -/
def padding (w : CdrWriter) (alignment : ℕ) : ℕ :=
  alignPadding w.out.length alignment w.alignmentBase

/-- The position of an item of the given alignment can be computed without overflow. -/
def Fits (w : CdrWriter) (alignment : ℕ) : Prop :=
  w.alignmentBase + w.out.length + (alignment - 1) < usizeSize

@[simp]
theorem extend_out (w : CdrWriter) (bytes : Bytes) : (w.extend bytes).out = w.out ++ bytes :=
  rfl

theorem alignTo_out (w : CdrWriter) (alignment : ℕ) :
    (w.alignTo alignment).out = w.out ++ replicate (w.padding alignment) 0 :=
  rfl

@[simp]
theorem length_alignTo_out (w : CdrWriter) (alignment : ℕ) :
    (w.alignTo alignment).out.length = w.out.length + w.padding alignment := by
  simp [alignTo_out]

variable {w w' : CdrWriter}

/-- The aligned position of a fitting item is the writer's position plus its padding. -/
theorem roundUp_eq_of_fits {a : ℕ} (ha : UsizePowTwo a) (hfit : w.Fits a) :
    roundUp a (w.alignmentBase + w.out.length) = w.alignmentBase + w.out.length + w.padding a := by
  have hle := le_roundUp ha.pos (w.alignmentBase + w.out.length)
  rw [Fits] at hfit
  rw [padding, alignPadding, alignOffset_eq ha, if_pos hfit]
  show _ = _ + (roundUp _ _ - _ - _)
  omega

/-- Alignment one never pads. -/
theorem alignTo_one (hfit : w.Fits 1) : w.alignTo 1 = w := by
  have hpad := roundUp_eq_of_fits usizePowTwo_one hfit
  rw [roundUp_one] at hpad
  have hzero : w.padding 1 = 0 := by omega
  have hout : (w.alignTo 1).out = w.out := by
    rw [alignTo_out, hzero, replicate_zero, append_nil]
  cases w
  simpa [alignTo, extend] using hout

/-- `w'` is `w` with more bytes after it. -/
structure Extends (w w' : CdrWriter) : Prop where
  /-- The bytes written stay. -/
  out : w.out <+: w'.out
  /-- Alignment counts from the same place. -/
  alignmentBase : w'.alignmentBase = w.alignmentBase
  /-- The byte order stays. -/
  endian : w'.endian = w.endian

theorem Extends.refl (w : CdrWriter) : w.Extends w :=
  ⟨prefix_refl _, rfl, rfl⟩

theorem Extends.trans {w₁ w₂ w₃ : CdrWriter} (h₁ : w₁.Extends w₂) (h₂ : w₂.Extends w₃) :
    w₁.Extends w₃ :=
  ⟨h₁.out.trans h₂.out, h₂.alignmentBase.trans h₁.alignmentBase, h₂.endian.trans h₁.endian⟩

theorem extends_extend (w : CdrWriter) (bytes : Bytes) : w.Extends (w.extend bytes) :=
  ⟨prefix_append _ _, rfl, rfl⟩

theorem extends_alignTo (w : CdrWriter) (a : ℕ) : w.Extends (w.alignTo a) :=
  extends_extend _ _

/-- Every aligned write extends. -/
theorem extends_alignTo_extend (w : CdrWriter) (a : ℕ) (bytes : Bytes) :
    w.Extends ((w.alignTo a).extend bytes) :=
  (w.extends_alignTo a).trans (extends_extend _ _)

/-- A sequence that was written is its count and its bytes. -/
theorem writeOctetSequence_eq_ok {bytes : Bytes} (h : w.writeOctetSequence bytes = .ok w') :
    ∃ len : UInt32, len.toNat = bytes.length ∧ w' = (w.writeU32 len).extend bytes := by
  rw [writeOctetSequence] at h
  split at h
  · rename_i len hlen
    exact ⟨len, toNat_of_u32TryFrom hlen, (Except.ok.inj h).symm⟩
  · simp at h

theorem extends_writeOctetSequence {bytes : Bytes} (h : w.writeOctetSequence bytes = .ok w') :
    w.Extends w' := by
  obtain ⟨len, -, rfl⟩ := writeOctetSequence_eq_ok h
  exact (w.extends_alignTo_extend _ _).trans (extends_extend _ _)

/-- A string that was written is its length with the terminator, its bytes and the terminator. -/
theorem writeString_eq_ok {value : String} (h : w.writeString value = .ok w') :
    ∃ len : UInt32, len.toNat = (utf8Bytes value).length + 1 ∧
      w' = ((w.writeU32 len).extend (utf8Bytes value)).extend [0] := by
  rw [writeString] at h
  split at h
  · rename_i len hlen
    exact ⟨len, toNat_of_u32TryFrom hlen, (Except.ok.inj h).symm⟩
  · simp at h

theorem extends_writeString {value : String} (h : w.writeString value = .ok w') : w.Extends w' := by
  obtain ⟨len, -, rfl⟩ := writeString_eq_ok h
  exact ((w.extends_alignTo_extend _ _).trans (extends_extend _ _)).trans (extends_extend _ _)

end CdrWriter

/-- The reader `r`, over `full` from byte `shift` on, stands where the writer `w` has got to. -/
structure Tracks (shift : ℕ) (full : Bytes) (w : CdrWriter) (r : CdrReader) : Prop where
  /-- The reader sees `full` from `shift` on. -/
  input_eq : r.input = full.drop shift
  /-- What has been written so far begins `full`. -/
  written : w.out <+: full
  /-- Same position in `full`. -/
  offset_eq : r.offset + shift = w.out.length
  /-- Same absolute positions. -/
  base_eq : r.alignmentBase = w.alignmentBase + shift
  /-- Same byte order. -/
  endian_eq : r.endian = w.endian

namespace Tracks

variable {shift : ℕ} {full : Bytes} {w w' : CdrWriter} {r : CdrReader}

theorem remaining_eq (h : Tracks shift full w r) : r.remaining = full.length - w.out.length := by
  have hoff := h.offset_eq
  rw [CdrReader.remaining, h.input_eq, length_drop]
  omega

section

variable (h : Tracks shift full w r)

include h

/-- The reader sees at least what the writer goes on to produce. -/
theorem length_le (hw' : w'.out <+: full)
    (hle : w.out.length ≤ w'.out.length) : w'.out.length - shift ≤ r.input.length := by
  have hlen := hw'.length_le
  have := h.offset_eq
  rw [h.input_eq, length_drop]
  omega

/-- Bytes written after some padding are the bytes read after as many skipped ones. -/
theorem extract_eq (pad bytes : Bytes) (hwrite : w.out ++ pad ++ bytes <+: full) :
    r.input.extract (r.offset + pad.length) (r.offset + pad.length + bytes.length) = bytes := by
  obtain ⟨rest, rfl⟩ := hwrite
  have hoff := h.offset_eq
  rw [extract_eq_take_drop, h.input_eq, drop_drop]
  have hskip : shift + (r.offset + pad.length) = (w.out ++ pad).length := by
    rw [length_append]
    omega
  rw [hskip, append_assoc, drop_left, Nat.add_sub_cancel_left, take_left]

/-- Moving the reader to a later position of the writer. -/
theorem advance (hw' : w'.out <+: full) {offset : ℕ}
    (hoff : offset + shift = w'.out.length) (hbase : w'.alignmentBase = w.alignmentBase)
    (hendian : w'.endian = w.endian) : Tracks shift full w' { r with offset := offset } where
  input_eq := h.input_eq
  written := hw'
  offset_eq := hoff
  base_eq := by rw [hbase]; exact h.base_eq
  endian_eq := by rw [hendian]; exact h.endian_eq

/-- Reader and writer stand at the same absolute position. -/
theorem absolute_eq : r.alignmentBase + r.offset = w.alignmentBase + w.out.length := by
  have := h.offset_eq
  have := h.base_eq
  omega

variable {a : ℕ}

/-- Reader and writer agree on the aligned position. -/
theorem alignOffset_of_fits (ha : UsizePowTwo a) (hfit : w.Fits a) :
    alignOffset r.offset a r.alignmentBase = some (r.offset + w.padding a) := by
  have habs := h.absolute_eq
  have hround := roundUp_eq_of_fits ha hfit
  rw [CdrWriter.Fits] at hfit
  rw [alignOffset_eq ha, habs, if_pos hfit, hround]
  congr 1
  omega

theorem alignOffset_of_not_fits (ha : UsizePowTwo a) (hfit : ¬ w.Fits a) :
    alignOffset r.offset a r.alignmentBase = none := by
  rw [CdrWriter.Fits] at hfit
  rw [alignOffset_eq ha, h.absolute_eq, if_neg hfit]

/-! ### The three ways of moving -/

/-- Aligned bytes are read back. -/
theorem takeAligned (ha : UsizePowTwo a) (hfit : w.Fits a)
    {bytes : Bytes} (hw' : ((w.alignTo a).extend bytes).out <+: full)
    (hfull : full.length < usizeSize) :
    ∃ r', Runs (takeAligned a bytes.length) r bytes r' ∧
      Tracks shift full ((w.alignTo a).extend bytes) r' := by
  have hoff := h.offset_eq
  have hlen : r.offset + w.padding a + bytes.length ≤ r.input.length := by
    have := h.length_le hw' (by simp [add_assoc])
    simp only [extend_out, length_append, length_alignTo_out] at this
    omega
  have hinput : r.input.length ≤ full.length := by
    rw [h.input_eq, length_drop]
    exact Nat.sub_le _ _
  refine ⟨{ r with offset := r.offset + w.padding a + bytes.length }, ?_, h.advance hw' ?_ rfl rfl⟩
  · have hextract := h.extract_eq (replicate (w.padding a) 0) bytes hw'
    rw [length_replicate] at hextract
    rw [Runs, exec_takeAligned (h.alignOffset_of_fits ha hfit)
      (lt_of_le_of_lt (le_trans hlen hinput) hfull) hlen, hextract]
  · simp only [extend_out, length_append, length_alignTo_out]
    omega

/-- An aligned read where the position overflows is refused. -/
theorem takeAligned_of_not_fits (ha : UsizePowTwo a) (hfit : ¬ w.Fits a) (len : ℕ) :
    exec (CdrReader.takeAligned a len) r =
      (.error (.unexpectedEof r.offset len r.remaining), r) := by
  rw [CdrReader.takeAligned, exec_get_bind]
  simp only [h.alignOffset_of_not_fits ha hfit, Option.bind_none, exec_throw]

/-- Raw bytes are read back. -/
theorem takeUnaligned {bytes : Bytes}
    (hw' : (w.extend bytes).out <+: full) (hfull : full.length < usizeSize) :
    ∃ r', Runs (takeUnaligned bytes.length) r bytes r' ∧
      Tracks shift full (w.extend bytes) r' := by
  have hoff := h.offset_eq
  have hlen : r.offset + bytes.length ≤ r.input.length := by
    have := h.length_le hw' (by simp)
    simp only [CdrWriter.extend_out, length_append] at this
    omega
  have hinput : r.input.length ≤ full.length := by
    rw [h.input_eq, length_drop]
    exact Nat.sub_le _ _
  refine ⟨{ r with offset := r.offset + bytes.length }, ?_, h.advance hw' ?_ rfl rfl⟩
  · have hextract := h.extract_eq [] bytes (by simpa using hw')
    rw [length_nil, add_zero] at hextract
    rw [Runs, CdrReader.takeUnaligned, exec_get_bind]
    simp only [checkedAdd_of_lt (lt_of_le_of_lt (le_trans hlen hinput) hfull)]
    rw [if_neg (not_lt.mpr hlen), exec_set_bind, exec_pure, hextract]
  · simp only [CdrWriter.extend_out, length_append]
    omega

/-- Padding is skipped. -/
theorem alignTo (ha : UsizePowTwo a) (hfit : w.Fits a) (hw' : (w.alignTo a).out <+: full) :
    ∃ r', Runs (alignTo a) r () r' ∧ Tracks shift full (w.alignTo a) r' := by
  have hoff := h.offset_eq
  have hlen : r.offset + w.padding a ≤ r.input.length := by
    have := h.length_le hw' (by simp)
    simp only [CdrWriter.length_alignTo_out] at this
    omega
  refine ⟨{ r with offset := r.offset + w.padding a }, ?_, h.advance hw' ?_ rfl rfl⟩
  · rw [Runs, CdrReader.alignTo, exec_get_bind]
    simp only [h.alignOffset_of_fits ha hfit]
    rw [if_neg (not_lt.mpr hlen), exec_set]
  · simp only [CdrWriter.length_alignTo_out]
    omega

end

/-! ### The primitive reads -/

section Primitives

variable (h : Tracks shift full w r) (hfull : full.length < usizeSize)

include h hfull

theorem readOctet {v : UInt8} (hfit : w.Fits 1) (hw' : (w.writeOctet v).out <+: full) :
    ∃ r', Runs readOctet r v r' ∧ Tracks shift full (w.writeOctet v) r' := by
  have halign : w.alignTo 1 = w := alignTo_one hfit
  have hone : ((w.alignTo 1).extend [v]).out <+: full := by rw [halign]; exact hw'
  obtain ⟨r', hrun, htrack⟩ := h.takeAligned usizePowTwo_one hfit hone hfull
  rw [halign] at htrack
  exact ⟨r', hrun.bind (Runs.pure v r'), htrack⟩

theorem readBool {v : Bool} (hfit : w.Fits 1) (hw' : (w.writeBool v).out <+: full) :
    ∃ r', Runs readBool r v r' ∧ Tracks shift full (w.writeBool v) r' := by
  obtain ⟨r', hrun, htrack⟩ := h.readOctet hfull hfit (v := if v then 1 else 0) hw'
  refine ⟨r', ?_, htrack⟩
  rw [Runs, CdrReader.readBool, exec_get_bind]
  refine hrun.bind ?_
  cases v <;> rfl

theorem readU16 {v : UInt16} (hfit : w.Fits 2) (hw' : (w.writeU16 v).out <+: full) :
    ∃ r', Runs readU16 r v r' ∧ Tracks shift full (w.writeU16 v) r' := by
  obtain ⟨r', hrun, htrack⟩ := h.takeAligned usizePowTwo_two hfit hw' hfull
  rw [ByteOrder.length_bytes] at hrun
  refine ⟨r', ?_, htrack⟩
  rw [Runs, CdrReader.readU16, exec_get_bind]
  refine hrun.bind ?_
  rw [Runs, exec_pure, h.endian_eq, ByteOrder.ofNat_value_bytes_u16]

theorem readU32 {v : UInt32} (hfit : w.Fits 4) (hw' : (w.writeU32 v).out <+: full) :
    ∃ r', Runs readU32 r v r' ∧ Tracks shift full (w.writeU32 v) r' := by
  obtain ⟨r', hrun, htrack⟩ := h.takeAligned usizePowTwo_four hfit hw' hfull
  rw [ByteOrder.length_bytes] at hrun
  refine ⟨r', ?_, htrack⟩
  rw [Runs, CdrReader.readU32, exec_get_bind]
  refine hrun.bind ?_
  rw [Runs, exec_pure, h.endian_eq, ByteOrder.ofNat_value_bytes_u32]

theorem readU64 {v : UInt64} (hfit : w.Fits 8) (hw' : (w.writeU64 v).out <+: full) :
    ∃ r', Runs readU64 r v r' ∧ Tracks shift full (w.writeU64 v) r' := by
  obtain ⟨r', hrun, htrack⟩ := h.takeAligned usizePowTwo_eight hfit hw' hfull
  rw [ByteOrder.length_bytes] at hrun
  refine ⟨r', ?_, htrack⟩
  rw [Runs, CdrReader.readU64, exec_get_bind]
  refine hrun.bind ?_
  rw [Runs, exec_pure, h.endian_eq, ByteOrder.ofNat_value_bytes_u64]

theorem readI16 {v : Int16} (hfit : w.Fits 2) (hw' : (w.writeI16 v).out <+: full) :
    ∃ r', Runs readI16 r v r' ∧ Tracks shift full (w.writeI16 v) r' := by
  obtain ⟨r', hrun, htrack⟩ := h.readU16 hfull hfit hw'
  exact ⟨r', hrun.bind (by rw [Runs, exec_pure, Int16.toInt16_toUInt16]), htrack⟩

theorem readI32 {v : Int32} (hfit : w.Fits 4) (hw' : (w.writeI32 v).out <+: full) :
    ∃ r', Runs readI32 r v r' ∧ Tracks shift full (w.writeI32 v) r' := by
  obtain ⟨r', hrun, htrack⟩ := h.readU32 hfull hfit hw'
  exact ⟨r', hrun.bind (by rw [Runs, exec_pure, Int32.toInt32_toUInt32]), htrack⟩

theorem readI64 {v : Int64} (hfit : w.Fits 8) (hw' : (w.writeI64 v).out <+: full) :
    ∃ r', Runs readI64 r v r' ∧ Tracks shift full (w.writeI64 v) r' := by
  obtain ⟨r', hrun, htrack⟩ := h.readU64 hfull hfit hw'
  exact ⟨r', hrun.bind (by rw [Runs, exec_pure, Int64.toInt64_toUInt64]), htrack⟩

theorem readF32 {v : F32} (hfit : w.Fits 4) (hw' : (w.writeF32 v).out <+: full) :
    ∃ r', Runs readF32 r v r' ∧ Tracks shift full (w.writeF32 v) r' := by
  obtain ⟨r', hrun, htrack⟩ := h.readU32 hfull hfit hw'
  exact ⟨r', hrun.bind (Runs.pure v r'), htrack⟩

theorem readF64 {v : F64} (hfit : w.Fits 8) (hw' : (w.writeF64 v).out <+: full) :
    ∃ r', Runs readF64 r v r' ∧ Tracks shift full (w.writeF64 v) r' := by
  obtain ⟨r', hrun, htrack⟩ := h.readU64 hfull hfit hw'
  exact ⟨r', hrun.bind (Runs.pure v r'), htrack⟩

theorem readOctetSequence {bytes : Bytes} (hfit : w.Fits 4)
    (hwrite : w.writeOctetSequence bytes = .ok w') (hw' : w'.out <+: full) :
    ∃ r', Runs readOctetSequence r bytes r' ∧ Tracks shift full w' r' := by
  obtain ⟨len, hlen, rfl⟩ := writeOctetSequence_eq_ok hwrite
  obtain ⟨r₁, hrun₁, h₁⟩ :=
    h.readU32 hfull hfit (v := len) ((prefix_append _ _).trans hw')
  obtain ⟨r₂, hrun₂, h₂⟩ := h₁.takeUnaligned hw' hfull
  exact ⟨r₂, hrun₁.bind (hlen ▸ hrun₂), h₂⟩

theorem readString {value : String} (hfit : w.Fits 4)
    (hwrite : w.writeString value = .ok w') (hw' : w'.out <+: full) :
    ∃ r', Runs readString r value r' ∧ Tracks shift full w' r' := by
  obtain ⟨len, hlen, rfl⟩ := writeString_eq_ok hwrite
  obtain ⟨r₁, hrun₁, h₁⟩ := h.readU32 hfull hfit (v := len)
    (((prefix_append _ _).trans (prefix_append _ _)).trans hw')
  have hbody : ((w.writeU32 len).extend (utf8Bytes value)).extend [0] =
      (w.writeU32 len).extend (utf8Bytes value ++ [0]) := by
    simp only [extend, append_assoc]
  rw [hbody] at hw' ⊢
  obtain ⟨r₂, hrun₂, h₂⟩ := h₁.takeUnaligned hw' hfull
  refine ⟨r₂, ?_, h₂⟩
  rw [Runs, readString, exec_get_bind]
  refine hrun₁.bind ?_
  rw [length_append, length_singleton, ← hlen] at hrun₂
  rw [if_neg (show ¬ len.toNat = 0 by omega)]
  refine hrun₂.bind ?_
  -- the length counts the terminator, so the last byte taken is the NUL that was written
  have hlast : (utf8Bytes value ++ [0]).getD (len.toNat - 1) 0 = 0 := by
    rw [hlen, Nat.add_sub_cancel, getD_append_right _ _ _ _ le_rfl]
    simp
  have htake : (utf8Bytes value ++ [0]).take (len.toNat - 1) = utf8Bytes value := by
    rw [hlen, Nat.add_sub_cancel, take_left]
  rw [Runs, exec_get_bind, if_neg (not_not.mpr hlast), htake, fromUTF8?_utf8Bytes]
  rfl

end Primitives

/-! ### Refused reads -/

theorem readOctet_of_not_fits (h : Tracks shift full w r) (hfit : ¬ w.Fits 1) :
    exec CdrReader.readOctet r = (.error (.unexpectedEof r.offset 1 r.remaining), r) :=
  exec_bind_of_error (h.takeAligned_of_not_fits usizePowTwo_one hfit 1)

theorem readU16_of_not_fits (h : Tracks shift full w r) (hfit : ¬ w.Fits 2) :
    exec CdrReader.readU16 r = (.error (.unexpectedEof r.offset 2 r.remaining), r) := by
  rw [CdrReader.readU16, exec_get_bind]
  exact exec_bind_of_error (h.takeAligned_of_not_fits usizePowTwo_two hfit 2)

theorem readU32_of_not_fits (h : Tracks shift full w r) (hfit : ¬ w.Fits 4) :
    exec CdrReader.readU32 r = (.error (.unexpectedEof r.offset 4 r.remaining), r) := by
  rw [CdrReader.readU32, exec_get_bind]
  exact exec_bind_of_error (h.takeAligned_of_not_fits usizePowTwo_four hfit 4)

theorem readU64_of_not_fits (h : Tracks shift full w r) (hfit : ¬ w.Fits 8) :
    exec CdrReader.readU64 r = (.error (.unexpectedEof r.offset 8 r.remaining), r) := by
  rw [CdrReader.readU64, exec_get_bind]
  exact exec_bind_of_error (h.takeAligned_of_not_fits usizePowTwo_eight hfit 8)

end Tracks

end Bhf.Iiop
