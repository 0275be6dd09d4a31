import Bhf.FuzzEngine.BinFrameIntegrity
import Bhf.Lib.ShiftRegister

/-!
# Corruption of a single byte

All four checksums run over the covered bytes and lose nothing on the way: the two cyclic ones are
shift registers whose polynomial has a one where the shift clears a bit, a sum and an exclusive or
can be undone. **So two inputs that differ in one byte have different checksums**
(`compute_ne_of_ne`).

In a frame that verifies, overwriting a byte that a checksum covers changes the covered bytes in one
place, if the checksum names no field twice, and leaves the stored value alone, if it does not cover
itself. The stored value is then no longer the computed one, and the frame is refused.
-/

namespace Bhf.FuzzEngine.BinFrame

open Function List ShiftRegister UInt16

/-! ### Checksums -/

theorem toBitVec_crc32Bit (crc : UInt32) :
    (crc32Bit crc).toBitVec = right 0xEDB88320#32 crc.toBitVec := by
  have hmask : (-(crc &&& 1)).toBitVec =
      if crc.toBitVec.getLsbD 0 then BitVec.allOnes 32 else 0#32 := by
    show -(crc.toBitVec &&& 1#32) = _
    rw [BitVec.and_one_eq_setWidth_ofBool_getLsbD]
    rcases crc.toBitVec.getLsbD 0
    · rfl
    · rfl
  rw [crc32Bit, right, UInt32.toBitVec_xor, UInt32.toBitVec_and, hmask]
  rcases crc.toBitVec.getLsbD 0
  · simp
  · simp

theorem toBitVec_crc16CcittBit (crc : UInt16) :
    (crc16CcittBit crc).toBitVec = left 0x1021#16 crc.toBitVec := by
  have hhigh : (crc &&& 0x8000 ≠ 0) ↔ crc.toBitVec.getLsbD 15 := by
    rw [ne_eq, ← UInt16.toBitVec_inj]
    show ¬crc.toBitVec &&& BitVec.twoPow 16 15 = 0#16 ↔ _
    rw [BitVec.and_twoPow]
    rcases crc.toBitVec.getLsbD 15
    · simp
    · simp
  rw [crc16CcittBit, ShiftRegister.left]
  by_cases hbit : crc.toBitVec.getLsbD 15
  · rw [if_pos (hhigh.2 hbit), if_pos hbit]
    simp
  · rw [if_neg (mt hhigh.1 hbit), if_neg hbit]
    simp

theorem crc32Bit_injective : Injective crc32Bit := by
  intro a b h
  have hbits := congrArg UInt32.toBitVec h
  rw [toBitVec_crc32Bit, toBitVec_crc32Bit] at hbits
  exact UInt32.toBitVec_inj.1 (right_injective (by decide) (by decide) hbits)

theorem crc16CcittBit_injective : Injective crc16CcittBit := by
  intro a b h
  have hbits := congrArg UInt16.toBitVec h
  rw [toBitVec_crc16CcittBit, toBitVec_crc16CcittBit] at hbits
  exact UInt16.toBitVec_inj.1 (ShiftRegister.left_injective (by decide) (by decide) hbits)

theorem repeat_injective {α : Type} {f : α → α} (h : Injective f) (n : ℕ) :
    Injective (Nat.repeat f n) := by
  induction n with
  | zero => exact injective_id
  | succ n ih => exact h.comp ih

theorem crc32_ne_of_ne (before after : Bytes) {a b : UInt8} (h : a ≠ b) :
    crc32 (before ++ a :: after) ≠ crc32 (before ++ b :: after) := by
  intro heq
  refine foldl_ne_of_ne (fun byte x y hxy ↦ ?_) (fun crc x y hxy ↦ ?_) 0xFFFFFFFF
    before after h (UInt32.not_inj.1 heq)
  · exact (UInt32.xor_left_inj _).1 (repeat_injective crc32Bit_injective 8 hxy)
  · have hbyte := (UInt32.xor_right_inj _).1 (repeat_injective crc32Bit_injective 8 hxy)
    exact UInt8.toUInt32_inj.1 hbyte

theorem crc16Ccitt_ne_of_ne (before after : Bytes) {a b : UInt8} (h : a ≠ b) :
    crc16Ccitt (before ++ a :: after) ≠ crc16Ccitt (before ++ b :: after) := by
  refine ShiftRegister.foldl_ne_of_ne (fun byte x y hxy ↦ ?_) (fun crc x y hxy ↦ ?_) 0xFFFF
    before after h
  · exact (UInt16.xor_left_inj _).1 (repeat_injective crc16CcittBit_injective 8 hxy)
  · have hbyte := (UInt16.xor_right_inj _).1 (repeat_injective crc16CcittBit_injective 8 hxy)
    have hvalue : ∀ z : UInt8, (z.toUInt16 <<< (8 : UInt16)).toNat = z.toNat * 256 := by
      intro z
      have := z.toNat_lt
      rw [UInt16.toNat_shiftLeft, Nat.shiftLeft_eq]
      exact Nat.mod_eq_of_lt (by show z.toNat * 256 < 65536; omega)
    have hnat := congrArg UInt16.toNat hbyte
    rw [hvalue, hvalue] at hnat
    exact UInt8.toNat_inj.1 (by omega)

/-- **A checksum of any kind detects the change of a single byte.** -/
theorem compute_ne_of_ne (kind : ChecksumKind) (before after : Bytes) {a b : UInt8}
    (h : a ≠ b) : kind.compute (before ++ a :: after) ≠ kind.compute (before ++ b :: after) := by
  cases kind with
  | crc32 => exact fun heq ↦ crc32_ne_of_ne before after h (UInt32.toUInt64_inj.1 heq)
  | crc16Ccitt => exact fun heq ↦ crc16Ccitt_ne_of_ne before after h (toUInt64_inj.1 heq)
  | sum8 =>
    refine fun heq ↦ foldl_ne_of_ne (fun byte x y hxy ↦ ?_) (fun sum x y hxy ↦ ?_)
      0 before after h (UInt8.toUInt64_inj.1 heq)
    · exact (UInt8.add_left_inj _).1 hxy
    · exact (UInt8.add_right_inj _).1 hxy
  | xor8 =>
    refine fun heq ↦ foldl_ne_of_ne (fun byte x y hxy ↦ ?_) (fun sum x y hxy ↦ ?_)
      0 before after h (UInt8.toUInt64_inj.1 heq)
    · exact (UInt8.xor_left_inj _).1 hxy
    · exact (UInt8.xor_right_inj _).1 hxy

/-! ### Frames -/

/-- Changing one byte of a list. -/
theorem exists_set_split {α : Type} {l : List α} {i : ℕ} {a : α} (hi : i < l.length)
    (ha : l[i]? ≠ some a) : ∃ before old after, l = before ++ old :: after ∧
      l.set i a = before ++ a :: after ∧ old ≠ a := by
  refine ⟨l.take i, l[i], l.drop (i + 1), ?_, ?_, ?_⟩
  · rw [getElem_cons_drop, take_append_drop]
  · rw [set_eq_take_append_cons_drop, if_pos hi]
  · rintro rfl
    exact ha (getElem?_eq_getElem hi)

namespace Message

variable {m : Message}

/-- The covered bytes change in one place. -/
theorem WellFormed.covered_set_split (hm : m.WellFormed) {f : Field} (hf : f ∈ m.fields)
    {covers : List String} (hcovers : covers = f.references) (hnodup : covers.Nodup)
    {name : String} (hname : name ∈ covers) {buf : Bytes} (hbuf : buf.length = m.size) {i : ℕ}
    (hstart : (spanOf m.spans name).start ≤ i) (hstop : i < (spanOf m.spans name).stop) {b : UInt8}
    (hb : buf[i]? ≠ some b) :
    ∃ before old after,
      (covers.map (spanOf m.spans)).flatMap (fun range ↦ range.slice buf) =
        before ++ old :: after ∧
      (covers.map (spanOf m.spans)).flatMap (fun range ↦ range.slice (buf.set i b)) =
        before ++ b :: after ∧
      old ≠ b := by
  have hplace : ∀ r ∈ covers, ∃ p ∈ m.places, p.1.name = r ∧ spanOf m.spans r = p.2 :=
    fun r hr ↦ hm.exists_place hf (hcovers ▸ hr)
  obtain ⟨p, hp, hpname, hpspan⟩ := hplace name hname
  -- The byte lies in no other covered field.
  have hother : ∀ r ∈ covers, r ≠ name →
      (spanOf m.spans r).slice (buf.set i b) = (spanOf m.spans r).slice buf := by
    intro r hr hne
    obtain ⟨q, hq, hqname, hqspan⟩ := hplace r hr
    have hpq : p ≠ q := by
      rintro rfl
      exact hne (hqname.symm.trans hpname)
    have hdisjoint := disjoint_of_mem_places hp hq hpq
    rw [hpspan] at hstart hstop
    rw [hqspan]
    refine Span.slice_set_of_outside ?_ buf b
    obtain h | h := hdisjoint
    · exact .inl (by omega)
    · exact .inr (by omega)
  have hfits : (spanOf m.spans name).FitsIn buf.length := by
    rw [hpspan, hbuf]
    exact fitsIn_of_mem_places hp
  obtain ⟨before, old, after, hold, hnew, hne⟩ :=
    exists_set_split (l := (spanOf m.spans name).slice buf) (i := i - (spanOf m.spans name).start)
      (a := b) (by rw [Span.length_slice hfits, Span.len]; omega) (by
        rw [Span.getElem?_slice, Nat.add_sub_cancel' hstart, if_pos hstop]
        exact hb)
  obtain ⟨l, r, rfl⟩ := append_of_mem hname
  rw [nodup_append, nodup_cons] at hnodup
  have hleft : l.flatMap (fun c ↦ (spanOf m.spans c).slice (buf.set i b)) =
      l.flatMap fun c ↦ (spanOf m.spans c).slice buf :=
    flatMap_congr fun c hc ↦ hother c (by simp [hc]) (hnodup.2.2 c hc name (by simp))
  have hright : r.flatMap (fun c ↦ (spanOf m.spans c).slice (buf.set i b)) =
      r.flatMap fun c ↦ (spanOf m.spans c).slice buf :=
    flatMap_congr fun c hc ↦ hother c (by simp [hc]) (ne_of_mem_of_not_mem hc hnodup.2.1.1)
  refine ⟨(l.flatMap fun c ↦ (spanOf m.spans c).slice buf) ++ before, old,
    after ++ r.flatMap fun c ↦ (spanOf m.spans c).slice buf, ?_, ?_, hne⟩
  · rw [flatMap_map, flatMap_append, flatMap_cons, hold]
    simp
  · rw [flatMap_map, flatMap_append, flatMap_cons, hleft, hright,
      Span.slice_set_of_inside hstart, hnew]
    simp

end Message

/-- In a buffer that passes the gate, a derived field holds its value. -/
theorem readUint_of_verifyBytes {e : EncodedMessage} {buf : Bytes}
    (h : e.verifyBytes buf) {d : PendingDerivation} (hd : d ∈ e.derivations) :
    readUint buf d.out d.width d.endian = some (d.value buf) := by
  rw [EncodedMessage.verifyBytes] at h
  split at h
  · contradiction
  have hheld := all_eq_true.1 h d hd
  rw [d.evaluate_eq] at hheld
  dsimp only at hheld
  split at hheld
  · next actual hactual => rw [hactual, eq_of_beq hheld]
  · contradiction

/-- **No undetected corruption of a single byte.** In an encoded message that passes the gate,
whatever was done to it since it was encoded, overwriting a byte that a checksum covers makes the
gate refuse it, if the checksum names each field at most once and not itself. -/
theorem verifyBytes_set_eq_false {m : Message} {e e' : EncodedMessage} (he : m.encode = .ok e)
    (hmutated : e.Mutated e') (hverify : e'.verify = true) {name : String} {kind : ChecksumKind}
    {endian : Endian} {covers : List String}
    (hfield : Field.checksum name kind endian covers ∈ m.fields) (hnodup : covers.Nodup)
    (hself : name ∉ covers) {covered : String} (hcovered : covered ∈ covers) {s : Span}
    (hspan : e'.span covered = some s) {i : ℕ} (hstart : s.start ≤ i) (hstop : i < s.stop)
    {b : UInt8} (hb : e'.bytes[i]? ≠ some b) : e'.verifyBytes (e'.bytes.set i b) = false := by
  obtain ⟨hm, rfl⟩ := Message.encode_eq_ok he
  obtain ⟨hspans, hderivations, hlen⟩ := hmutated.layout rfl (hm.length_settle rfl)
  obtain ⟨place, hplace⟩ := Message.exists_mem_places hfield
  -- The derivation that the checksum became, and the value it holds.
  have hderivation : PendingDerivation.checksum place kind endian (covers.map (spanOf m.spans)) ∈
      e'.derivations := by
    rw [hderivations]
    refine Message.mem_derivations_iff.2 ⟨_, hplace, mem_append_right _ ?_⟩
    have hown : spanOf m.spans name = place := hm.spanOf_name hplace
    rw [← hown]
    exact mem_singleton_self _
  have hcoveredSpan : spanOf m.spans covered = s := by
    rw [← hspans]
    exact congrArg (Option.getD · _) hspan
  rw [← hcoveredSpan] at hstart hstop
  obtain ⟨before, old, after, hold, hnew, hne⟩ := hm.covered_set_split hfield rfl hnodup hcovered
    hlen hstart hstop hb
  -- The stored value is not touched: the byte lies in another field.
  have hstored : place.slice (e'.bytes.set i b) = place.slice e'.bytes := by
    obtain ⟨p, hp, hpname, hpspan⟩ := hm.exists_place hfield (r := covered) hcovered
    have hpq : p ≠ (Field.checksum name kind endian covers, place) := by
      rintro rfl
      have hname : name = covered := hpname
      exact hself (hname ▸ hcovered)
    have hdisjoint := Message.disjoint_of_mem_places hp hplace hpq
    rw [hpspan] at hstart hstop
    refine Span.slice_set_of_outside ?_ _ _
    obtain h | h := hdisjoint
    · exact .inl (by show i < place.start; exact lt_of_lt_of_le hstop h)
    · exact .inr (by show place.stop ≤ i; exact le_trans h hstart)
  rw [Bool.eq_false_iff]
  intro hgate
  have hafter := readUint_of_verifyBytes hgate hderivation
  have hbefore := readUint_of_verifyBytes ((verifyBytes_self e').trans hverify) hderivation
  have hread : readUint (e'.bytes.set i b) place kind.outputWidth endian =
      readUint e'.bytes place kind.outputWidth endian := by
    rw [readUint, readUint, length_set, hstored]
  have hvalue : kind.compute (before ++ b :: after) = kind.compute (before ++ old :: after) := by
    rw [← hold, ← hnew]
    exact Option.some.inj (hafter.symm.trans (hread.trans hbefore))
  exact compute_ne_of_ne kind before after hne hvalue.symm

/-- The payload of a checked frame, with its second byte overwritten. -/
theorem verifyBytes_checkedFrame_corrupted :
    (checkedFrameWith [1, 2, 3] 3).verifyBytes [0, 3, 1, 9, 3, 3] = false := by
  have hcorrupted := verifyBytes_set_eq_false (m := checkedFrame)
    (e := checkedFrameWith [1, 2, 3] 3) rfl .refl (by decide +kernel) (mem_of_getElem? (i := 2) rfl)
    (by decide) (by decide) (mem_of_getElem? (i := 1) rfl) rfl (i := 3) (by decide) (by decide)
    (b := 9) (by decide)
  exact hcorrupted

end Bhf.FuzzEngine.BinFrame
