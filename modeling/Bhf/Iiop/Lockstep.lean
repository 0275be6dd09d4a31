import Bhf.Iiop.Tracking

/-!
# Writer and reader in lockstep

A sequence of typed writes on a fresh writer, and the corresponding reads over the bytes it
produced. The two sides compute every padding on their own, from their own running offset; what
keeps them together is that they compute it from the same absolute position.

They do so only while that position can be computed. Where `alignment_base + offset + mask` would
overflow, `align_offset` has no value, and the two sides take this differently: the writer goes on
without padding (`alignPadding` is then zero), the reader refuses the read. So the exact condition
for lockstep is `InRange`: every item starts at an absolute position that can still be rounded up
to its alignment. A single write at the last position is the shortest sequence that breaks it.

Positions in `InRange` are the positions of the layout itself (`CdrItem.stop`), which the writer
follows as long as its items are in range.
-/

namespace Bhf.Iiop

open StateExcept List Except CdrWriter CdrReader

/-- One typed item of a CDR stream; `align` stands for an explicit `align_to`. -/
inductive CdrItem
  | octet (value : UInt8)
  | bool (value : Bool)
  | u16 (value : UInt16)
  | i16 (value : Int16)
  | u32 (value : UInt32)
  | i32 (value : Int32)
  | u64 (value : UInt64)
  | i64 (value : Int64)
  | f32 (value : F32)
  | f64 (value : F64)
  | string (value : String)
  | octetSequence (value : Bytes)
  | align (alignment : ℕ)

namespace CdrItem

/-- Where an item must start. -/
def alignment : CdrItem → ℕ
  | octet _ | bool _ => 1
  | u16 _ | i16 _ => 2
  | u32 _ | i32 _ | f32 _ | string _ | octetSequence _ => 4
  | u64 _ | i64 _ | f64 _ => 8
  | align a => a

/-- The bytes of an item after its padding. -/
def size : CdrItem → ℕ
  | octet _ | bool _ => 1
  | u16 _ | i16 _ => 2
  | u32 _ | i32 _ | f32 _ => 4
  | u64 _ | i64 _ | f64 _ => 8
  | string value => 4 + (utf8Bytes value).length + 1
  | octetSequence value => 4 + value.length
  | align _ => 0

/-- The position after an item laid out at position `pos` of a stream based at `base`. -/
def stop (base pos : ℕ) (item : CdrItem) : ℕ :=
  roundUp item.alignment (base + pos) - base + item.size

end CdrItem

/-- The write of an item. -/
def CdrWriter.write (w : CdrWriter) : CdrItem → Except EncodeError CdrWriter
  | .octet value => .ok (w.writeOctet value)
  | .bool value => .ok (w.writeBool value)
  | .u16 value => .ok (w.writeU16 value)
  | .i16 value => .ok (w.writeI16 value)
  | .u32 value => .ok (w.writeU32 value)
  | .i32 value => .ok (w.writeI32 value)
  | .u64 value => .ok (w.writeU64 value)
  | .i64 value => .ok (w.writeI64 value)
  | .f32 value => .ok (w.writeF32 value)
  | .f64 value => .ok (w.writeF64 value)
  | .string value => w.writeString value
  | .octetSequence value => w.writeOctetSequence value
  | .align alignment => .ok (w.alignTo alignment)

/-- The read that corresponds to the write of an item: it looks at the item's kind only, and
returns what it read as an item. -/
def CdrReader.readLike : CdrItem → CdrM CdrItem
  | .octet _ => do return .octet (← readOctet)
  | .bool _ => do return .bool (← readBool)
  | .u16 _ => do return .u16 (← readU16)
  | .i16 _ => do return .i16 (← readI16)
  | .u32 _ => do return .u32 (← readU32)
  | .i32 _ => do return .i32 (← readI32)
  | .u64 _ => do return .u64 (← readU64)
  | .i64 _ => do return .i64 (← readI64)
  | .f32 _ => do return .f32 (← readF32)
  | .f64 _ => do return .f64 (← readF64)
  | .string _ => do return .string (← readString)
  | .octetSequence _ => do return .octetSequence (← readOctetSequence)
  | .align alignment => do
    alignTo alignment
    return .align alignment

/-- Write the items in order; the positions are the writer's after each step. -/
def CdrWriter.writeAll (w : CdrWriter) : List CdrItem → Except EncodeError (CdrWriter × List ℕ)
  | [] => .ok (w, [])
  | item :: items =>
    match w.write item with
    | .error e => .error e
    | .ok w₁ =>
      match w₁.writeAll items with
      | .error e => .error e
      | .ok (w', positions) => .ok (w', w₁.position :: positions)

/-- Read the items in order, each with the reader's position after it. -/
def CdrReader.readAll : List CdrItem → CdrM (List (CdrItem × ℕ))
  | [] => return []
  | item :: items => do
    let value ← readLike item
    let pos := (← get).position
    let rest ← readAll items
    return (value, pos) :: rest

/-- The reads over the bytes of `w` succeed, return the written items at the writer's positions and
leave nothing. -/
def Lockstep (endian : Endianness) (base : ℕ) (items : List CdrItem) (w : CdrWriter)
    (positions : List ℕ) : Prop :=
  ∃ r, Runs (CdrReader.readAll items) (CdrReader.withAlignmentBase w.out endian base)
      (items.zip positions) r ∧ r.remaining = 0

/-- Every item, laid out from position `pos` on, starts at an absolute position that can be rounded
up to its alignment within a `usize`. -/
def InRange (base : ℕ) : ℕ → List CdrItem → Prop
  | _, [] => True
  | pos, item :: items =>
    base + pos + (item.alignment - 1) < usizeSize ∧ InRange base (item.stop base pos) items

instance decidableInRange (base : ℕ) : ∀ pos items, Decidable (InRange base pos items)
  | _, [] => isTrue trivial
  | pos, item :: items =>
    haveI := decidableInRange base (item.stop base pos) items
    inferInstanceAs (Decidable (_ ∧ _))

/-! ### One step -/

namespace CdrWriter

/-- Aligned bytes end where the layout says. -/
theorem length_alignTo_extend {w : CdrWriter} {a : ℕ} (ha : UsizePowTwo a) (hfit : w.Fits a)
    (bytes : Bytes) :
    ((w.alignTo a).extend bytes).out.length =
      roundUp a (w.alignmentBase + w.out.length) - w.alignmentBase + bytes.length := by
  rw [roundUp_eq_of_fits ha hfit, extend_out, length_append, length_alignTo_out]
  omega

variable {w w' : CdrWriter} {item : CdrItem}

/-- A write only appends. -/
theorem extends_write (h : w.write item = .ok w') : w.Extends w' := by
  cases item with
  | string value => exact extends_writeString h
  | octetSequence value => exact extends_writeOctetSequence h
  | octet _ | bool _ | align _ =>
    obtain ⟨⟩ := h
    exact extends_extend _ _
  | u16 _ | i16 _ | u32 _ | i32 _ | u64 _ | i64 _ | f32 _ | f64 _ =>
    obtain ⟨⟩ := h
    exact extends_alignTo_extend _ _ _

/-- A fitting item ends where the layout says. -/
theorem length_write (h : w.write item = .ok w') (ha : UsizePowTwo item.alignment)
    (hfit : w.Fits item.alignment) : w'.out.length = item.stop w.alignmentBase w.out.length := by
  have hext := fun bytes ↦ length_alignTo_extend ha hfit bytes
  cases item with
  | string value =>
    obtain ⟨len, -, rfl⟩ := writeString_eq_ok h
    have := hext (w.endian.bytes 4 len.toNat)
    rw [ByteOrder.length_bytes] at this
    simp only [CdrItem.stop, CdrItem.size, CdrItem.alignment, writeU32, extend_out, length_append,
      length_singleton] at this ⊢
    omega
  | octetSequence value =>
    obtain ⟨len, -, rfl⟩ := writeOctetSequence_eq_ok h
    have := hext (w.endian.bytes 4 len.toNat)
    rw [ByteOrder.length_bytes] at this
    simp only [CdrItem.stop, CdrItem.size, CdrItem.alignment, writeU32, extend_out,
      length_append] at this ⊢
    omega
  | octet _ | bool _ =>
    obtain ⟨⟩ := h
    simp [CdrItem.stop, CdrItem.size, CdrItem.alignment, writeOctet, writeBool]
  | align a =>
    obtain ⟨⟩ := h
    simpa [CdrItem.stop, CdrItem.size, CdrItem.alignment] using hext []
  | u16 _ | i16 _ | u32 _ | i32 _ | u64 _ | i64 _ | f32 _ | f64 _ =>
    obtain ⟨⟩ := h
    exact (hext _).trans (by rw [ByteOrder.length_bytes]; rfl)

/-- A run of writes is a write followed by a run. -/
theorem writeAll_cons_eq_ok {items : List CdrItem} {positions : List ℕ}
    (h : w.writeAll (item :: items) = .ok (w', positions)) :
    ∃ w₁ ps, w.write item = .ok w₁ ∧ w₁.writeAll items = .ok (w', ps) ∧
      positions = w₁.position :: ps := by
  rw [writeAll] at h
  rcases hw : w.write item with e | w₁
  · simp [hw] at h
  rcases hws : w₁.writeAll items with e | ⟨w₂, ps⟩
  · simp [hw, hws] at h
  · simp only [hw, hws, ok.injEq, Prod.mk.injEq] at h
    obtain ⟨rfl, rfl⟩ := h
    exact ⟨w₁, ps, rfl, hws, rfl⟩

/-- A run of writes only appends. -/
theorem writeAll_extends {items : List CdrItem} {positions : List ℕ}
    (h : w.writeAll items = .ok (w', positions)) : w.out <+: w'.out := by
  induction items generalizing w positions with
  | nil =>
    obtain ⟨⟩ := h
    exact prefix_refl _
  | cons item items ih =>
    obtain ⟨w₁, ps, hw₁, hws, -⟩ := writeAll_cons_eq_ok h
    exact (extends_write hw₁).out.trans (ih hws)

end CdrWriter

namespace Tracks

variable {shift : ℕ} {full : Bytes} {w w' : CdrWriter} {r : CdrReader} {item : CdrItem}

/-- A fitting item is read back. -/
theorem readLike (h : Tracks shift full w r) (hfull : full.length < usizeSize)
    (hwrite : w.write item = .ok w') (ha : UsizePowTwo item.alignment)
    (hfit : w.Fits item.alignment) (hw' : w'.out <+: full) :
    ∃ r', Runs (readLike item) r item r' ∧ Tracks shift full w' r' := by
  -- every read wraps the value it returns
  have wrap : ∀ {α : Type} {m : CdrM α} {a : α} {w' : CdrWriter} (f : α → CdrItem),
      (∃ r', Runs m r a r' ∧ Tracks shift full w' r') →
        ∃ r', Runs (m >>= fun v ↦ pure (f v)) r (f a) r' ∧ Tracks shift full w' r' := by
    rintro α m a w' f ⟨r', hrun, htrack⟩
    exact ⟨r', hrun.bind (Runs.pure _ _), htrack⟩
  cases item with
  | string value => exact wrap _ (h.readString hfull hfit hwrite hw')
  | octetSequence value => exact wrap _ (h.readOctetSequence hfull hfit hwrite hw')
  | octet value =>
    obtain ⟨⟩ := hwrite
    exact wrap _ (h.readOctet hfull hfit hw')
  | bool value =>
    obtain ⟨⟩ := hwrite
    exact wrap _ (h.readBool hfull hfit hw')
  | u16 value =>
    obtain ⟨⟩ := hwrite
    exact wrap _ (h.readU16 hfull hfit hw')
  | i16 value =>
    obtain ⟨⟩ := hwrite
    exact wrap _ (h.readI16 hfull hfit hw')
  | u32 value =>
    obtain ⟨⟩ := hwrite
    exact wrap _ (h.readU32 hfull hfit hw')
  | i32 value =>
    obtain ⟨⟩ := hwrite
    exact wrap _ (h.readI32 hfull hfit hw')
  | u64 value =>
    obtain ⟨⟩ := hwrite
    exact wrap _ (h.readU64 hfull hfit hw')
  | i64 value =>
    obtain ⟨⟩ := hwrite
    exact wrap _ (h.readI64 hfull hfit hw')
  | f32 value =>
    obtain ⟨⟩ := hwrite
    exact wrap _ (h.readF32 hfull hfit hw')
  | f64 value =>
    obtain ⟨⟩ := hwrite
    exact wrap _ (h.readF64 hfull hfit hw')
  | align a =>
    obtain ⟨⟩ := hwrite
    exact wrap (fun _ ↦ .align a) (h.alignTo ha hfit hw')

/-- The read of an item whose position overflows is refused, whatever its kind. -/
theorem readLike_of_not_fits (h : Tracks shift full w r) (ha : UsizePowTwo item.alignment)
    (hfit : ¬ w.Fits item.alignment) : ∃ e, exec (CdrReader.readLike item) r = (.error e, r) := by
  have hstop : ∀ {α β : Type} {e : CdrError} {m : CdrM α} (f : α → CdrM β),
      exec m r = (.error e, r) → exec (m >>= f) r = (.error e, r) :=
    fun _ he ↦ exec_bind_of_error he
  cases item with
  | octet _ => exact ⟨_, hstop _ (h.readOctet_of_not_fits hfit)⟩
  | bool _ =>
    have hbool : exec CdrReader.readBool r =
        (.error (.unexpectedEof r.offset 1 r.remaining), r) := by
      rw [CdrReader.readBool, exec_get_bind]
      exact hstop _ (h.readOctet_of_not_fits hfit)
    exact ⟨_, hstop _ hbool⟩
  | u16 _ => exact ⟨_, hstop _ (h.readU16_of_not_fits hfit)⟩
  | i16 _ => exact ⟨_, hstop _ (hstop _ (h.readU16_of_not_fits hfit))⟩
  | u32 _ => exact ⟨_, hstop _ (h.readU32_of_not_fits hfit)⟩
  | i32 _ | f32 _ | octetSequence _ => exact ⟨_, hstop _ (hstop _ (h.readU32_of_not_fits hfit))⟩
  | string _ =>
    have hstring : exec CdrReader.readString r =
        (.error (.unexpectedEof r.offset 4 r.remaining), r) := by
      rw [CdrReader.readString, exec_get_bind]
      exact hstop _ (h.readU32_of_not_fits hfit)
    exact ⟨_, hstop _ hstring⟩
  | u64 _ => exact ⟨_, hstop _ (h.readU64_of_not_fits hfit)⟩
  | i64 _ | f64 _ => exact ⟨_, hstop _ (hstop _ (h.readU64_of_not_fits hfit))⟩
  | align a =>
    refine ⟨.unexpectedEof r.offset a r.remaining, hstop _ ?_⟩
    rw [CdrReader.alignTo, exec_get_bind]
    simp only [h.alignOffset_of_not_fits (a := a) ha hfit, exec_throw]

/-! ### Whole runs -/

/-- Items in range are all read back, at the writer's positions. -/
theorem readAll {items : List CdrItem} {positions : List ℕ} (h : Tracks 0 full w r)
    (hfull : full.length < usizeSize) (halign : ∀ item ∈ items, UsizePowTwo item.alignment)
    (hwrite : w.writeAll items = .ok (w', positions)) (hw' : w'.out <+: full)
    (hrange : InRange w.alignmentBase w.out.length items) :
    ∃ r', Runs (readAll items) r (items.zip positions) r' ∧ Tracks 0 full w' r' := by
  induction items generalizing w r positions with
  | nil =>
    obtain ⟨⟩ := hwrite
    exact ⟨r, Runs.pure _ _, h⟩
  | cons item items ih =>
    obtain ⟨w₁, ps, hw₁, hws, rfl⟩ := writeAll_cons_eq_ok hwrite
    obtain ⟨hfit, hrest⟩ := hrange
    have ha := halign item (mem_cons_self ..)
    have hbase := (extends_write hw₁).alignmentBase
    have hw₁' : w₁.out <+: full := (writeAll_extends hws).trans hw'
    obtain ⟨r₁, hrun₁, h₁⟩ := h.readLike hfull hw₁ ha hfit hw₁'
    rw [← length_write hw₁ ha hfit, ← hbase] at hrest
    obtain ⟨r₂, hrun₂, h₂⟩ :=
      ih h₁ (fun i hi ↦ halign i (mem_cons_of_mem _ hi)) hws hrest
    have hpos : r₁.position = w₁.position := h₁.offset_eq
    refine ⟨r₂, hrun₁.bind ?_, h₂⟩
    rw [Runs, exec_get_bind, hpos]
    exact hrun₂.bind (Runs.pure _ _)

/-- Whatever is read back to the end was in range. -/
theorem inRange_of_readAll {items : List CdrItem} {positions : List ℕ}
    {values : List (CdrItem × ℕ)} {r' : CdrReader} (h : Tracks 0 full w r)
    (hfull : full.length < usizeSize) (halign : ∀ item ∈ items, UsizePowTwo item.alignment)
    (hwrite : w.writeAll items = .ok (w', positions)) (hw' : w'.out <+: full)
    (hread : Runs (CdrReader.readAll items) r values r') :
    InRange w.alignmentBase w.out.length items := by
  induction items generalizing w r positions values with
  | nil => trivial
  | cons item items ih =>
    obtain ⟨w₁, ps, hw₁, hws, rfl⟩ := writeAll_cons_eq_ok hwrite
    have ha := halign item (mem_cons_self ..)
    by_cases hfit : w.Fits item.alignment
    · have hbase := (extends_write hw₁).alignmentBase
      have hw₁' : w₁.out <+: full := (writeAll_extends hws).trans hw'
      obtain ⟨r₁, hrun₁, h₁⟩ := h.readLike hfull hw₁ ha hfit hw₁'
      have hrest : ∃ vs, Runs (CdrReader.readAll items) r₁ vs r' := by
        rw [CdrReader.readAll, runs_bind_iff] at hread
        obtain ⟨_, s, hs, hread⟩ := hread
        obtain ⟨rfl, rfl⟩ : item = _ ∧ r₁ = s := by
          rw [Runs, hrun₁] at hs
          simpa using hs
        rw [Runs, exec_get_bind] at hread
        obtain ⟨vs, s', hvs, hs'⟩ := runs_bind_iff.mp hread
        obtain rfl : s' = r' := (Prod.mk.inj hs').2
        exact ⟨vs, hvs⟩
      obtain ⟨vs, hvs⟩ := hrest
      have hrange := ih h₁ (fun i hi ↦ halign i (mem_cons_of_mem _ hi)) hws hvs
      rw [hbase, length_write hw₁ ha hfit] at hrange
      exact ⟨hfit, hrange⟩
    · -- the reader is refused at this item, so it cannot have reached the end
      obtain ⟨e, he⟩ := h.readLike_of_not_fits ha hfit
      have hstop := exec_bind_of_error (f := fun value ↦ do
        let pos := (← get).position
        let rest ← CdrReader.readAll items
        pure ((value, pos) :: rest)) he
      rw [Runs, CdrReader.readAll, hstop] at hread
      simp at hread

end Tracks

/-- **Lockstep, exactly.** For every byte order and alignment base and every sequence of writes that
succeeds on a fresh writer, the corresponding reads return the written items at the same positions
and leave nothing, if and only if every item is in range. The length of the output is a `usize`. -/
theorem lockstep_iff_inRange (endian : Endianness) (base : ℕ) (items : List CdrItem)
    (w : CdrWriter) (positions : List ℕ) (halign : ∀ item ∈ items, UsizePowTwo item.alignment)
    (hwrite : (CdrWriter.withAlignmentBase endian base).writeAll items = .ok (w, positions))
    (hlen : w.out.length < usizeSize) :
    Lockstep endian base items w positions ↔ InRange base 0 items := by
  -- a fresh reader over the finished bytes tracks the fresh writer
  have h : Tracks 0 w.out (.withAlignmentBase endian base) (.withAlignmentBase w.out endian base) :=
    ⟨rfl, nil_prefix, rfl, rfl, rfl⟩
  constructor
  · rintro ⟨r, hread, -⟩
    exact h.inRange_of_readAll hlen halign hwrite (prefix_refl _) hread
  · intro hrange
    obtain ⟨r, hread, htrack⟩ := h.readAll hlen halign hwrite (prefix_refl _) hrange
    exact ⟨r, hread, htrack.remaining_eq.trans (Nat.sub_self _)⟩

/-- Mixed widths at base 12: everything is read back. -/
theorem lockstep_message_body :
    Lockstep .little 12 [.octet 7, .u32 0x11223344, .string "ok", .align 8, .u64 9]
      ⟨[7, 0, 0, 0, 0x44, 0x33, 0x22, 0x11, 3, 0, 0, 0, 111, 107, 0, 0, 0, 0, 0, 0, 9, 0, 0, 0, 0,
        0, 0, 0], 12, .little⟩ [1, 8, 15, 20, 28] :=
  (lockstep_iff_inRange _ _ _ _ _
    (by simp [CdrItem.alignment, usizePowTwo_one, usizePowTwo_four, usizePowTwo_eight])
    (by decide) (by decide)).mpr (by decide)

/-- At the last alignment base a `u32` is written without padding and cannot be read back. -/
theorem not_lockstep_at_last_base :
    ¬ ∀ (endian : Endianness) (base : ℕ) (items : List CdrItem) (w : CdrWriter)
      (positions : List ℕ), base < usizeSize → (∀ item ∈ items, UsizePowTwo item.alignment) →
      (CdrWriter.withAlignmentBase endian base).writeAll items = .ok (w, positions) →
      w.out.length < usizeSize → Lockstep endian base items w positions := by
  intro h
  obtain ⟨r, hread, -⟩ := h .little (usizeSize - 1) [.u32 1]
    ⟨[1, 0, 0, 0], usizeSize - 1, .little⟩ [4] (by decide)
    (by simp [CdrItem.alignment, usizePowTwo_four]) (by decide) (by decide)
  have hrefused : exec (CdrReader.readAll [.u32 1])
      (CdrReader.withAlignmentBase [1, 0, 0, 0] .little (usizeSize - 1)) =
        (.error (.unexpectedEof 0 4 4), ⟨[1, 0, 0, 0], 0, usizeSize - 1, .little⟩) := by
    rfl
  rw [Runs, hrefused] at hread
  simp at hread

end Bhf.Iiop
