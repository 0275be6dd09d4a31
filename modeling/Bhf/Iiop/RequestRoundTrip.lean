import Bhf.Iiop.Encode
import Bhf.Iiop.IdlArgs
import Bhf.Iiop.Tracking
import Mathlib.Data.List.Forall2

/-!
# An encoded request decodes to itself

Whatever `encodeRequest12` produces is split off by `parseMessage`, decoded by `readRequest12` to
the same request header, and decoded by `decodeRequestArguments`, under any catalog that types the
arguments, to the same values.

The argument follows the encoder's writer with the decoder's reader (`Tracks`). Every position of a
frame body is far below `usize`, so every write fits; `InBody` carries that along with the tracking.
Two facts are about sizes: a service context takes at least eight bytes, which is what the guard of
the list reader divides by, and a value takes at least one byte. The second is why **both sides
agree on when to align the arguments**: the encoder aligns when there are arguments, the decoder
when there are bytes left.
-/

namespace Bhf.Iiop

open StateExcept List CdrWriter CdrValue Except GiopError CdrReader ServiceContextSpec

/-! ### What the encoder produces -/

/-- A word takes at least its own size. -/
theorem CdrWriter.length_add_le_writeU32 (w : CdrWriter) (v : UInt32) :
    w.out.length + 4 ≤ (w.writeU32 v).out.length := by
  have := (w.extends_alignTo 4).out.length_le
  rw [writeU32, extend_out, length_append, ByteOrder.length_bytes]
  omega

namespace CdrValue

theorem write_sequence_eq_ok {elements : List CdrValue} {w w' : CdrWriter}
    (h : (sequence elements).write w = .ok w') :
    ∃ count : UInt32, count.toNat = elements.length ∧
      writeAll elements (w.writeU32 count) = .ok w' := by
  rw [write] at h
  split at h
  · contradiction
  · next count hcount => exact ⟨count, toNat_of_u32TryFrom hcount, h⟩

theorem writeAll_cons_eq_ok {value : CdrValue} {rest : List CdrValue} {w w' : CdrWriter}
    (h : writeAll (value :: rest) w = .ok w') :
    ∃ w₁, value.write w = .ok w₁ ∧ writeAll rest w₁ = .ok w' := by
  rw [writeAll] at h
  split at h
  · contradiction
  · next w₁ hw₁ => exact ⟨w₁, hw₁, h⟩

mutual

/-- A value only appends. -/
theorem extends_write (value : CdrValue) {w w' : CdrWriter} (h : value.write w = .ok w') :
    w.Extends w' := by
  match value with
  | .boolean _ | .char _ | .octet _ =>
    obtain ⟨⟩ := h
    exact extends_extend _ _
  | .short _ | .uShort _ | .long _ | .uLong _ | .longLong _ | .uLongLong _ | .float _
  | .double _ =>
    obtain ⟨⟩ := h
    exact extends_alignTo_extend _ _ _
  | .string _ => exact extends_writeString h
  | .sequence elements =>
    obtain ⟨count, -, helements⟩ := write_sequence_eq_ok h
    exact (extends_alignTo_extend _ _ _).trans (extends_writeAll elements helements)

theorem extends_writeAll (values : List CdrValue) {w w' : CdrWriter}
    (h : writeAll values w = .ok w') : w.Extends w' := by
  match values with
  | [] =>
    obtain ⟨⟩ := h
    exact CdrWriter.Extends.refl w
  | value :: rest =>
    obtain ⟨w₁, hvalue, hrest⟩ := writeAll_cons_eq_ok h
    exact (extends_write value hvalue).trans (extends_writeAll rest hrest)

end

/-- A value takes at least one byte. -/
theorem length_lt_write {value : CdrValue} {w w' : CdrWriter} (h : value.write w = .ok w') :
    w.out.length < w'.out.length := by
  have haligned : ∀ (a : ℕ) (bytes : Bytes), bytes ≠ [] →
      w.out.length < ((w.alignTo a).extend bytes).out.length := by
    intro a bytes hbytes
    have := length_pos_iff.mpr hbytes
    have := (w.extends_alignTo a).out.length_le
    simp only [extend_out, length_append]
    omega
  have hword : ∀ (n x : ℕ), w.endian.bytes (n + 1) x ≠ [] := by
    intro n x
    exact ne_nil_of_length_eq_add_one (ByteOrder.length_bytes _ _ _)
  cases value with
  | boolean _ | char _ | octet _ =>
    obtain ⟨⟩ := h
    simp [writeBool, writeOctet]
  | short _ | uShort _ | long _ | uLong _ | longLong _ | uLongLong _ | float _ | double _ =>
    obtain ⟨⟩ := h
    exact haligned _ _ (hword _ _)
  | string _ =>
    obtain ⟨len, -, rfl⟩ := writeString_eq_ok h
    have := w.length_add_le_writeU32 len
    simp only [extend_out, length_append]
    omega
  | sequence elements =>
    obtain ⟨count, -, helements⟩ := write_sequence_eq_ok h
    have := w.length_add_le_writeU32 count
    have := (extends_writeAll elements helements).out.length_le
    omega

end CdrValue

theorem CdrWriter.writeServiceContexts_cons_eq_ok {context : ServiceContextSpec}
    {rest : List ServiceContextSpec} {w w' : CdrWriter}
    (h : writeServiceContexts (context :: rest) w = .ok w') :
    ∃ w₁, (w.writeU32 context.contextId).writeOctetSequence context.data = .ok w₁ ∧
      writeServiceContexts rest w₁ = .ok w' := by
  rw [writeServiceContexts] at h
  split at h
  · contradiction
  · next w₁ hw₁ => exact ⟨w₁, hw₁, h⟩

theorem CdrWriter.extends_writeServiceContexts (contexts : List ServiceContextSpec)
    {w w' : CdrWriter} (h : writeServiceContexts contexts w = .ok w') : w.Extends w' := by
  induction contexts generalizing w with
  | nil =>
    obtain rfl := ok.inj h
    exact Extends.refl w
  | cons context rest ih =>
    obtain ⟨w₁, hcontext, hrest⟩ := writeServiceContexts_cons_eq_ok h
    exact ((w.extends_alignTo_extend _ _).trans (extends_writeOctetSequence hcontext)).trans
      (ih hrest)

/-- A service context takes at least eight bytes. -/
theorem CdrWriter.length_add_le_writeServiceContexts (contexts : List ServiceContextSpec)
    {w w' : CdrWriter} (h : writeServiceContexts contexts w = .ok w') :
    w.out.length + 8 * contexts.length ≤ w'.out.length := by
  induction contexts generalizing w with
  | nil =>
    obtain ⟨⟩ := h
    simp
  | cons context rest ih =>
    obtain ⟨w₁, hcontext, hrest⟩ := writeServiceContexts_cons_eq_ok h
    obtain ⟨len, -, rfl⟩ := writeOctetSequence_eq_ok hcontext
    have hrest := ih hrest
    have hid := w.length_add_le_writeU32 context.contextId
    have hlen := (w.writeU32 context.contextId).length_add_le_writeU32 len
    rw [extend_out, length_append] at hrest
    rw [length_cons]
    omega

/-! ### Reading inside a frame body -/

/-- The decoder's reader follows the encoder's writer inside a frame body. -/
structure InBody (shift : ℕ) (body : Bytes) (w : CdrWriter) (r : CdrReader) : Prop
    extends Tracks shift body w r where
  /-- Positions count from the end of the header. -/
  base : w.alignmentBase = headerLen
  /-- The length fits its field. -/
  short : body.length < 2 ^ 32

namespace InBody

variable {shift : ℕ} {body : Bytes} {w w' : CdrWriter} {r : CdrReader} {d : Decoder}
  {ε α : Type}

theorem length_lt (h : InBody shift body w r) : body.length < usizeSize :=
  lt_trans h.short (by decide)

/-- Inside a body every alignment fits. -/
theorem fits (h : InBody shift body w r) {a : ℕ} (ha : a ≤ 8) : w.Fits a := by
  have hlen := h.written.length_le
  have hshort := h.short
  rw [CdrWriter.Fits, h.base, headerLen, usizeSize]
  omega

/-- Where the reader is when the writer has gone on. -/
theorem of_tracks (h : InBody shift body w r) {r' : CdrReader} (hext : w.Extends w')
    (htracks : Tracks shift body w' r') : InBody shift body w' r' :=
  ⟨htracks, hext.alignmentBase.trans h.base, h.short⟩

/-- A read that follows the writer, run on a decoder. -/
theorem read (h : InBody shift body w d.reader) (hext : w.Extends w') {m : CdrM α} {a : α}
    (onError : CdrError → ε) (hread : ∃ r', Runs m d.reader a r' ∧ Tracks shift body w' r') :
    ∃ d', Runs (DecodeM.read onError m) d a d' ∧ InBody shift body w' d'.reader := by
  obtain ⟨r', hrun, htracks⟩ := hread
  exact ⟨{ d with reader := r' }, hrun.zoom.mapError onError, h.of_tracks hext htracks⟩

end InBody

/-! ### Typed values -/

/-- A size within a declared bound, if there is one. -/
def WithinBound (bound : Option UInt64) (size : ℕ) : Prop :=
  ∀ limit ∈ bound, size ≤ limit.toNat

theorem exceededBound_eq_none_iff {bound : Option UInt64} {size : ℕ} :
    exceededBound bound size = none ↔ WithinBound bound size := by
  cases bound with
  | none => simp [exceededBound, WithinBound]
  | some limit => simp [exceededBound, WithinBound, Option.filter]

/-- A value of a declared type. -/
inductive CdrValue.HasType : CdrValue → TypeRef → Prop
  | boolean (v : Bool) : HasType (.boolean v) (.primitive .boolean)
  | char (v : UInt8) : HasType (.char v) (.primitive .char)
  | octet (v : UInt8) : HasType (.octet v) (.primitive .octet)
  | short (v : Int16) : HasType (.short v) (.primitive .short)
  | uShort (v : UInt16) : HasType (.uShort v) (.primitive .uShort)
  | long (v : Int32) : HasType (.long v) (.primitive .long)
  | uLong (v : UInt32) : HasType (.uLong v) (.primitive .uLong)
  | longLong (v : Int64) : HasType (.longLong v) (.primitive .longLong)
  | uLongLong (v : UInt64) : HasType (.uLongLong v) (.primitive .uLongLong)
  | float (v : F32) : HasType (.float v) (.primitive .float)
  | double (v : F64) : HasType (.double v) (.primitive .double)
  | string (v : String) {bound : Option UInt64} (hbound : WithinBound bound (utf8Bytes v).length) :
      HasType (.string v) (.string false bound)
  | sequence {elements : List CdrValue} {element : TypeRef} {bound : Option UInt64}
      (hbound : WithinBound bound elements.length)
      (helements : ∀ v ∈ elements, HasType v element) :
      HasType (.sequence elements) (.sequence element bound)

mutual

/-- The value a decoder is expected to return. -/
def CdrValue.decoded : CdrValue → DecodedArgumentValue
  | .boolean v => .boolean v
  | .char v => .char v
  | .octet v => .octet v
  | .short v => .short v
  | .uShort v => .uShort v
  | .long v => .long v
  | .uLong v => .uLong v
  | .longLong v => .longLong v
  | .uLongLong v => .uLongLong v
  | .float v => .float v
  | .double v => .double v
  | .string v => .string v
  | .sequence elements => .sequence (CdrValue.decodedAll elements)

def CdrValue.decodedAll : List CdrValue → List DecodedArgumentValue
  | [] => []
  | v :: vs => v.decoded :: CdrValue.decodedAll vs

end

theorem CdrValue.decodedAll_eq_map (values : List CdrValue) :
    decodedAll values = values.map decoded := by
  induction values with
  | nil => rfl
  | cons v vs ih => rw [decodedAll, map_cons, ih]

section Decode

variable (catalog : IdlOperationCatalog) (operation : IdlOperationMetadata)
  (param : IdlParamMetadata) (rawArguments : Bytes)
  {shift : ℕ} {body : Bytes}

/-- What is expected of the decoder for one value: after the encoder wrote it, the decoder returns
it and follows. -/
def ReadsBack (shift : ℕ) (body : Bytes) (value : CdrValue)
    (m : ArgumentM DecodedArgumentValue) : Prop :=
  ∀ (w w' : CdrWriter) (d : Decoder), value.write w = .ok w' → w'.out <+: body →
    InBody shift body w d.reader →
      ∃ d', Runs m d value.decoded d' ∧ InBody shift body w' d'.reader

/-- Elements that are read back one by one are read back by the loop. -/
theorem runs_times_of_readsBack {m : ArgumentM DecodedArgumentValue} {values : List CdrValue}
    (hvalues : ∀ v ∈ values, ReadsBack shift body v m) {w w' : CdrWriter}
    {d : Decoder} (hwrite : writeAll values w = .ok w') (hw' : w'.out <+: body)
    (h : InBody shift body w d.reader) :
    ∃ d', Runs (times m values.length) d (decodedAll values) d' ∧
      InBody shift body w' d'.reader := by
  rw [decodedAll_eq_map]
  -- between rounds: the values still to come are written from where the reader stands
  obtain ⟨d', hrun, -, w₁, hdone, hend⟩ := runs_times (f := decoded)
    (I := fun vs d ↦ (∀ v ∈ vs, ReadsBack shift body v m) ∧
      ∃ w, writeAll vs w = .ok w' ∧ InBody shift body w d.reader)
    (by
      rintro v vs d ⟨hvs, w, hwrite, h⟩
      obtain ⟨w₁, hv, hrest⟩ := writeAll_cons_eq_ok hwrite
      have hw₁ := (extends_writeAll vs hrest).out.trans hw'
      obtain ⟨d₁, hrun₁, h₁⟩ := hvs v (mem_cons_self ..) w w₁ d hv hw₁ h
      exact ⟨d₁, hrun₁, fun v hv ↦ hvs v (mem_cons_of_mem _ hv), w₁, hrest, h₁⟩)
    values d ⟨hvalues, w, hwrite, h⟩
  obtain ⟨⟩ := hdone
  exact ⟨d', hrun, hend⟩

/-- Noting a count does not move the reader. -/
theorem runs_note (ε : Type) (count : ℕ) (reserved : Bool) (d : Decoder) :
    ∃ d', Runs (DecodeM.note count reserved : DecodeM ε Unit) d () d' ∧ d'.reader = d.reader :=
  ⟨_, rfl, rfl⟩

theorem readsBack_sequence {element : ArgumentM DecodedArgumentValue} {elements : List CdrValue}
    {bound : Option UInt64} (hbound : WithinBound bound elements.length)
    (helements : ∀ v ∈ elements, ReadsBack shift body v element) :
    ReadsBack shift body (.sequence elements)
      (decodeSequence operation param rawArguments element bound) := by
  intro w w' d hwrite hw' h
  obtain ⟨count, hcount, hall⟩ := write_sequence_eq_ok hwrite
  have hw₁ := (extends_writeAll elements hall).out.trans hw'
  obtain ⟨d₁, hrun₁, h₁⟩ := h.read (w.extends_alignTo_extend _ _)
    _ (h.readU32 h.length_lt (h.fits (by decide)) hw₁)
  obtain ⟨d₂, hrun₂, hd₂⟩ := runs_note IdlArgumentDecodeError count.toNat true d₁
  obtain ⟨d₃, hrun₃, h₃⟩ := runs_times_of_readsBack helements hall hw' (hd₂ ▸ h₁)
  refine ⟨d₃, hrun₁.bind ?_, h₃⟩
  have hnone : exceededBound bound count.toNat = none := by
    rw [exceededBound_eq_none_iff, hcount]
    exact hbound
  rw [decodeElements, hnone]
  rw [← hcount] at hrun₃
  exact hrun₂.bind (hrun₃.bind (Runs.pure _ _))

theorem readsBack_string {v : String} {bound : Option UInt64}
    (hbound : WithinBound bound (utf8Bytes v).length) :
    ReadsBack shift body (.string v) (decodeString operation param rawArguments bound) := by
  intro w w' d hwrite hw' h
  obtain ⟨d', hrun, h'⟩ := h.read (extends_writeString hwrite) _
    (h.readString h.length_lt (h.fits (by decide)) hwrite hw')
  refine ⟨d', hrun.bind ?_, h'⟩
  simp only [exceededBound_eq_none_iff.mpr hbound]
  exact Runs.pure _ _

/-- A scalar is one read whose result is wrapped. -/
theorem readsBack_scalar {α : Type} {m : CdrM α} {a : α} {write : CdrWriter → CdrWriter}
    {value : CdrValue} {wrap : α → DecodedArgumentValue} {size : ℕ} (hsize : size ≤ 8)
    (hwrite : ∀ w, value.write w = .ok (write w)) (hdecoded : value.decoded = wrap a)
    (hread : ∀ {w r}, Tracks shift body w r → body.length < usizeSize → w.Fits size →
      (write w).out <+: body → ∃ r', Runs m r a r' ∧ Tracks shift body (write w) r') :
    ReadsBack shift body value
      (readArgument operation param rawArguments m >>= fun v ↦ pure (wrap v)) := by
  intro w w' d hw hw' h
  obtain rfl : write w = w' := ok.inj ((hwrite w).symm.trans hw)
  obtain ⟨d', hrun, h'⟩ := h.read (extends_write value hw) _
    (hread h.toTracks h.length_lt (h.fits hsize) hw')
  rw [hdecoded]
  exact ⟨d', hrun.bind (Runs.pure _ _), h'⟩

/-- **Every typed value is read back**, at any depth of sequences. -/
theorem readsBack_decodeValue {value : CdrValue} {ty : TypeRef} (htype : value.HasType ty) :
    ReadsBack shift body value (decodeValue catalog operation param rawArguments ty) := by
  induction htype with
  | string v hbound => exact readsBack_string operation param rawArguments hbound
  | sequence hbound _ ih => exact readsBack_sequence operation param rawArguments hbound ih
  | boolean v =>
    exact readsBack_scalar _ _ _ (by decide) (fun _ ↦ rfl) rfl fun h hfull ↦ h.readBool hfull
  | char v | octet v =>
    exact readsBack_scalar _ _ _ (by decide) (fun _ ↦ rfl) rfl fun h hfull ↦ h.readOctet hfull
  | short v =>
    exact readsBack_scalar _ _ _ (by decide) (fun _ ↦ rfl) rfl fun h hfull ↦ h.readI16 hfull
  | uShort v =>
    exact readsBack_scalar _ _ _ (by decide) (fun _ ↦ rfl) rfl fun h hfull ↦ h.readU16 hfull
  | long v =>
    exact readsBack_scalar _ _ _ (by decide) (fun _ ↦ rfl) rfl fun h hfull ↦ h.readI32 hfull
  | uLong v =>
    exact readsBack_scalar _ _ _ (by decide) (fun _ ↦ rfl) rfl fun h hfull ↦ h.readU32 hfull
  | longLong v =>
    exact readsBack_scalar _ _ _ (by decide) (fun _ ↦ rfl) rfl fun h hfull ↦ h.readI64 hfull
  | uLongLong v =>
    exact readsBack_scalar _ _ _ (by decide) (fun _ ↦ rfl) rfl fun h hfull ↦ h.readU64 hfull
  | float v =>
    exact readsBack_scalar _ _ _ (by decide) (fun _ ↦ rfl) rfl fun h hfull ↦ h.readF32 hfull
  | double v =>
    exact readsBack_scalar _ _ _ (by decide) (fun _ ↦ rfl) rfl fun h hfull ↦ h.readF64 hfull

/-- The parameters are read back in order. -/
theorem runs_decodeParams {params : List IdlParamMetadata} {values : List CdrValue}
    (htypes : List.Forall₂ CdrValue.HasType values (params.map (·.ty))) {w w' : CdrWriter}
    {d : Decoder} (hwrite : writeAll values w = .ok w') (hw' : w'.out <+: body)
    (h : InBody shift body w d.reader) :
    ∃ arguments d', Runs (decodeParams catalog operation rawArguments params) d arguments d' ∧
      arguments.map (·.value) = values.map decoded ∧
        InBody shift body w' d'.reader := by
  induction params generalizing values w d with
  | nil =>
    obtain rfl : values = [] := forall₂_nil_right_iff.mp htypes
    obtain ⟨⟩ := hwrite
    exact ⟨[], d, Runs.pure _ _, rfl, h⟩
  | cons param params ih =>
    obtain ⟨v, vs, htype, hrest, rfl⟩ := forall₂_cons_right_iff.mp htypes
    obtain ⟨w₁, hv, hvs⟩ := writeAll_cons_eq_ok hwrite
    have hw₁ := (extends_writeAll vs hvs).out.trans hw'
    obtain ⟨d₁, hrun₁, h₁⟩ :=
      readsBack_decodeValue catalog operation param rawArguments htype w w₁ d hv hw₁ h
    obtain ⟨arguments, d₂, hrun₂, hvalues, h₂⟩ := ih hrest hvs h₁
    refine ⟨⟨param.name, param.direction, param.ty, d.reader.position, d₁.reader.position,
      v.decoded⟩ :: arguments, d₂, ?_, by simp [hvalues], h₂⟩
    rw [Runs, decodeParams, exec_get_bind]
    refine hrun₁.bind ?_
    rw [Runs, exec_get_bind]
    exact hrun₂.bind (Runs.pure _ _)

end Decode

/-! ### The request header -/

section Header

variable {body : Bytes} {w w' : CdrWriter} {d : Decoder}

/-- The context a decoder is expected to return. -/
def ServiceContextSpec.decoded (context : ServiceContextSpec) : ServiceContext :=
  ⟨context.contextId, context.data⟩

theorem InBody.readServiceContext {r : CdrReader} {context : ServiceContextSpec}
    (h : InBody 0 body w r)
    (hwrite : (w.writeU32 context.contextId).writeOctetSequence context.data = .ok w')
    (hw' : w'.out <+: body) :
    ∃ r', Runs readServiceContext r context.decoded r' ∧ InBody 0 body w' r' := by
  have hdata := extends_writeOctetSequence hwrite
  have hid : w.Extends (w.writeU32 context.contextId) := w.extends_alignTo_extend _ _
  obtain ⟨r₁, hrun₁, h₁⟩ := h.readU32 h.length_lt (h.fits (by decide)) (hdata.out.trans hw')
  have h₁ := h.of_tracks hid h₁
  obtain ⟨r₂, hrun₂, h₂⟩ := h₁.readOctetSequence h.length_lt (h₁.fits (by decide)) hwrite hw'
  exact ⟨r₂, hrun₁.bind (hrun₂.bind (Runs.pure _ _)), h₁.of_tracks hdata h₂⟩

/-- The loop over the service contexts. -/
theorem InBody.readServiceContexts {contexts : List ServiceContextSpec}
    (h : InBody 0 body w d.reader) (hwrite : writeServiceContexts contexts w = .ok w')
    (hw' : w'.out <+: body) :
    ∃ d', Runs (times (DecodeM.read id Bhf.Iiop.readServiceContext) contexts.length) d
      (contexts.map decoded) d' ∧ InBody 0 body w' d'.reader := by
  obtain ⟨d', hrun, w₁, hdone, hend⟩ := runs_times (f := ServiceContextSpec.decoded)
    (I := fun contexts d ↦ ∃ w, writeServiceContexts contexts w = .ok w' ∧
      InBody 0 body w d.reader)
    (by
      rintro context rest d ⟨w, hwrite, h⟩
      obtain ⟨w₁, hcontext, hrest⟩ := writeServiceContexts_cons_eq_ok hwrite
      have hw₁ := (extends_writeServiceContexts rest hrest).out.trans hw'
      obtain ⟨r₁, hrun₁, h₁⟩ := h.readServiceContext hcontext hw₁
      have hext : w.Extends w₁ :=
        (w.extends_alignTo_extend _ _).trans (extends_writeOctetSequence hcontext)
      obtain ⟨d₁, hrun₁, h₁⟩ := h.read hext id ⟨r₁, hrun₁, h₁.toTracks⟩
      exact ⟨d₁, hrun₁, w₁, hrest, h₁⟩)
    contexts d ⟨w, hwrite, h⟩
  obtain ⟨⟩ := hdone
  exact ⟨d', hrun, hend⟩

/-- The service context list passes the guard of its reader. -/
theorem InBody.readServiceContextList {contexts : List ServiceContextSpec} {count : UInt32}
    (h : InBody 0 body w d.reader) (hcount : count.toNat = contexts.length)
    (hwrite : writeServiceContexts contexts (w.writeU32 count) = .ok w') (hw' : w'.out <+: body) :
    ∃ d', Runs Bhf.Iiop.readServiceContextList d (contexts.map decoded) d' ∧
      InBody 0 body w' d'.reader := by
  have hw₁ := (extends_writeServiceContexts contexts hwrite).out.trans hw'
  obtain ⟨d₁, hrun₁, h₁⟩ := h.read (w.extends_alignTo_extend _ _) id
    (h.readU32 h.length_lt (h.fits (by decide)) hw₁)
  obtain ⟨d₂, hrun₂, hd₂⟩ := runs_note CdrError count.toNat true d₁
  obtain ⟨d₃, hrun₃, h₃⟩ := InBody.readServiceContexts (hd₂ ▸ h₁) hwrite hw'
  refine ⟨d₃, ?_, h₃⟩
  rw [Runs, Bhf.Iiop.readServiceContextList, readCountedList, exec_get_bind]
  refine hrun₁.bind ?_
  have hguard : ¬ count.toNat > d₁.reader.remaining / 8 := by
    have hsize := length_add_le_writeServiceContexts contexts hwrite
    have hlen := hw'.length_le
    have hremaining : _ = _ - (w.writeU32 count).out.length := h₁.remaining_eq
    omega
  rw [Runs, readElements, exec_get_bind, if_neg hguard, hcount]
  rw [hcount] at hrun₂
  exact hrun₂.bind hrun₃

/-- The target is the object key. -/
theorem InBody.readTargetAddress {objectKey : Bytes} (h : InBody 0 body w d.reader)
    (hwrite : (w.writeI16 0).writeOctetSequence objectKey = .ok w') (hw' : w'.out <+: body) :
    ∃ d', Runs Bhf.Iiop.readTargetAddress d (.keyAddr objectKey) d' ∧
      InBody 0 body w' d'.reader := by
  have hkey := extends_writeOctetSequence hwrite
  obtain ⟨d₁, hrun₁, h₁⟩ := h.read (w.extends_alignTo_extend _ _) cdr
    (h.readI16 h.length_lt (h.fits (by decide)) (hkey.out.trans hw'))
  obtain ⟨d₂, hrun₂, h₂⟩ := h₁.read hkey cdr
    (h₁.readOctetSequence h.length_lt (h₁.fits (by decide)) hwrite hw')
  exact ⟨d₂, hrun₁.bind (hrun₂.bind (Runs.pure _ _)), h₂⟩

/-- A reader handed only the tail stands where the reader of the whole body stood. -/
theorem InBody.tail {r : CdrReader} (h : InBody 0 body w r) :
    InBody w.out.length body w
      (withAlignmentBase (body.drop w.out.length) w.endian
        (headerLen + w.out.length)) where
  input_eq := rfl
  written := h.written
  offset_eq := zero_add _
  base_eq := by rw [h.base]; rfl
  endian_eq := rfl
  base := h.base
  short := h.short

end Header

/-! ### The whole request -/

/-- The part of the request header that is always written. -/
def Request12.fixedPart (request : Request12) : CdrWriter :=
  ((((CdrWriter.withAlignmentBase request.endian headerLen).writeU32 request.requestId).writeOctet
    request.responseFlags).writeOctet 0).writeOctet 0 |>.writeOctet 0

/-- The writers a successful encoding goes through. -/
structure RequestStages (request : Request12) where
  /-- After the object key. -/
  keyed : CdrWriter
  /-- After the operation name. -/
  named : CdrWriter
  /-- The number of service contexts. -/
  count : UInt32
  /-- After the service contexts. -/
  listed : CdrWriter
  /-- At the end. -/
  done : CdrWriter
  key_eq : (request.fixedPart.writeI16 0).writeOctetSequence request.objectKey = .ok keyed
  operation_eq : keyed.writeString request.operation = .ok named
  count_eq : count.toNat = request.serviceContexts.length
  contexts_eq :
    CdrWriter.writeServiceContexts request.serviceContexts (named.writeU32 count) = .ok listed
  arguments_eq : CdrValue.writeAll request.arguments
    (if request.arguments.isEmpty then listed else listed.alignTo 8) = .ok done
  short : done.out.length < 2 ^ 32

/-- A successful encoding is a frame around the last of its writers. -/
theorem exists_stages {request : Request12} {frame : Bytes}
    (h : encodeRequest12 request = .ok frame) :
    ∃ stages : RequestStages request,
      frame = giopFrame12 request.endian false 0 stages.done.out := by
  obtain ⟨done, hbody, hframe⟩ := ok_of_bind h
  obtain ⟨named, hheader, hbody⟩ := ok_of_bind hbody
  obtain ⟨keyed, hkey, hoperation⟩ := ok_of_bind hheader
  obtain ⟨listed, hcontexts, harguments⟩ := ok_of_bind hbody
  rw [writeServiceContextList] at hcontexts
  split at hcontexts
  · simp at hcontexts
  rename_i count hcount
  dsimp only at hframe
  split at hframe
  · simp at hframe
  rename_i bodyLen hlen
  have hnat := toNat_of_u32TryFrom hlen
  have hframe : frame = giopFrame12 request.endian false 0 done.out := by
    rw [← ok.inj hframe, hnat]
    cases request.endian <;> rfl
  refine ⟨⟨keyed, named, count, listed, done, hkey, hoperation,
    toNat_of_u32TryFrom hcount, hcontexts, harguments, ?_⟩, hframe⟩
  rw [← hnat]
  exact bodyLen.toNat_lt

namespace RequestStages

variable {request : Request12} (stages : RequestStages request)

/-- Where the arguments start. -/
def start : CdrWriter :=
  if request.arguments.isEmpty then stages.listed else stages.listed.alignTo 8

theorem extends_start_done : stages.start.Extends stages.done :=
  extends_writeAll _ stages.arguments_eq

theorem extends_listed_start : stages.listed.Extends stages.start := by
  rw [start]
  split
  · exact CdrWriter.Extends.refl _
  · exact extends_alignTo _ _

theorem extends_named_listed : stages.named.Extends stages.listed :=
  (stages.named.extends_alignTo_extend _ _).trans
    (extends_writeServiceContexts _ stages.contexts_eq)

theorem extends_fixedPart_keyed : request.fixedPart.Extends stages.keyed :=
  (request.fixedPart.extends_alignTo_extend _ _).trans (extends_writeOctetSequence stages.key_eq)

theorem extends_keyed_named : stages.keyed.Extends stages.named :=
  extends_writeString stages.operation_eq

theorem extends_fixedPart_start : request.fixedPart.Extends stages.start :=
  ((stages.extends_fixedPart_keyed.trans stages.extends_keyed_named).trans
    stages.extends_named_listed).trans stages.extends_listed_start

/-- Both sides agree on the alignment of the arguments: there are bytes left exactly when there are
arguments. -/
theorem runs_alignArguments {d : Decoder} (h : InBody 0 stages.done.out stages.listed d.reader) :
    ∃ d', Runs alignArguments d () d' ∧ InBody 0 stages.done.out stages.start d'.reader := by
  have hremaining := h.remaining_eq
  rw [start]
  cases harguments : request.arguments with
  | nil =>
    -- the list of contexts ends the body, so the decoder sees no byte and does not align either
    have hdone : stages.listed = stages.done := by
      have hargs := stages.arguments_eq
      rw [harguments] at hargs
      exact ok.inj hargs
    refine ⟨d, ?_, h⟩
    rw [Runs, alignArguments, exec_get_bind, if_neg]
    · rfl
    · rw [hremaining, hdone]
      omega
  | cons value rest =>
    have hargs := stages.arguments_eq
    rw [harguments] at hargs
    -- the first value takes at least one byte, which the decoder sees behind the contexts
    obtain ⟨w₁, hvalue, hrest⟩ := writeAll_cons_eq_ok hargs
    have hgrow := length_lt_write hvalue
    have hmore := (extends_writeAll rest hrest).out
    have hpad := (stages.listed.extends_alignTo 8)
    have hw' := (extends_write value hvalue).out.trans hmore
    simp only [isEmpty_cons, Bool.false_eq_true, if_false] at hgrow hw' ⊢
    obtain ⟨d', hrun, h'⟩ := h.read hpad cdr (h.alignTo usizePowTwo_eight (h.fits (by decide)) hw')
    refine ⟨d', ?_, h'⟩
    rw [Runs, alignArguments, exec_get_bind, if_pos]
    · exact hrun
    · have := hmore.length_le
      have := hpad.out.length_le
      omega

/-- The request header is decoded, and the arguments are what is left from their start. -/
theorem runs_readRequest12Body {d : Decoder} (message : ParsedMessage)
    (hbody : message.body = stages.done.out) (hendian : message.header.endian = request.endian)
    (h : InBody 0 stages.done.out (withAlignmentBase request.endian headerLen)
      d.reader) :
    ∃ d', Runs (readRequest12Body message) d
      ⟨request.serviceContexts.map decoded, request.requestId,
        request.responseFlags, .keyAddr request.objectKey, request.operation,
        stages.done.out.drop stages.start.out.length, headerLen + stages.start.out.length,
        request.endian⟩ d' ∧ InBody 0 stages.done.out stages.start d'.reader := by
  have hlisted := (stages.extends_listed_start.trans stages.extends_start_done).out
  have hnamed := stages.extends_named_listed.out.trans hlisted
  have hkeyed := stages.extends_keyed_named.out.trans hnamed
  have hfixed := stages.extends_fixedPart_keyed.out.trans hkeyed
  have octet : ∀ (w : CdrWriter) (v : UInt8) (d : Decoder),
      (w.writeOctet v).out <+: stages.done.out → InBody 0 stages.done.out w d.reader →
        ∃ d', Runs (DecodeM.read cdr readOctet) d v d' ∧
          InBody 0 stages.done.out (w.writeOctet v) d'.reader := by
    intro w v d hw' h
    exact h.read (w.extends_extend _) _ (h.readOctet h.length_lt (h.fits (by decide)) hw')
  -- the fixed part is five reads; each of its writers begins the next
  have hr₂ := (extends_extend _ [0]).out.trans hfixed
  have hr₁ := (extends_extend _ [0]).out.trans hr₂
  have hr₀ := (extends_extend _ [0]).out.trans hr₁
  have hflags := (extends_extend _ [request.responseFlags]).out.trans hr₀
  obtain ⟨d₁, hrun₁, h₁⟩ := h.read (extends_alignTo_extend _ _ _) cdr
    (h.readU32 h.length_lt (h.fits (by decide)) hflags)
  obtain ⟨d₂, hrun₂, h₂⟩ := octet _ _ d₁ hr₀ h₁
  obtain ⟨d₃, hrun₃, h₃⟩ := octet _ _ d₂ hr₁ h₂
  obtain ⟨d₄, hrun₄, h₄⟩ := octet _ _ d₃ hr₂ h₃
  obtain ⟨d₅, hrun₅, h₅⟩ := octet _ _ d₄ hfixed h₄
  obtain ⟨d₆, hrun₆, h₆⟩ := InBody.readTargetAddress h₅ stages.key_eq hkeyed
  obtain ⟨d₇, hrun₇, h₇⟩ := h₆.read stages.extends_keyed_named
    cdr (h₆.readString h.length_lt (h₆.fits (by decide)) stages.operation_eq hnamed)
  obtain ⟨d₈, hrun₈, h₈⟩ :=
    InBody.readServiceContextList h₇ stages.count_eq stages.contexts_eq hlisted
  obtain ⟨d₉, hrun₉, h₉⟩ := stages.runs_alignArguments h₈
  have hposition : d₉.reader.position = stages.start.out.length := h₉.offset_eq
  refine ⟨d₉, hrun₁.bind (hrun₂.bind ?_), h₉⟩
  rw [Runs, exec_get_bind]
  refine hrun₃.bind (hrun₄.bind (hrun₅.bind ?_))
  refine hrun₆.bind (hrun₇.bind ((hrun₈.mapError cdr).bind (hrun₉.bind ?_)))
  rw [Runs, exec_get_bind, exec_pure, hposition, hbody, hendian]

/-- The arguments are decoded to the last byte. -/
theorem runs_decodeRequestArguments {catalog : IdlOperationCatalog}
    {operation : IdlOperationMetadata} {parsed : ParsedRequest12}
    (hlookup : catalog.lookupOperation parsed.operation = .ok operation)
    (htypes : List.Forall₂ CdrValue.HasType request.arguments (operation.inParams.map (·.ty)))
    (h : InBody stages.start.out.length stages.done.out stages.start parsed.argumentsReader)
    (counts : List DeclaredCount) :
    ∃ decoded counts', Runs (decodeRequestArguments parsed catalog) counts decoded counts' ∧
      decoded.arguments.map (·.value) = request.arguments.map CdrValue.decoded := by
  have hargs := stages.arguments_eq
  obtain ⟨arguments, d, hrun, hvalues, hend⟩ :=
    runs_decodeParams catalog operation parsed.arguments htypes hargs (prefix_refl _)
      (d := ⟨parsed.argumentsReader, counts⟩) h
  have hremaining : d.reader.remaining = 0 := hend.remaining_eq.trans (Nat.sub_self _)
  refine ⟨⟨operation.repositoryId, operation.interface, operation.operation, parsed.arguments,
    arguments⟩, d.counts, ?_, hvalues⟩
  rw [decodeRequestArguments, hlookup]
  refine DecodeM.runs_fromReader (m := decodeOperation parsed catalog operation) (hrun.bind ?_)
  rw [Runs, finishArguments, exec_get_bind, if_neg (not_not_intro hremaining)]
  rfl

end RequestStages

/-- **An encoded request decodes to itself**, in front of any other bytes: the frame is split off,
the request header comes back field by field, and under every catalog in which the operation is
unambiguous and whose parameters type the arguments, the arguments come back to the last byte. -/
theorem encodeRequest12_roundTrip (request : Request12) (frame : Bytes)
    (hencode : encodeRequest12 request = .ok frame) (trailing : Bytes) :
    ∃ message parsed counts,
      parseMessage (frame ++ trailing) = .ok message ∧ message.remaining = trailing ∧
      exec (readRequest12 message) [] = (.ok parsed, counts) ∧
      parsed.requestId = request.requestId ∧ parsed.responseFlags = request.responseFlags ∧
      parsed.target = .keyAddr request.objectKey ∧ parsed.operation = request.operation ∧
      parsed.serviceContexts = request.serviceContexts.map ServiceContextSpec.decoded ∧
      ∀ (catalog : IdlOperationCatalog) (operation : IdlOperationMetadata),
        (catalog.operations.filter fun candidate ↦ candidate.operation = request.operation) =
            [operation] →
        List.Forall₂ CdrValue.HasType request.arguments (operation.inParams.map (·.ty)) →
        ∃ decoded counts', exec (decodeRequestArguments parsed catalog) counts =
            (.ok decoded, counts') ∧
          decoded.arguments.map (·.value) = request.arguments.map CdrValue.decoded := by
  obtain ⟨stages, rfl⟩ := exists_stages hencode
  have hfresh : InBody 0 stages.done.out (withAlignmentBase request.endian headerLen)
      (withAlignmentBase stages.done.out request.endian headerLen) :=
    { input_eq := rfl, written := nil_prefix, offset_eq := rfl, base_eq := rfl,
      endian_eq := rfl, base := rfl, short := stages.short }
  have hmessage := parseMessage_giopFrame12 request.endian false 0 stages.done.out trailing
    stages.short
  obtain ⟨d, hrun, hstart⟩ := stages.runs_readRequest12Body (d := ⟨_, []⟩)
    ⟨⟨version12, request.endian, false, .request, UInt32.ofNat stages.done.out.length⟩,
      stages.done.out, trailing⟩ rfl rfl hfresh
  refine ⟨_, _, d.counts, hmessage, rfl, DecodeM.runs_fromReader hrun, rfl, rfl, rfl, rfl, rfl, ?_⟩
  intro catalog operation hunique htypes
  refine stages.runs_decodeRequestArguments ?_ htypes ?_ d.counts
  · rw [IdlOperationCatalog.lookupOperation, hunique]
  · have hendian : stages.start.endian = request.endian := stages.extends_fixedPart_start.endian
    have htail := hstart.tail
    rwa [hendian] at htail

/-- `put(in octet tag, out string note, in sequence<sequence<short>, 4> rows)`. -/
def putOperation : IdlOperationMetadata :=
  ⟨none, "Table", ["Table"], "put",
    [⟨"tag", .in_, .primitive .octet⟩, ⟨"note", .out, .string false none⟩,
      ⟨"rows", .in_, .sequence (.sequence (.primitive .short) none) (some 4)⟩]⟩

def putRequest : Request12 :=
  ⟨.little, 7, 3, [1, 2, 3], "put", [⟨1, [9]⟩], [.octet 5, .sequence [.sequence [.short (-1)],
    .sequence []]]⟩

/-- A request with nested sequences, in front of a stray byte. -/
theorem encodeRequest12_roundTrip_put :
    ∃ frame message parsed counts decoded counts', encodeRequest12 putRequest = .ok frame ∧
      parseMessage (frame ++ [0xff]) = .ok message ∧
      exec (readRequest12 message) [] = (.ok parsed, counts) ∧
      exec (decodeRequestArguments parsed ⟨[putOperation], [["Table"]]⟩) counts =
        (.ok decoded, counts') ∧
      decoded.arguments.map (·.value) =
        [.octet 5, .sequence [.sequence [.short (-1)], .sequence []]] := by
  obtain ⟨frame, hframe⟩ : ∃ frame, encodeRequest12 putRequest = .ok frame := by
    have hok : (encodeRequest12 putRequest).isOk = true := by decide +kernel
    cases hcase : encodeRequest12 putRequest with
    | ok frame => exact ⟨frame, rfl⟩
    | error e => simp [hcase, Except.isOk, Except.toBool] at hok
  obtain ⟨message, parsed, counts, hparse, -, hread, -, -, -, -, -, harguments⟩ :=
    encodeRequest12_roundTrip putRequest frame hframe [0xff]
  have htypes : List.Forall₂ CdrValue.HasType putRequest.arguments
      (putOperation.inParams.map (·.ty)) := by
    refine .cons (.octet 5) (.cons (.sequence (fun limit hlimit ↦ ?_) ?_) .nil)
    · obtain rfl : 4 = limit := by simpa using hlimit
      decide
    · intro v hv
      simp only [mem_cons, not_mem_nil, or_false] at hv
      rcases hv with rfl | rfl
      · refine .sequence (by simp [WithinBound]) fun v hv ↦ ?_
        obtain rfl := mem_singleton.mp hv
        exact .short (-1)
      · exact .sequence (by simp [WithinBound]) (by simp)
  obtain ⟨decoded, counts', hdecode, hvalues⟩ :=
    harguments ⟨[putOperation], [["Table"]]⟩ putOperation rfl htypes
  exact ⟨frame, message, parsed, counts, decoded, counts', hframe, hparse, hread, hdecode, hvalues⟩

end Bhf.Iiop
