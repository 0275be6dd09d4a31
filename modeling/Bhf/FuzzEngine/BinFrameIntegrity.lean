import Bhf.FuzzEngine.BinFrameLayout

/-!
# What the fix-up pass repairs

The fix-up pass writes lengths and offsets, then the checksums in declaration order, each from the
bytes that are there at its turn. Lengths and offsets do not read the buffer and are always right
afterwards. A checksum is right afterwards when nothing it covers was still to be written, that is,
when it **covers neither itself nor a checksum declared later** (`settled_checksum_of_not_covered`).
Under that ordering the pass repairs every buffer of the right length, is idempotent and leaves the
data alone.

`encode` does not ask for the ordering. For the other descriptors the question is what a checksum
sees: at its turn zeros stand where it and its successors are going to be written, in the finished
frame their digests. `Message.contentsAfter` follows the contents of the fields through the second
pass, without buffer and byte ranges, and the frame passes its own gate exactly when no checksum
notices the difference.
-/

namespace Bhf.FuzzEngine.BinFrame

open List BinFrame.Field PendingDerivation Patch EncodedMessage Message Bhf.Span WellFormed

open StateExcept (Runs exec)

/-! ### Checksums in declaration order -/

def Field.isChecksum : Field → Bool
  | .checksum .. => true
  | _ => false

/-- The names a checksum covers. -/
def Field.checksumCovers : Field → List String
  | .checksum _ _ _ covers => covers
  | _ => []

/-- The checksum derivation of a field, if it is a checksum. -/
def Field.checksums (spans : List (String × Span)) (f : Field) : List PendingDerivation :=
  (f.derived spans).filter fun d ↦ d.isChecksum

/-- The data of a field at `s`: a payload, or the tag and the value of a record. -/
def Field.dataSpans (s : Span) : Field → List Span
  | .bytes .. => [s]
  | .tlv _ _ tagWidth lenWidth _ _ =>
    [⟨s.start, s.start + tagWidth.size⟩, ⟨s.start + tagWidth.size + lenWidth.size, s.stop⟩]
  | .length .. | .checksum .. | .offset .. => []

namespace Message

variable {m : Message}

/-- Checksums cover data, lengths, offsets and checksums declared earlier. -/
structure CoversOrdered (m : Message) : Prop where
  /-- No checksum covers itself. -/
  self : ∀ f ∈ m.fields, f.isChecksum → f.name ∉ f.checksumCovers
  /-- None covers a later one. -/
  later : m.fields.Pairwise fun f g ↦ g.isChecksum → g.name ∉ f.checksumCovers

/-- The derivations of the first pass. -/
def firstPass (m : Message) : List PendingDerivation :=
  m.derivations.filter fun d ↦ !d.isChecksum

theorem filter_isChecksum_derivations (m : Message) :
    (m.derivations.filter fun d ↦ d.isChecksum) = m.fields.flatMap (checksums m.spans) := by
  have htlv : ∀ p : Field × Span,
      (p.1.tlvLengths p.2.start).filter (fun d ↦ d.isChecksum) = [] := by
    rintro ⟨_ | _ | _ | _ | _, s⟩ <;> rfl
  rw [derivations, filter_append, filter_flatMap, filter_flatMap,
    flatMap_eq_nil_iff.2 fun p _ ↦ htlv p]
  rfl

theorem passOrder_derivations (m : Message) :
    passOrder m.derivations = m.firstPass ++ m.fields.flatMap (checksums m.spans) := by
  rw [passOrder, filter_isChecksum_derivations, firstPass]

/-- The derivation of a checksum field. -/
def checksumOf (m : Message) (name : String) (kind : ChecksumKind) (endian : Endian)
    (covers : List String) : PendingDerivation :=
  .checksum (spanOf m.spans name) kind endian (covers.map (spanOf m.spans))

variable {name : String} {kind : ChecksumKind} {endian : Endian} {covers : List String}
  {g : Field}

/-- A checksum stands in the pass order after the first pass and the checksums before it. -/
theorem passOrder_split {before after : List Field}
    (h : m.fields = before ++ .checksum name kind endian covers :: after) :
    passOrder m.derivations = (m.firstPass ++ before.flatMap (checksums m.spans)) ++
      m.checksumOf name kind endian covers :: after.flatMap (checksums m.spans) := by
  rw [passOrder_derivations, h, flatMap_append, append_assoc]
  rfl

variable {d : PendingDerivation} {p : Field × Span} {t : Span} {buf : Bytes}

theorem mem_checksums_iff : d ∈ g.checksums m.spans ↔ ∃ name kind endian covers,
    g = .checksum name kind endian covers ∧ d = m.checksumOf name kind endian covers := by
  cases g <;> simp [checksums, derived, PendingDerivation.isChecksum, checksumOf]

/-- Every checksum derivation is that of a declared field. -/
theorem exists_split_of_isChecksum (hd : d ∈ m.derivations) (hcheck : d.isChecksum) :
    ∃ before after name kind endian covers,
      m.fields = before ++ .checksum name kind endian covers :: after ∧
        d = m.checksumOf name kind endian covers := by
  have hmem : d ∈ m.fields.flatMap (Field.checksums m.spans) := by
    rw [← filter_isChecksum_derivations]
    exact mem_filter.2 ⟨hd, hcheck⟩
  obtain ⟨f, hf, hdf⟩ := mem_flatMap.1 hmem
  obtain ⟨before, after, hsplit⟩ := append_of_mem hf
  obtain ⟨name, kind, endian, covers, rfl, rfl⟩ := mem_checksums_iff.1 hdf
  exact ⟨before, after, name, kind, endian, covers, hsplit, rfl⟩

/-- The output of a checksum field's derivation is the field's place. -/
theorem WellFormed.out_of_mem_checksums (hm : m.WellFormed) (hg : g ∈ m.fields)
    (hd : d ∈ g.checksums m.spans) :
    g.isChecksum ∧ ∃ p ∈ m.places, p.1 = g ∧ d.out = p.2 := by
  obtain ⟨s, hp⟩ := exists_mem_places hg
  obtain ⟨name, kind, endian, covers, rfl, rfl⟩ := mem_checksums_iff.1 hd
  exact ⟨rfl, _, hp, rfl, hm.spanOf_name hp⟩

/-! ### What is settled after a fix-up -/

section Settled

variable {buf : Bytes} {before after : List PendingDerivation} {d : PendingDerivation}

/-- The run of the fix-up pass, cut at one derivation. -/
theorem settle_eq_run (h : passOrder m.derivations = before ++ d :: after) (buf : Bytes) :
    settle m.derivations buf =
      run (before.map patch ++ d.patch :: after.map patch) buf := by
  rw [settle, h, map_append, map_cons]

theorem WellFormed.compatible_split (hm : m.WellFormed)
    (h : passOrder m.derivations = before ++ d :: after) :
    Patch.Compatible m.size (before.map patch ++ d.patch :: after.map patch) := by
  have hcompatible := hm.compatible_passOrder
  rwa [h, map_append] at hcompatible

/-- A derivation that reads neither its own output nor a later one is settled. -/
theorem WellFormed.settled_of_ignores (hm : m.WellFormed) (hbuf : buf.length = m.size)
    (h : passOrder m.derivations = before ++ d :: after)
    (hd : ∀ d' ∈ d :: after, d.patch.Ignores m.size d'.out) :
    d.patch.Settled (settle m.derivations buf) := by
  rw [settle_eq_run h]
  exact settled_run_of_ignores (hm.compatible_split h) hbuf (map_cons ▸ forall_mem_map.2 hd)

/-- Lengths and offsets are settled by every fix-up. -/
theorem WellFormed.settled_of_not_checksum (hm : m.WellFormed) (hbuf : buf.length = m.size)
    (hd : d ∈ m.derivations) (hcheck : d.isChecksum = false) :
    d.patch.Settled (settle m.derivations buf) := by
  obtain ⟨before, after, h⟩ := append_of_mem (mem_passOrder.2 hd)
  exact hm.settled_of_ignores hbuf h fun d' _ ↦ ignores_of_not_checksum hcheck _ _

/-- A checksum that covers neither itself nor a later one is settled by every fix-up. -/
theorem WellFormed.settled_checksum_of_not_covered (hm : m.WellFormed) (hbuf : buf.length = m.size)
    {before after : List Field} {name : String} {kind : ChecksumKind} {endian : Endian}
    {covers : List String} (h : m.fields = before ++ .checksum name kind endian covers :: after)
    (hcover : ∀ g ∈ .checksum name kind endian covers :: after,
      g.isChecksum → g.name ∉ covers) :
    (m.checksumOf name kind endian covers).patch.Settled (settle m.derivations buf) := by
  have hmem : ∀ g ∈ .checksum name kind endian covers :: after, g ∈ m.fields := fun g hg ↦ by
    rw [h]
    exact mem_append_right before hg
  refine hm.settled_of_ignores hbuf (passOrder_split h) fun d' hd' ↦ ?_
  -- The derivation and its successors are those of the field and its successors.
  obtain ⟨g, hg, hd'g⟩ : ∃ g ∈ .checksum name kind endian covers :: after,
      d' ∈ g.checksums m.spans := mem_flatMap.1
        (show d' ∈ (checksum name kind endian covers :: after).flatMap (checksums m.spans) from hd')
  obtain ⟨hcheck, p, hp, rfl, hout⟩ := hm.out_of_mem_checksums (hmem g hg) hd'g
  refine ignores_of_disjoint fun range hrange ↦ ?_
  obtain ⟨c, hc, rfl⟩ := mem_map.1 hrange
  obtain ⟨q, hq, rfl, hspan⟩ := hm.exists_place (hmem _ mem_cons_self)
    (show c ∈ (checksum name kind endian covers).references from hc)
  rw [hspan, hout]
  refine disjoint_of_mem_places hp hq fun hpq ↦ hcover _ hg hcheck ?_
  rw [hpq]
  exact hc

/-- Under the ordering a fix-up settles everything, whatever the buffer holds. -/
theorem WellFormed.settled_of_coversOrdered (hm : m.WellFormed) (hcovers : m.CoversOrdered)
    (hbuf : buf.length = m.size) (hd : d ∈ m.derivations) :
    d.patch.Settled (settle m.derivations buf) := by
  cases hcheck : d.isChecksum with
  | false => exact hm.settled_of_not_checksum hbuf hd hcheck
  | true =>
    obtain ⟨before, after, name, kind, endian, covers, h, rfl⟩ :=
      exists_split_of_isChecksum hd hcheck
    have hlater := hcovers.later
    rw [h, pairwise_append, pairwise_cons] at hlater
    have hself := hcovers.self (.checksum name kind endian covers) (by rw [h]; simp)
    refine hm.settled_checksum_of_not_covered hbuf h fun g hg hcheck ↦ ?_
    rcases mem_cons.1 hg with rfl | hg
    · exact hself hcheck
    · exact hlater.2.1.1 g hg hcheck

end Settled

/-! ### What a fix-up leaves alone -/

/-- Where a record ends. -/
theorem stop_record {name : String} {tag : UInt32} {tagWidth lenWidth : IntWidth} {endian : Endian}
    {value : Bytes} {s : Span}
    (hp : (.tlv name tag tagWidth lenWidth endian value, s) ∈ m.places) :
    s.stop = s.start + (tagWidth.size + lenWidth.size + value.length) := by
  simpa [Field.size, Field.placeholder, add_assoc] using stop_of_mem_places hp

/-- Data lies in its field. -/
theorem within_of_mem_dataSpans (hp : p ∈ m.places) (ht : t ∈ p.1.dataSpans p.2) :
    t.Within p.2 := by
  obtain ⟨f, s⟩ := p
  cases f with
  | bytes =>
    obtain rfl := mem_singleton.1 ht
    exact Span.Within.refl _
  | tlv name tag tagWidth lenWidth endian value =>
    have hstop := stop_record hp
    rcases mem_pair.1 ht with rfl | rfl
    · exact ⟨le_refl _, show s.start + tagWidth.size ≤ s.stop by omega⟩
    · exact ⟨show s.start ≤ s.start + tagWidth.size + lenWidth.size by omega, le_refl _⟩
  | length | checksum | offset => simp [Field.dataSpans] at ht

/-- No derivation writes to data. -/
theorem WellFormed.out_disjoint_data (hm : m.WellFormed) (hp : p ∈ m.places)
    (ht : t ∈ p.1.dataSpans p.2) (hd : d ∈ m.derivations) : d.out.Disjoint t := by
  obtain ⟨q, hq, hdq⟩ := mem_derivations_iff.1 hd
  by_cases hqp : q = p
  · -- The field's own derivation: only a record has both data and a derivation.
    subst hqp
    obtain ⟨f, s⟩ := q
    cases f with
    | tlv name tag tagWidth lenWidth endian value =>
      obtain rfl : d = _ := by simpa [derivationsOf, tlvLengths, derived] using hdq
      rcases mem_pair.1 ht with rfl | rfl
      · exact .inr (le_refl _)
      · exact .inl (le_refl _)
    | bytes => simp [derivationsOf, tlvLengths, derived] at hdq
    | length | checksum | offset => simp [dataSpans] at ht
  · exact (hm.out_disjoint hq hp hqp hdq).within (Span.Within.refl _)
      (within_of_mem_dataSpans hp ht)

theorem WellFormed.fills_of_mem (hm : m.WellFormed) {ds : List PendingDerivation}
    (hds : ∀ d ∈ ds, d ∈ m.derivations) :
    ∀ patch ∈ ds.map PendingDerivation.patch, patch.Fills m.size :=
  forall_mem_map.2 fun d hd ↦ (hm.sized (hds d hd)).fills

theorem WellFormed.length_settle (hm : m.WellFormed) (hbuf : buf.length = m.size) :
    (settle m.derivations buf).length = m.size :=
  length_run (hm.fills_of_mem fun _ ↦ mem_passOrder.1) hbuf

/-- Under the ordering a second fix-up finds nothing to do. -/
theorem WellFormed.settle_settle (hm : m.WellFormed) (hcovers : m.CoversOrdered)
    (hbuf : buf.length = m.size) :
    settle m.derivations (settle m.derivations buf) = settle m.derivations buf := by
  have hlen := hm.length_settle hbuf
  refine run_eq_self_of_settled (fun patch hpatch ↦ ?_) (forall_mem_map.2 fun d hd ↦ ?_)
  · rw [hlen]
    exact (hm.fills_of_mem (fun _ ↦ mem_passOrder.1) patch hpatch).fitsIn
  · exact hm.settled_of_coversOrdered hcovers hbuf (mem_passOrder.1 hd)

end Message

/-! ### Repair after a mutation -/

/-- What mutators do to an encoded message: they set the bytes of fields, or overwrite the buffer
without changing its length. -/
inductive EncodedMessage.Mutated (e : EncodedMessage) : EncodedMessage → Prop
  | refl : Mutated e e
  | setFieldBytes {e₁ e₂ : EncodedMessage} {name : String} {value : Bytes} :
      Mutated e e₁ → Runs (EncodedMessage.setFieldBytes name value) e₁ () e₂ → Mutated e e₂
  | overwrite {e₁ : EncodedMessage} {buf : Bytes} :
      Mutated e e₁ → buf.length = e₁.bytes.length → Mutated e { e₁ with bytes := buf }

variable {e e' : EncodedMessage}

/-- A mutation keeps the layout. -/
theorem EncodedMessage.Mutated.layout {m : Message} (h : e.Mutated e') (hspans : e.spans = m.spans)
    (hlen : e.bytes.length = m.size) :
    e'.spans = m.spans ∧ e'.derivations = e.derivations ∧ e'.bytes.length = m.size := by
  induction h with
  | refl => exact ⟨hspans, rfl, hlen⟩
  | overwrite _ hbuf ih => exact ⟨ih.1, ih.2.1, hbuf.trans ih.2.2⟩
  | @setFieldBytes e₁ e₂ name value _ hset ih =>
    obtain ⟨hspans₁, hderivations₁, hlen₁⟩ := ih
    rw [Runs, EncodedMessage.setFieldBytes, StateExcept.exec_get_bind] at hset
    split at hset
    · simp at hset
    next s hs =>
    split at hset
    · simp at hset
    next hvalue =>
    obtain rfl := (Prod.mk.inj hset).2
    refine ⟨hspans₁, hderivations₁, ?_⟩
    obtain ⟨p, hp, hsp⟩ : ∃ p ∈ m.places, s = p.2 := by
      rw [span, hspans₁] at hs
      obtain ⟨l, r, hsplit, -⟩ := lookup_eq_some_iff.1 hs
      obtain ⟨p, hp, hps⟩ := mem_map.1 (show (name, s) ∈ m.spans by rw [hsplit]; simp)
      exact ⟨p, hp, (Prod.mk.inj hps).2.symm⟩
    subst hsp
    exact (length_overwrite (hlen₁ ▸ fitsIn_of_mem_places hp) (not_not.1 hvalue)).trans hlen₁

/-- **Fix-up repairs every mutation that keeps the length and touches nothing else.** If checksums
cover only fields settled before them, the fix-up of a mutated message succeeds, the result passes
the gate, a second fix-up changes nothing, and outside the derivations' outputs, in particular in
payloads, tags and values, the bytes are those of the mutation. -/
theorem fixupInPlace_repairs_mutated {m : Message} {e e' : EncodedMessage} (he : m.encode = .ok e)
    (hcovers : m.CoversOrdered) (hmutated : e.Mutated e') :
    ∃ e'', Runs EncodedMessage.fixupInPlace e' () e'' ∧ e''.verify = true ∧
      Runs EncodedMessage.fixupInPlace e'' () e'' ∧
      (∀ i, (∀ d ∈ e.derivations, i < d.out.start ∨ d.out.stop ≤ i) →
        e''.bytes[i]? = e'.bytes[i]?) ∧
      ∀ f ∈ m.fields, ∀ s, e.span f.name = some s → ∀ t ∈ f.dataSpans s,
        t.slice e''.bytes = t.slice e'.bytes := by
  obtain ⟨hm, rfl⟩ := encode_eq_ok he
  obtain ⟨-, hderivations, hlen⟩ := hmutated.layout rfl (hm.length_settle rfl)
  have hfixup (bytes : Bytes) : Runs fixupInPlace { e' with bytes := bytes } ()
      { e' with bytes := settle m.derivations bytes } :=
    runs_fixupInPlace_iff.2 ⟨by rw [hderivations]; exact hm.fits, by rw [hderivations]⟩
  refine ⟨{ e' with bytes := settle m.derivations e'.bytes }, hfixup e'.bytes, ?_, ?_, ?_, ?_⟩
  · rw [verify_iff]
    · rw [hderivations]
      exact fun d hd ↦ hm.settled_of_coversOrdered hcovers hlen hd
    · rw [hderivations, hm.length_settle hlen]
      exact hm.wellSized
  · have hsecond := hfixup (settle m.derivations e'.bytes)
    rwa [hm.settle_settle hcovers hlen] at hsecond
  · exact fun i hi ↦ getElem?_run_of_outside (hm.fills_of_mem fun _ ↦ mem_passOrder.1) hlen
      (forall_mem_map.2 fun d hd ↦ hi d (mem_passOrder.1 hd))
  · intro f hf s hs t ht
    obtain ⟨s', hp⟩ := exists_mem_places hf
    obtain rfl : s' = s := Option.some_inj.1 ((hm.lookup_name hp).symm.trans hs)
    exact slice_run_of_disjoint (hm.fills_of_mem fun _ ↦ mem_passOrder.1) hlen
      (forall_mem_map.2 fun _ hd ↦ hm.out_disjoint_data hp ht (mem_passOrder.1 hd))

/-- A frame whose checksum covers the length and the payload. -/
def checkedFrame : Message where
  fields := [.length "len" .u16 .big ["payload"], .bytes "payload" [1, 2, 3],
    .checksum "check" .xor8 .big ["len", "payload"]]

/-- The message that `checkedFrame` encodes to, with the payload and the checksum of choice. -/
def checkedFrameWith (payload : Bytes) (check : UInt8) : EncodedMessage where
  bytes := [0, 3] ++ payload ++ [check]
  spans := [("len", ⟨0, 2⟩), ("payload", ⟨2, 5⟩), ("check", ⟨5, 6⟩)]
  derivations := [.length ⟨0, 2⟩ .u16 .big [⟨2, 5⟩], .checksum ⟨5, 6⟩ .xor8 .big [⟨0, 2⟩, ⟨2, 5⟩]]

theorem fixupInPlace_repairs_checkedFrame : ∃ e,
    Runs EncodedMessage.fixupInPlace (checkedFrameWith [9, 9, 9] 3) () e ∧ e.verify = true := by
  have hcovers : checkedFrame.CoversOrdered := ⟨by decide +kernel, by decide +kernel⟩
  have hset : Runs (setFieldBytes "payload" [9, 9, 9]) (checkedFrameWith [1, 2, 3] 3)
      () (checkedFrameWith [9, 9, 9] 3) := rfl
  obtain ⟨e, hrun, hverify, -⟩ :=
    fixupInPlace_repairs_mutated (m := checkedFrame) rfl hcovers (.setFieldBytes .refl hset)
  exact ⟨e, hrun, hverify⟩

/-! ### The contents of the fields through the second pass -/

/-- The bytes of a field after the first pass: data, lengths and offsets are final, a checksum is
still zero. -/
def Field.content (spans : List (String × Span)) : Field → Bytes
  | .bytes _ value => value
  | .tlv _ tag tagWidth lenWidth endian value =>
    encodeUint tagWidth endian tag.toUInt64 ++
      encodeUint lenWidth endian (UInt64.ofNat value.length) ++ value
  | .length _ width endian covers =>
    encodeUint width endian (covers.map fun c ↦ UInt64.ofNat (spanOf spans c).len).sum
  | .checksum _ kind _ _ => List.replicate kind.outputWidth.size 0
  | .offset _ width endian target =>
    encodeUint width endian (UInt64.ofNat (spanOf spans target).start)

/-- Replace the content of a checksum by the digest of the contents it covers. -/
def Field.digest (contents : String → Bytes) : Field → String → Bytes
  | .checksum name kind endian covers =>
    Function.update contents name
      (encodeUint kind.outputWidth endian (kind.compute (covers.flatMap contents)))
  | _ => contents

namespace Message

/-- The contents of the fields, by name, after the first pass. -/
def initialContents (m : Message) (name : String) : Bytes :=
  ((m.fields.find? fun f ↦ f.name == name).map (Field.content m.spans)).getD []

/-- The contents of the fields once the checksums among `fs` are computed, in this order. -/
def contentsAfter (m : Message) (fs : List Field) : String → Bytes :=
  fs.foldl Field.digest m.initialContents

/-- **No checksum notices what is written after its turn.** A checksum that covers itself or one
declared later has the same digest over the contents at its turn, with zeros for those checksums,
as over the finished contents. -/
def DigestsSettle (m : Message) : Prop :=
  ∀ before name kind endian covers after,
    m.fields = before ++ .checksum name kind endian covers :: after →
      (∃ g ∈ .checksum name kind endian covers :: after, g.isChecksum = true ∧ g.name ∈ covers) →
        kind.compute (covers.flatMap (m.contentsAfter before)) =
          kind.compute (covers.flatMap (m.contentsAfter m.fields))

/-- The buffer holds these contents. -/
def Holds (m : Message) (contents : String → Bytes) (buf : Bytes) : Prop :=
  buf.length = m.size ∧ ∀ p ∈ m.places, p.2.slice buf = contents p.1.name

variable {m : Message} {f : Field} {d : PendingDerivation} {s : Span} {tag : UInt32}
  {tagWidth lenWidth : IntWidth} {value : Bytes} {kind : ChecksumKind} {covers : List String}

theorem WellFormed.initialContents_name (hm : m.WellFormed) (hf : f ∈ m.fields) :
    m.initialContents f.name = f.content m.spans := by
  obtain ⟨g, hg⟩ : ∃ g, m.fields.find? (fun g ↦ g.name == f.name) = some g :=
    Option.isSome_iff_exists.1 (find?_isSome.2 ⟨f, hf, beq_self_eq_true _⟩)
  have hname : g.name = f.name := by simpa using find?_some hg
  rw [initialContents, hg, hm.eq_of_name_eq (mem_of_find?_eq_some hg) hf hname]
  rfl

/-- The buffer between the two passes of the first fix-up. -/
def afterFirstPass (m : Message) : Bytes :=
  Patch.run (m.firstPass.map PendingDerivation.patch) m.placeholders

theorem mem_firstPass_iff : d ∈ m.firstPass ↔ d ∈ m.derivations ∧ d.isChecksum = false := by
  simp [firstPass]

theorem WellFormed.length_afterFirstPass (hm : m.WellFormed) : m.afterFirstPass.length = m.size :=
  length_run (hm.fills_of_mem fun _ hd ↦ (mem_firstPass_iff.1 hd).1) rfl

theorem WellFormed.slice_afterFirstPass_out (hm : m.WellFormed) (hd : d ∈ m.firstPass) :
    d.out.slice m.afterFirstPass = encodeUint d.width d.endian (d.value m.afterFirstPass) := by
  have hcompatible := hm.compatible_passOrder
  rw [passOrder_derivations, map_append] at hcompatible
  obtain ⟨before, after, hsplit⟩ := append_of_mem hd
  have hfirst := hcompatible.of_append_left
  rw [afterFirstPass]
  rw [hsplit, map_append] at hfirst ⊢
  exact settled_run_of_ignores hfirst rfl fun q _ ↦
    ignores_of_not_checksum (mem_firstPass_iff.1 hd).2 _ _

theorem WellFormed.slice_afterFirstPass_of_disjoint (hm : m.WellFormed) {t : Span}
    (ht : ∀ d ∈ m.firstPass, d.out.Disjoint t) :
    t.slice m.afterFirstPass = t.slice m.placeholders :=
  slice_run_of_disjoint (hm.fills_of_mem fun _ hd ↦ (mem_firstPass_iff.1 hd).1) rfl
    (forall_mem_map.2 ht)

variable {name : String} {endian : Endian} {buf : Bytes} {contents : String → Bytes}

/-- Cutting the place of a record into tag, length and value. -/
theorem slice_record (hp : (.tlv name tag tagWidth lenWidth endian value, s) ∈ m.places)
    (hbuf : buf.length = m.size) :
    s.slice buf = slice ⟨s.start, s.start + tagWidth.size⟩ buf ++
      (slice ⟨s.start + tagWidth.size, s.start + tagWidth.size + lenWidth.size⟩ buf ++
        slice ⟨s.start + tagWidth.size + lenWidth.size, s.stop⟩ buf) := by
  have hstop := stop_record hp
  have hle : s.stop ≤ m.size := stop_le_of_mem_places hp
  rw [Span.slice_append_slice (by omega) (by omega) _ (by omega),
    Span.slice_append_slice (by omega) (by omega) _ (by omega)]

/-- The data of a record in the placeholder buffer. -/
theorem slice_record_placeholders
    (hp : (.tlv name tag tagWidth lenWidth endian value, s) ∈ m.places) :
    slice ⟨s.start, s.start + tagWidth.size⟩ m.placeholders =
        encodeUint tagWidth endian tag.toUInt64 ∧
      slice ⟨s.start + tagWidth.size + lenWidth.size, s.stop⟩ m.placeholders = value := by
  have hstop := stop_record hp
  have hle : s.stop ≤ m.placeholders.length := stop_le_of_mem_places hp
  have hwhole := slice_placeholders hp
  rw [slice_record hp rfl, Field.placeholder, append_assoc] at hwhole
  have hlength (start n : ℕ) (h : start + n ≤ m.placeholders.length) :
      (slice ⟨start, start + n⟩ m.placeholders).length = n :=
    (length_slice ⟨start.le_add_right n, h⟩).trans (Nat.add_sub_cancel_left ..)
  obtain ⟨htag, hrest⟩ := append_inj hwhole (by rw [hlength _ _ (by omega), length_encodeUint])
  exact ⟨htag, (append_inj hrest (by rw [hlength _ _ (by omega), length_replicate])).2⟩

/-- The first pass turns placeholders into contents. -/
theorem WellFormed.holds_initialContents (hm : m.WellFormed) :
    m.Holds m.initialContents m.afterFirstPass := by
  refine ⟨hm.length_afterFirstPass, fun p hp ↦ ?_⟩
  have hspan := hm.spanOf_name hp
  rw [hm.initialContents_name (mem_fields_of_mem_places hp)]
  -- What is not derived is as it was placed; what is derived was written by the own derivation.
  have hdata {t : Span} (ht : t ∈ p.1.dataSpans p.2) :
      t.slice m.afterFirstPass = t.slice m.placeholders :=
    hm.slice_afterFirstPass_of_disjoint fun d hd ↦
      hm.out_disjoint_data hp ht (mem_firstPass_iff.1 hd).1
  have hown {d : PendingDerivation} (hd : d ∈ m.derivationsOf p) (hcheck : d.isChecksum = false) :
      d.out.slice m.afterFirstPass = encodeUint d.width d.endian (d.value m.afterFirstPass) :=
    hm.slice_afterFirstPass_out (mem_firstPass_iff.2 ⟨mem_derivations_iff.2 ⟨p, hp, hd⟩, hcheck⟩)
  obtain ⟨f, s⟩ := p
  cases f with
  | bytes name value => exact (hdata mem_cons_self).trans (slice_placeholders hp)
  | tlv name tag tagWidth lenWidth endian value =>
    have hlen : Span.slice ⟨s.start + tagWidth.size, s.start + tagWidth.size + lenWidth.size⟩
        m.afterFirstPass = encodeUint lenWidth endian (UInt64.ofNat
          (s.start + tagWidth.size + lenWidth.size + value.length -
            (s.start + tagWidth.size + lenWidth.size))) :=
      hown (mem_append_left _ mem_cons_self) rfl
    rw [Nat.add_sub_cancel_left] at hlen
    obtain ⟨htag, hvalue⟩ := slice_record_placeholders hp
    rw [slice_record hp hm.length_afterFirstPass, hdata (by simp [Field.dataSpans]), htag, hlen,
      hdata (by simp [Field.dataSpans]), hvalue, ← append_assoc]
    rfl
  | length name width endian covers =>
    have hvalue : (spanOf m.spans name).slice m.afterFirstPass = encodeUint width endian
        ((covers.map (spanOf m.spans)).map fun range ↦ UInt64.ofNat range.len).sum :=
      hown (mem_append_right _ mem_cons_self) rfl
    rw [map_map] at hvalue
    rw [← hspan]
    exact hvalue
  | checksum name kind endian covers =>
    -- No derivation of the first pass writes to a checksum.
    have hkept : s.slice m.afterFirstPass = s.slice m.placeholders := by
      refine hm.slice_afterFirstPass_of_disjoint fun d hd ↦ ?_
      obtain ⟨hmem, hcheck⟩ := mem_firstPass_iff.1 hd
      obtain ⟨q, hq, hdq⟩ := mem_derivations_iff.1 hmem
      refine hm.out_disjoint hq hp (fun hqp ↦ ?_) hdq
      rw [hqp] at hdq
      obtain rfl := mem_singleton.1 hdq
      simp [PendingDerivation.isChecksum] at hcheck
    exact hkept.trans (slice_placeholders hp)
  | offset name width endian target =>
    have hvalue : (spanOf m.spans name).slice m.afterFirstPass =
        encodeUint width endian (UInt64.ofNat (spanOf m.spans target).start) :=
      hown (mem_append_right _ mem_cons_self) rfl
    rw [← hspan]
    exact hvalue

/-- Reading the cover of a checksum in a buffer reads the contents it holds. -/
theorem Holds.data_checksumOf (hbuf : m.Holds contents buf) (hm : m.WellFormed)
    (hf : .checksum name kind endian covers ∈ m.fields) :
    (m.checksumOf name kind endian covers).patch.data buf =
      encodeUint kind.outputWidth endian (kind.compute (covers.flatMap contents)) := by
  have hslices : covers.map (fun c ↦ (spanOf m.spans c).slice buf) = covers.map contents := by
    refine map_congr_left fun c hc ↦ ?_
    obtain ⟨p, hp, rfl, hspan⟩ := hm.exists_place hf hc
    rw [hspan, hbuf.2 p hp]
  show encodeUint kind.outputWidth endian
    (kind.compute ((covers.map (spanOf m.spans)).flatMap fun range ↦ range.slice buf)) = _
  rw [flatMap_map, flatMap_def, flatMap_def, hslices]

/-- **One step of the second pass**: writing a checksum into the buffer replaces its content. -/
theorem Holds.step (hbuf : m.Holds contents buf) (hm : m.WellFormed) (hf : f ∈ m.fields) :
    m.Holds (f.digest contents) (run ((f.checksums m.spans).map patch) buf) := by
  cases f with
  | checksum name kind endian covers =>
    obtain ⟨s, hp⟩ := exists_mem_places hf
    have hd : m.checksumOf name kind endian covers ∈ m.derivations :=
      mem_derivations_iff.2 ⟨_, hp, mem_append_right _ mem_cons_self⟩
    have hfills := (hm.sized hd).fills
    have hout : (m.checksumOf name kind endian covers).patch.out = s := hm.spanOf_name hp
    have hdata := hbuf.data_checksumOf hm hf
    have hfits := hbuf.1 ▸ hfills.fitsIn
    have hlen := hfills.length_data buf hbuf.1
    rw [hout] at hfits hlen
    refine ⟨length_apply hfills hbuf.1, fun q hq ↦ ?_⟩
    show q.2.slice ((m.checksumOf name kind endian covers).patch.apply buf) =
      Function.update contents name _ q.1.name
    rw [← hdata, apply, hout]
    -- Only the own place is written; every other place is disjoint from it.
    by_cases hqp : q = (.checksum name kind endian covers, s)
    · rw [hqp, slice_overwrite_self hfits hlen]
      exact (Function.update_self name _ contents).symm
    · have hname : q.1.name ≠ name := fun hname ↦ hqp (by
        have hfield := hm.eq_of_name_eq (mem_fields_of_mem_places hq) hf hname
        have hspan := hm.spanOf_name hq
        rw [hfield, hm.spanOf_name hp] at hspan
        exact Prod.ext hfield hspan.symm)
      rw [Function.update_of_ne hname, ← hbuf.2 q hq]
      exact slice_overwrite_of_disjoint hfits hlen (disjoint_of_mem_places hp hq (Ne.symm hqp))
  | bytes | tlv | length | offset => exact hbuf

/-- The second pass over the buffer follows the contents. -/
theorem Holds.run (hbuf : m.Holds contents buf) (hm : m.WellFormed) {fs : List Field}
    (hfs : ∀ f ∈ fs, f ∈ m.fields) :
    m.Holds (fs.foldl digest contents) (run ((fs.flatMap (checksums m.spans)).map patch) buf) := by
  induction fs generalizing contents buf with
  | nil => exact hbuf
  | cons f fs ih =>
    rw [flatMap_cons, map_append, run_append]
    exact ih (hbuf.step hm (hfs f mem_cons_self)) fun g hg ↦ hfs g (mem_cons_of_mem f hg)

/-- The buffer once the checksums among `fs` are written. -/
theorem WellFormed.holds_contentsAfter (hm : m.WellFormed) (fs : List Field)
    (hfs : ∀ f ∈ fs, f ∈ m.fields) :
    m.Holds (m.contentsAfter fs)
      (run ((m.firstPass ++ fs.flatMap (checksums m.spans)).map patch) m.placeholders) := by
  rw [map_append, run_append]
  exact hm.holds_initialContents.run hm hfs

theorem encodeUint_inj {width : IntWidth} {v v' : UInt64} (hv : v ≤ width.maxValue)
    (hv' : v' ≤ width.maxValue) :
    encodeUint width endian v = encodeUint width endian v' ↔ v = v' := by
  refine ⟨fun h ↦ ?_, fun h ↦ by rw [h]⟩
  have hvalue := congrArg endian.value h
  rw [encodeUint, encodeUint, endian.value_bytes ((width.le_maxValue_iff v).1 hv),
    endian.value_bytes ((width.le_maxValue_iff v').1 hv')] at hvalue
  exact UInt64.toNat_inj.1 hvalue

/-- A checksum of a fresh encoding is settled exactly when its digest at its turn is its digest in
the end. -/
theorem WellFormed.settled_checksum_iff (hm : m.WellFormed) {before after : List Field}
    (h : m.fields = before ++ .checksum name kind endian covers :: after) :
    (m.checksumOf name kind endian covers).patch.Settled (settle m.derivations m.placeholders) ↔
      kind.compute (covers.flatMap (m.contentsAfter before)) =
        kind.compute (covers.flatMap (m.contentsAfter m.fields)) := by
  have hf : .checksum name kind endian covers ∈ m.fields := by
    rw [h]
    simp
  have hbefore := hm.holds_contentsAfter before fun f hf ↦ by
    rw [h]
    exact mem_append_left _ hf
  have hall := hm.holds_contentsAfter m.fields fun f hf ↦ hf
  rw [← passOrder_derivations] at hall
  have hsettled := settled_run_iff (hm.compatible_split (passOrder_split h))
    (show m.placeholders.length = m.size from rfl)
  rw [← settle_eq_run (passOrder_split h)] at hsettled
  rw [hsettled, hbefore.data_checksumOf hm hf, settle, hall.data_checksumOf hm hf,
    encodeUint_inj (compute_le_maxValue ..) (compute_le_maxValue ..)]

end Message

/-- **When an encoded frame passes its own gate**: exactly when no checksum notices what was written
after its turn. In particular always if checksums cover neither themselves nor later ones. -/
theorem encode_verify_iff {m : Message} {e : EncodedMessage} (he : m.encode = .ok e) :
    (e.verify = true ∧ e.verifyBytes e.bytes = true) ↔ m.DigestsSettle := by
  obtain ⟨hm, rfl⟩ := encode_eq_ok he
  have hlen : (settle m.derivations m.placeholders).length = m.size := hm.length_settle rfl
  rw [verifyBytes_self, and_self, verify_iff (hlen ▸ hm.wellSized)]
  constructor
  · intro hsettled before name kind endian covers after h _
    obtain ⟨s, hp⟩ := exists_mem_places (m := m)
      (f := .checksum name kind endian covers) (by rw [h]; simp)
    refine (hm.settled_checksum_iff h).1 (hsettled _ (mem_derivations_iff.2
      ⟨_, hp, mem_append_right _ mem_cons_self⟩))
  · intro hdigests d hd
    cases hcheck : d.isChecksum with
    | false => exact hm.settled_of_not_checksum rfl hd hcheck
    | true =>
      obtain ⟨before, after, name, kind, endian, covers, h, rfl⟩ :=
        exists_split_of_isChecksum hd hcheck
      by_cases hcover : ∃ g ∈ .checksum name kind endian covers :: after,
          g.isChecksum = true ∧ g.name ∈ covers
      · exact (hm.settled_checksum_iff h).2 (hdigests _ _ _ _ _ _ h hcover)
      · refine hm.settled_checksum_of_not_covered rfl h fun g hg hcheck hmem ↦ ?_
        exact hcover ⟨g, hg, hcheck, hmem⟩

/-- A checksum in the header over the checksum in the trailer: a plain descriptor, but the header
comes first and is computed while the trailer is still zero. -/
def headerOverTrailer (payload : UInt8) : Message where
  fields := [.checksum "head" .sum8 .big ["tail"], .bytes "payload" [payload],
    .checksum "tail" .sum8 .big ["payload"]]

/-- Where the trailer stays zero, the header does not notice. -/
theorem encode_headerOverTrailer_verify : ∃ e, (headerOverTrailer 0).encode = .ok e ∧
    e.verify = true ∧ e.verifyBytes e.bytes = true := by
  have hsettle : (headerOverTrailer 0).DigestsSettle := by
    intro before name kind endian covers after h _
    rcases before with - | ⟨f, - | ⟨g, - | ⟨f', before⟩⟩⟩
    · obtain ⟨⟩ := h
      decide +kernel
    · simp [headerOverTrailer] at h
    · obtain ⟨⟩ := h
      decide +kernel
    · simp [headerOverTrailer] at h
  exact ⟨⟨[0, 0, 0], _, _⟩, rfl, (encode_verify_iff rfl).2 hsettle⟩

theorem encode_headerOverTrailer_not_verify : ∃ e, (headerOverTrailer 1).encode = .ok e ∧
    ¬(e.verify = true ∧ e.verifyBytes e.bytes = true) :=
  ⟨⟨[0, 1, 1], _, _⟩, rfl, by decide +kernel⟩

end Bhf.FuzzEngine.BinFrame
