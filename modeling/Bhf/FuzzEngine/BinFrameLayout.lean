import Mathlib.Data.List.Pairwise
import Bhf.FuzzEngine.BinFrameFixup

/-!
# The layout of an encoded message

`Message.encode` builds bytes, spans and derivations in two loops. This module replaces the loops by
a closed form read off the descriptor: the fields stand one after the other (`Message.places`), each
writes its placeholder bytes, and each contributes at most one derivation, whose output lies in the
field's own range. `encode_eq_ok` is the inversion of a successful encoding.

What the fix-up needs then follows from **the fields not overlapping**: field names are distinct, so
a reference resolves to the place of its field, and the derivations' outputs are disjoint ranges of
the buffer (`compatible_passOrder`).
-/

namespace Bhf.FuzzEngine.BinFrame

open List BinFrame.Field Except Layout

open StateExcept (Runs exec)

/-! ### The closed form -/

/-- The bytes that the layout loop writes for a field. -/
def Field.placeholder : Field → Bytes
  | .bytes _ value => value
  | .tlv _ tag tagWidth lenWidth endian value =>
    encodeUint tagWidth endian tag.toUInt64 ++ List.replicate lenWidth.size 0 ++ value
  | .length _ width _ _ | .offset _ width _ _ => List.replicate width.size 0
  | .checksum _ kind _ _ => List.replicate kind.outputWidth.size 0

def Field.size (f : Field) : ℕ :=
  f.placeholder.length

/-- The fields with their byte ranges, laid out from position `start` on. -/
def placesFrom : ℕ → List Field → List (Field × Span)
  | _, [] => []
  | start, f :: fs => (f, ⟨start, start + f.size⟩) :: placesFrom (start + f.size) fs

/-- The length of a tag-length-value record that starts at `start`. -/
def Field.tlvLengths (start : ℕ) : Field → List PendingDerivation
  | .tlv _ _ tagWidth lenWidth endian value =>
    let lenStart := start + tagWidth.size
    let valueStart := lenStart + lenWidth.size
    [.tlvLength ⟨lenStart, valueStart⟩ lenWidth endian ⟨valueStart, valueStart + value.length⟩]
  | _ => []

/-- The names a derived field refers to. -/
def Field.references : Field → List String
  | .length _ _ _ covers | .checksum _ _ _ covers => covers
  | .offset _ _ _ target => [target]
  | .bytes .. | .tlv .. => []

/-- The derivation of a derived field whose references are all known. -/
def Field.derived (spans : List (String × Span)) : Field → List PendingDerivation
  | .length name width endian covers =>
    [.length (spanOf spans name) width endian (covers.map (spanOf spans))]
  | .checksum name kind endian covers =>
    [.checksum (spanOf spans name) kind endian (covers.map (spanOf spans))]
  | .offset name width endian target =>
    [.offset (spanOf spans name) width endian (spanOf spans target).start]
  | .bytes .. | .tlv .. => []

namespace Message

def places (m : Message) : List (Field × Span) :=
  placesFrom 0 m.fields

def spans (m : Message) : List (String × Span) :=
  m.places.map fun p ↦ (p.1.name, p.2)

/-- The buffer before the first fix-up. -/
def placeholders (m : Message) : Bytes :=
  m.fields.flatMap Field.placeholder

def size (m : Message) : ℕ :=
  m.placeholders.length

def derivations (m : Message) : List PendingDerivation :=
  (m.places.flatMap fun p ↦ p.1.tlvLengths p.2.start) ++ m.fields.flatMap (Field.derived m.spans)

/-- What `encode` checks, apart from the length limit. -/
structure WellFormed (m : Message) : Prop where
  /-- Names are distinct. -/
  nodup : (m.fields.map Field.name).Nodup
  /-- Fields refer to fields. -/
  references : ∀ f ∈ m.fields, ∀ r ∈ f.references, r ∈ m.fields.map Field.name
  /-- Lengths and offsets fit their widths. -/
  fits : ∀ d ∈ m.derivations, d.Fits

end Message

/-! ### The layout loop -/

variable {spans : List (String × Span)} {l : Layout} {f : Field}

theorem lookup_isSome_iff {name : String} :
    (spans.lookup name).isSome ↔ name ∈ spans.map Prod.fst := by
  simp [List.lookup_isSome_iff]

theorem Layout.write_eq_ok {r : Bytes × List PendingDerivation} (h : l.write f = .ok r) :
    r = (l.bytes ++ f.placeholder, l.pending ++ f.tlvLengths l.bytes.length) := by
  cases f with
  | tlv name tag tagWidth lenWidth endian value =>
    obtain ⟨bytes, hbytes, hr⟩ := ok_of_bind h
    rw [writeUintVec] at hbytes
    split at hbytes
    · simp [Except.mapError] at hbytes
    · obtain rfl : l.bytes ++ encodeUint tagWidth endian tag.toUInt64 = bytes := by
        simpa [Except.mapError] using hbytes
      simpa [Except.pure, pure, Field.placeholder, Field.tlvLengths, add_assoc] using hr.symm
  | bytes | length | checksum | offset =>
    simpa [Layout.write, Except.pure, pure, Field.placeholder, Field.tlvLengths] using h.symm

theorem Layout.place_eq_ok {l' : Layout} (h : l.place f = .ok l') :
    f.name ∉ l.spans.map Prod.fst ∧
      l' = ⟨l.bytes ++ f.placeholder,
        l.spans ++ [(f.name, ⟨l.bytes.length, l.bytes.length + f.size⟩)],
        l.pending ++ f.tlvLengths l.bytes.length⟩ := by
  rw [place] at h
  split at h
  · simp at h
  · next hfresh =>
    obtain ⟨r, hr, hl'⟩ := ok_of_bind h
    rw [write_eq_ok hr] at hl'
    refine ⟨fun hmem ↦ hfresh (lookup_isSome_iff.2 hmem), ?_⟩
    simpa [Except.pure, pure, size] using hl'.symm

/-- The layout loop places the fields one after the other and refuses a name it has seen. -/
theorem foldlM_place_eq_ok {fs : List Field} {l' : Layout} (h : fs.foldlM Layout.place l = .ok l')
    (hl : (l.spans.map Prod.fst).Nodup) :
    (l.spans.map Prod.fst ++ fs.map name).Nodup ∧
      l' = ⟨l.bytes ++ fs.flatMap placeholder,
        l.spans ++ (placesFrom l.bytes.length fs).map fun p ↦ (p.1.name, p.2),
        l.pending ++ (placesFrom l.bytes.length fs).flatMap fun p ↦ p.1.tlvLengths p.2.start⟩ := by
  induction fs generalizing l with
  | nil =>
    obtain rfl : l = l' := by simpa [pure, Except.pure] using h
    simpa [placesFrom] using hl
  | cons f fs ih =>
    obtain ⟨l₁, hplace, hrest⟩ := ok_of_bind h
    obtain ⟨hfresh, rfl⟩ := place_eq_ok hplace
    have hl₁ : ((l.spans ++
        [(f.name, (⟨l.bytes.length, l.bytes.length + f.size⟩ : Span))]).map Prod.fst).Nodup := by
      rw [map_append]
      exact hl.append (nodup_singleton _) (disjoint_singleton.2 hfresh)
    obtain ⟨hnodup, rfl⟩ := ih hrest hl₁
    refine ⟨by simpa using hnodup, ?_⟩
    simp [placesFrom, size]

/-! ### Resolving references -/

theorem resolveCovers_eq_ok {field : String} {covers : List String} {ranges : List Span}
    (h : resolveCovers field covers spans = .ok ranges) :
    ranges = covers.map (spanOf spans) ∧ ∀ r ∈ covers, r ∈ spans.map Prod.fst := by
  rw [resolveCovers] at h
  split at h
  · simp at h
  · clear * - h
    induction covers generalizing ranges with
    | nil =>
      obtain rfl : [] = ranges := by simpa [pure, Except.pure] using h
      simp
    | cons c covers ih =>
      rw [mapM_cons] at h
      obtain ⟨range, hc, hrest⟩ := ok_of_bind h
      obtain ⟨ranges', hcovers, hranges⟩ := ok_of_bind hrest
      obtain ⟨rfl, hknown⟩ := ih hcovers
      split at hc
      · next span hspan =>
        obtain rfl : span = range := by simpa using hc
        obtain rfl : span :: covers.map (spanOf spans) = ranges := by
          simpa [pure, Except.pure] using hranges
        refine ⟨by simp [spanOf, hspan], forall_mem_cons.2 ⟨?_, hknown⟩⟩
        exact lookup_isSome_iff.1 (by simp [hspan])
      · simp at hc

theorem Field.resolve_eq_ok {d : Option PendingDerivation} (h : f.resolve spans = .ok d) :
    d.toList = f.derived spans ∧ ∀ r ∈ f.references, r ∈ spans.map Prod.fst := by
  cases f with
  | length name width endian covers | checksum name kind endian covers =>
    obtain ⟨ranges, hcovers, hd⟩ := ok_of_bind h
    obtain ⟨rfl, hknown⟩ := resolveCovers_eq_ok hcovers
    obtain rfl : some _ = d := by simpa [pure, Except.pure] using hd
    exact ⟨rfl, hknown⟩
  | offset name width endian target =>
    rw [resolve] at h
    split at h
    · next span hspan =>
      obtain rfl : some _ = d := by simpa using h
      refine ⟨by simp [derived, spanOf, hspan], ?_⟩
      simpa [references] using lookup_isSome_iff.1 (show (spans.lookup target).isSome by
        simp [hspan])
    · simp at h
  | bytes | tlv =>
    obtain rfl : none = d := by simpa [resolve] using h
    exact ⟨rfl, by simp [references]⟩

theorem resolveFields_eq_ok {fs : List Field} {ds : List PendingDerivation}
    (h : resolveFields spans fs = .ok ds) :
    ds = fs.flatMap (derived spans) ∧
      ∀ f ∈ fs, ∀ r ∈ f.references, r ∈ spans.map Prod.fst := by
  induction fs generalizing ds with
  | nil =>
    obtain rfl : [] = ds := by simpa [resolveFields] using h
    simp
  | cons f fs ih =>
    obtain ⟨d, hd, hrest⟩ := ok_of_bind h
    obtain ⟨ds', hds', hds⟩ := ok_of_bind hrest
    obtain ⟨rfl, hknown⟩ := ih hds'
    obtain ⟨hlist, href⟩ := resolve_eq_ok hd
    obtain rfl : d.toList ++ fs.flatMap (derived spans) = ds := by
      simpa [pure, Except.pure] using hds
    exact ⟨by rw [hlist, flatMap_cons], forall_mem_cons.2 ⟨href, hknown⟩⟩

/-! ### A successful encoding -/

theorem map_fst_placesFrom (start : ℕ) (fs : List Field) :
    (placesFrom start fs).map Prod.fst = fs := by
  induction fs generalizing start with
  | nil => rfl
  | cons f fs ih => simp [placesFrom, ih]

namespace Message

variable {m : Message}

theorem map_fst_places (m : Message) : m.places.map Prod.fst = m.fields :=
  map_fst_placesFrom 0 m.fields

theorem map_fst_spans (m : Message) : m.spans.map Prod.fst = m.fields.map name := by
  rw [← m.map_fst_places, spans, map_map, map_map]
  rfl

/-- **Inversion of `encode`**: the descriptor is well formed, and the result is its placeholder
buffer after one fix-up. -/
theorem encode_eq_ok {e : EncodedMessage} (h : m.encode = .ok e) :
    m.WellFormed ∧ e = ⟨settle m.derivations m.placeholders, m.spans, m.derivations⟩ := by
  rw [encode] at h
  split at h
  · simp at h
  obtain ⟨layout, hlayout, h⟩ := ok_of_bind h
  obtain ⟨hnodup, rfl⟩ := foldlM_place_eq_ok hlayout (by simp)
  split at h
  · simp at h
  obtain ⟨resolved, hresolved, h⟩ := ok_of_bind h
  obtain ⟨rfl, hknown⟩ := resolveFields_eq_ok hresolved
  obtain ⟨u, hok, he⟩ := ok_of_bind h
  have hrun : Runs EncodedMessage.fixupInPlace ⟨m.placeholders, m.spans, m.derivations⟩ () e := by
    exact Prod.ext hok (ok.inj he)
  obtain ⟨hfits, he⟩ := runs_fixupInPlace_iff.1 hrun
  refine ⟨⟨by simpa using hnodup, fun f hf r hr ↦ ?_, hfits⟩, he⟩
  rw [← m.map_fst_spans]
  exact hknown f hf r hr

/-! ### The places of the fields -/

theorem placesFrom_bounds {start : ℕ} {fs : List Field} {p : Field × Span}
    (hp : p ∈ placesFrom start fs) :
    start ≤ p.2.start ∧ p.2.stop = p.2.start + p.1.size ∧
      p.2.stop ≤ start + (fs.flatMap placeholder).length := by
  induction fs generalizing start with
  | nil => simp [placesFrom] at hp
  | cons f fs ih =>
    rw [placesFrom, mem_cons] at hp
    rw [flatMap_cons, length_append, ← Field.size]
    rcases hp with rfl | hp
    · exact ⟨le_refl _, rfl, show start + f.size ≤ start + (f.size + _) by omega⟩
    · obtain ⟨hstart, hstop, hle⟩ := ih hp
      exact ⟨by omega, hstop, by omega⟩

theorem pairwise_placesFrom (start : ℕ) (fs : List Field) :
    (placesFrom start fs).Pairwise fun p q ↦ p.2.Disjoint q.2 := by
  induction fs generalizing start with
  | nil => exact List.Pairwise.nil
  | cons f fs ih =>
    exact List.Pairwise.cons (fun q hq ↦ .inl (placesFrom_bounds hq).1) (ih _)

/-- Before the first fix-up every place holds its field's placeholder bytes. -/
theorem slice_placesFrom {l : Bytes} {fs : List Field} {p : Field × Span}
    (hp : p ∈ placesFrom l.length fs) :
    p.2.slice (l ++ fs.flatMap placeholder) = p.1.placeholder := by
  induction fs generalizing l with
  | nil => simp [placesFrom] at hp
  | cons f fs ih =>
    rw [placesFrom, mem_cons] at hp
    rw [flatMap_cons]
    rcases hp with rfl | hp
    · exact Span.slice_append_middle ..
    · rw [Field.size, ← length_append] at hp
      rw [← append_assoc]
      exact ih hp

variable {p q : Field × Span}

theorem stop_of_mem_places (hp : p ∈ m.places) : p.2.stop = p.2.start + p.1.size :=
  (placesFrom_bounds hp).2.1

theorem stop_le_of_mem_places (hp : p ∈ m.places) : p.2.stop ≤ m.size := by
  simpa [size, placeholders] using (placesFrom_bounds hp).2.2

theorem fitsIn_of_mem_places (hp : p ∈ m.places) : p.2.FitsIn m.size :=
  ⟨by rw [stop_of_mem_places hp]; omega, stop_le_of_mem_places hp⟩

theorem disjoint_of_mem_places (hp : p ∈ m.places) (hq : q ∈ m.places) (hpq : p ≠ q) :
    p.2.Disjoint q.2 :=
  haveI : Std.Symm fun p q : Field × Span ↦ p.2.Disjoint q.2 := ⟨fun _ _ ↦ Span.Disjoint.symm⟩
  (pairwise_placesFrom 0 m.fields).forall hp hq hpq

theorem slice_placeholders (hp : p ∈ m.places) : p.2.slice m.placeholders = p.1.placeholder :=
  slice_placesFrom (l := []) hp

theorem mem_fields_of_mem_places (hp : p ∈ m.places) : p.1 ∈ m.fields := by
  rw [← m.map_fst_places]
  exact mem_map_of_mem hp

variable {f : Field} {d : PendingDerivation}

theorem exists_mem_places (hf : f ∈ m.fields) : ∃ s, (f, s) ∈ m.places := by
  rw [← m.map_fst_places, mem_map] at hf
  obtain ⟨⟨f', s⟩, hp, rfl⟩ := hf
  exact ⟨s, hp⟩

/-- A field's name leads to its place. -/
theorem WellFormed.lookup_name (hm : m.WellFormed) (hp : p ∈ m.places) :
    m.spans.lookup p.1.name = some p.2 := by
  have hmem : (p.1.name, p.2) ∈ m.spans :=
    mem_map_of_mem (f := fun p : Field × Span ↦ (p.1.name, p.2)) hp
  have hnodup : (m.spans.map Prod.fst).Nodup := by
    rw [map_fst_spans]
    exact hm.nodup
  obtain ⟨l, r, hsplit⟩ := append_of_mem hmem
  rw [hsplit, map_append, nodup_append] at hnodup
  refine lookup_eq_some_iff.2 ⟨l, r, hsplit, fun q hq ↦ ?_⟩
  exact bne_iff_ne.2 (hnodup.2.2 q.1 (mem_map_of_mem hq) p.1.name mem_cons_self).symm

theorem WellFormed.spanOf_name (hm : m.WellFormed) (hp : p ∈ m.places) :
    spanOf m.spans p.1.name = p.2 := by
  rw [spanOf, hm.lookup_name hp]
  rfl

/-- A reference leads to the place of a field of that name. -/
theorem WellFormed.exists_place (hm : m.WellFormed) (hf : f ∈ m.fields) {r : String}
    (hr : r ∈ f.references) : ∃ p ∈ m.places, p.1.name = r ∧ spanOf m.spans r = p.2 := by
  obtain ⟨g, hg, rfl⟩ := mem_map.1 (hm.references f hf r hr)
  obtain ⟨s, hp⟩ := exists_mem_places hg
  exact ⟨(g, s), hp, rfl, hm.spanOf_name hp⟩

/-- Fields with one name are one field. -/
theorem WellFormed.eq_of_name_eq (hm : m.WellFormed) {g : Field} (hf : f ∈ m.fields)
    (hg : g ∈ m.fields) (h : f.name = g.name) : f = g :=
  inj_on_of_nodup_map hm.nodup hf hg h

/-! ### The derivations of the fields -/

/-- The derivations a placed field contributes: at most one. -/
def derivationsOf (m : Message) (p : Field × Span) : List PendingDerivation :=
  p.1.tlvLengths p.2.start ++ p.1.derived m.spans

theorem derivations_perm (m : Message) : m.derivations.Perm (m.places.flatMap m.derivationsOf) := by
  have hfields : m.fields.flatMap (derived m.spans) =
      m.places.flatMap fun p ↦ p.1.derived m.spans := by
    rw [← m.map_fst_places, flatMap_map]
  rw [derivations, hfields]
  exact flatMap_append_perm ..

theorem mem_derivations_iff : d ∈ m.derivations ↔ ∃ p ∈ m.places, d ∈ m.derivationsOf p := by
  rw [m.derivations_perm.mem_iff, mem_flatMap]

/-- A derivation's output has its width and lies in the place of its field. -/
theorem WellFormed.out_of_mem (hm : m.WellFormed) (hp : p ∈ m.places) (hd : d ∈ m.derivationsOf p) :
    d.out.Within p.2 ∧ d.out.start ≤ d.out.stop ∧ d.out.len = d.width.size := by
  have hstop := stop_of_mem_places hp
  have hspan := hm.spanOf_name hp
  have hle := (fitsIn_of_mem_places hp).start_le
  -- A derived field is its output; only a record has more than its length.
  have whole (hout : d.out = p.2) (hsize : p.1.size = d.width.size) :
      d.out.Within p.2 ∧ d.out.start ≤ d.out.stop ∧ d.out.len = d.width.size := by
    rw [hout]
    exact ⟨Span.Within.refl _, hle, by rw [Span.len]; omega⟩
  obtain ⟨f, s⟩ := p
  cases f with
  | bytes => simp [derivationsOf, Field.tlvLengths, Field.derived] at hd
  | tlv name tag tagWidth lenWidth endian value =>
    obtain rfl : d = _ := by simpa [derivationsOf, Field.tlvLengths, Field.derived] using hd
    simp only [Field.size, Field.placeholder, length_append, length_encodeUint,
      length_replicate] at hstop
    refine ⟨⟨?_, ?_⟩, ?_, ?_⟩
    · show s.start ≤ s.start + tagWidth.size
      omega
    · show s.start + tagWidth.size + lenWidth.size ≤ s.stop
      omega
    · show s.start + tagWidth.size ≤ s.start + tagWidth.size + lenWidth.size
      omega
    · show s.start + tagWidth.size + lenWidth.size - (s.start + tagWidth.size) = lenWidth.size
      omega
  | length | checksum | offset =>
    obtain rfl : d = _ := by simpa [derivationsOf, Field.tlvLengths, Field.derived] using hd
    exact whole hspan length_replicate

theorem WellFormed.sized (hm : m.WellFormed) (hd : d ∈ m.derivations) : d.Sized m.size := by
  obtain ⟨p, hp, hdp⟩ := mem_derivations_iff.1 hd
  obtain ⟨hwithin, hle, hlen⟩ := hm.out_of_mem hp hdp
  exact ⟨⟨hle, le_trans hwithin.stop_le (stop_le_of_mem_places hp)⟩, hlen⟩

/-- The outputs of a field's derivations stay off every other field. -/
theorem WellFormed.out_disjoint (hm : m.WellFormed) (hp : p ∈ m.places) (hq : q ∈ m.places)
    (hpq : p ≠ q) (hd : d ∈ m.derivationsOf p) : d.out.Disjoint q.2 :=
  (disjoint_of_mem_places hp hq hpq).within (hm.out_of_mem hp hd).1 (Span.Within.refl _)

theorem WellFormed.pairwise_out (hm : m.WellFormed) :
    m.derivations.Pairwise fun d d' ↦ d.out.Disjoint d'.out := by
  rw [m.derivations_perm.pairwise_iff Span.Disjoint.symm, pairwise_flatMap]
  constructor
  · intro p _
    rcases p with ⟨_ | _ | _ | _ | _, s⟩ <;>
      simp [derivationsOf, tlvLengths, derived]
  · refine List.Pairwise.imp_of_mem ?_ (pairwise_placesFrom 0 m.fields)
    intro p q hp hq hpq d hd d' hd'
    exact hpq.within (hm.out_of_mem hp hd).1 (hm.out_of_mem hq hd').1

/-- In pass order the derivations are patches of one buffer with disjoint outputs. -/
theorem WellFormed.compatible_passOrder (hm : m.WellFormed) :
    Patch.Compatible m.size ((passOrder m.derivations).map PendingDerivation.patch) := by
  refine ⟨fun patch hpatch ↦ ?_, ?_⟩
  · obtain ⟨d, hd, rfl⟩ := mem_map.1 hpatch
    exact (hm.sized (mem_passOrder.1 hd)).fills
  · rw [pairwise_map, (passOrder_perm _).pairwise_iff Span.Disjoint.symm]
    exact hm.pairwise_out

theorem WellFormed.wellSized (hm : m.WellFormed) : WellSized m.size m.derivations :=
  fun d hd ↦ ⟨hm.sized hd, hm.fits d hd⟩

end Message

end Bhf.FuzzEngine.BinFrame
