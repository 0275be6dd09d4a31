import Bhf.EventLog.Probe
import Bhf.Lib.RingBuffer
import Bhf.TargetTransport.Agent

/-!
# Coverage read out of the ring in target memory

The memory buffer backend of the probe writes its records byte by byte into a ring. The host takes
an image of the ring with its write index and wrap flag, puts the bytes in order and decodes them.

The bytes in order are the last bytes written (`linearize_ring`). They are decoded from the first
one on, so **what is read is genuine if that byte begins a record** (`genuine_of_onBoundary`), which
is always so while nothing was overwritten. The ring drops bytes and not records: a byte in the
middle of a record may be taken for a tag, and the bytes behind it for a crumb that was never
written. This can happen in every ring that has room for a crumb record at all
(`not_genuine_of_five_le`).
-/

namespace Bhf.TargetTransport

open StateExcept Reader EventLog List RingBuffer Probe Except

/-- The ids of the `Crumb` events, in order. -/
def edgesFromEvents (events : List Event) : List UInt32 :=
  events.filterMap fun
    | .crumb id => some id
    | _ => none

structure MemoryBufferReader where
  image : Bytes
  write : ℕ
  wrapped : Bool

namespace MemoryBufferReader

def new (image : Bytes) (write : UInt32) (wrapped : Bool) :
    Except TransportError MemoryBufferReader :=
  if write.toNat > image.length then
    .error (.protocol (s!"memory-buffer write cursor {write.toNat} " ++
      s!"exceeds ring image length {image.length}"))
  else if wrapped && image.isEmpty then
    .error (.protocol "memory-buffer marked wrapped but the ring image is empty")
  else .ok ⟨image, write.toNat, wrapped⟩

def linearize (self : MemoryBufferReader) : Bytes :=
  if !self.wrapped then self.image.take self.write
  else self.image.drop self.write ++ self.image.take self.write

/-- The error of the decoder is passed on. -/
def readEvents (self : MemoryBufferReader) : Except EventReadError (List Event) :=
  EventLog.readEvents self.linearize

def readEdges (self : MemoryBufferReader) : Except EventReadError (List UInt32) :=
  edgesFromEvents <$> self.readEvents

end MemoryBufferReader

/-! ### The ring after a sequence of calls -/

/-- The ring of the probe: `Write_Byte` for every byte of every record. -/
def ringAfter (capacity : UInt32) (p : Probe) (calls : List Call) : RingBuffer UInt8 :=
  (RingBuffer.empty capacity.toNat 0).pushAll (p.written calls)

/-- What the host makes of the memory of the target. -/
def readerAfter (capacity : UInt32) (p : Probe) (calls : List Call) :
    Except TransportError MemoryBufferReader :=
  let ring := ringAfter capacity p calls
  MemoryBufferReader.new ring.slots (UInt32.ofNat ring.next) ring.wrapped

/-- The ids of the crumbs that were written. -/
def crumbIds (calls : List Call) : List UInt32 :=
  calls.filterMap fun
    | .breadcrumb id => some id
    | _ => none

variable {capacity : UInt32} {p : Probe} {calls : List Call}

/-- **The host gets a reader, and its stream is the last bytes that were written.** -/
theorem linearize_ring (hcap : 0 < capacity.toNat) (p : Probe) (calls : List Call) :
    ∃ reader, readerAfter capacity p calls = .ok reader ∧
      reader.linearize = lastOf capacity.toNat (p.written calls) := by
  have hring : (ringAfter capacity p calls).Holds capacity.toNat (p.written calls) :=
    holds_pushAll hcap 0 _
  generalize hgen : ringAfter capacity p calls = ring at hring
  have hnext := hring.next_lt
  have hslots := hring.length_slots
  have hwrite : (UInt32.ofNat ring.next).toNat = ring.next :=
    UInt32.toNat_ofNat_of_lt' (lt_trans hnext capacity.toNat_lt)
  have hfull : ring.slots.isEmpty = false := by
    rw [isEmpty_eq_false_iff]
    exact ne_nil_of_length_pos (by omega)
  refine ⟨⟨ring.slots, ring.next, ring.wrapped⟩, ?_, ?_⟩
  · simp only [readerAfter, hgen]
    rw [MemoryBufferReader.new, hwrite, if_neg (by omega), hfull, Bool.and_false]
    rfl
  · rw [← hring.contents_eq, MemoryBufferReader.linearize, contents]
    cases ring.wrapped <;> rfl

/-! ### Genuine coverage -/

/-- If the host reads edges, they are the last crumbs that were written, and all of them if nothing
was overwritten. -/
def Genuine (capacity : UInt32) (p : Probe) (calls : List Call) : Prop :=
  ∀ reader edges, readerAfter capacity p calls = .ok reader → reader.readEdges = .ok edges →
    edges <:+ crumbIds calls ∧
      ((p.written calls).length ≤ capacity.toNat → edges = crumbIds calls)

/-- The bytes that were overwritten are whole records. -/
def OnBoundary (capacity : UInt32) (p : Probe) (calls : List Call) : Prop :=
  ∃ done todo, calls = done ++ todo ∧
    (p.written done).length = (p.written calls).length - capacity.toNat

/-- Reading edges is reading the last bytes written. -/
theorem genuine_iff (hcap : 0 < capacity.toNat) :
    Genuine capacity p calls ↔
      ∀ events, readEvents (lastOf capacity.toNat (p.written calls)) = .ok events →
        edgesFromEvents events <:+ crumbIds calls ∧
          ((p.written calls).length ≤ capacity.toNat →
            edgesFromEvents events = crumbIds calls) := by
  obtain ⟨reader, hreader, hlinear⟩ := linearize_ring hcap p calls
  have hedges (edges : List UInt32) : reader.readEdges = .ok edges ↔
      ∃ events, readEvents (lastOf capacity.toNat (p.written calls)) = .ok events ∧
        edgesFromEvents events = edges := by
    rw [MemoryBufferReader.readEdges, MemoryBufferReader.readEvents, hlinear]
    cases readEvents (lastOf capacity.toNat (p.written calls)) with
    | error e => simp
    | ok events => simp
  constructor
  · intro h events hevents
    exact h reader _ hreader ((hedges _).2 ⟨events, hevents, rfl⟩)
  · intro h reader' edges hreader' hread
    rw [hreader] at hreader'
    obtain ⟨⟩ := hreader'
    obtain ⟨events, hevents, rfl⟩ := (hedges edges).1 hread
    exact h events hevents

theorem written_append (done todo : List Call) :
    ∀ p : Probe, p.written (done ++ todo) =
      p.written done ++ (done.foldl after p).written todo := by
  induction done with
  | nil => exact fun _ ↦ rfl
  | cons call done ih =>
    intro p
    rw [cons_append, written, ih, ← append_assoc]
    rfl

theorem edgesFromEvents_of_matches {calls : List Call} {events : List Event}
    (h : List.Forall₂ Call.Matches calls events) : edgesFromEvents events = crumbIds calls := by
  induction h with
  | nil => rfl
  | @cons call event calls events hmatch _ ih =>
    rw [edgesFromEvents, crumbIds] at ih ⊢
    cases call <;> cases event <;> simp_all [Call.Matches]

/-- **Coverage is genuine if the first byte left in the ring begins a record.** -/
theorem genuine_of_onBoundary (hcap : 0 < capacity.toNat) (h : OnBoundary capacity p calls) :
    Genuine capacity p calls := by
  rw [genuine_iff hcap]
  intro events hevents
  obtain ⟨done, todo, rfl, hlen⟩ := h
  have hlast : lastOf capacity.toNat (p.written (done ++ todo)) =
      (done.foldl after p).written todo := by
    rw [lastOf, ← hlen, written_append, drop_left]
  rw [hlast] at hevents
  obtain ⟨events', hread, hmatches⟩ := readEvents_written (readable_of_readEvents hevents) _
  obtain ⟨⟩ := hread.symm.trans hevents
  have hedges := edgesFromEvents_of_matches hmatches
  refine ⟨?_, fun hall ↦ ?_⟩
  · rw [hedges, crumbIds, crumbIds, filterMap_append]
    exact suffix_append _ _
  · -- nothing was overwritten, so there is no record before the boundary
    have hdone : done = [] := by
      rw [Nat.sub_eq_zero_of_le hall, length_eq_zero_iff] at hlen
      cases done with
      | nil => rfl
      | cons call done =>
        obtain ⟨tag, payload, hrecord, -⟩ := decodes_record p call
        rw [written, hrecord] at hlen
        contradiction
    rw [hedges, hdone, nil_append]

theorem onBoundary_of_length_le (h : (p.written calls).length ≤ capacity.toNat) :
    OnBoundary capacity p calls :=
  ⟨[], calls, rfl, by simp [written, Nat.sub_eq_zero_of_le h]⟩

/-! ### Rings without room for a crumb -/

theorem yields_readPayload_ne_crumb {tag : EventTag} (h : tag ≠ .crumb) :
    Yields (readPayload tag) fun event ↦ ∀ id, event ≠ .crumb id := by
  cases tag with
  | crumb => contradiction
  | _ =>
    repeat' refine yields_bind fun _ ↦ ?_
    exact yields_pure (by simp)

/-- A crumb is read off its tag and four bytes. -/
theorem length_of_readRecord_crumb {byte : UInt8} {stream rest : Bytes} {id : UInt32}
    (h : Runs (readRecord byte) stream (.crumb id) rest) : stream.length = rest.length + 4 := by
  rw [readRecord] at h
  split at h
  · simp [Runs] at h
  next tag _ =>
  obtain rfl : tag = .crumb := by
    by_contra hne
    exact yields_readPayload_ne_crumb hne _ _ _ h id rfl
  obtain ⟨_, _, hword, hpure⟩ := runs_bind_iff.1 h
  obtain ⟨bytes, _, hbytes, hpure'⟩ := runs_bind_iff.1 hword
  obtain ⟨hlen, rfl⟩ := runs_readExact_iff.1 hbytes
  obtain ⟨⟩ := hpure
  obtain ⟨⟩ := hpure'
  rw [length_append, hlen, add_comm]

theorem five_mul_length_edges_le {stream : Bytes} :
    ∀ {events : List Event}, readEvents stream = .ok events →
      5 * (edgesFromEvents events).length ≤ stream.length := by
  induction stream using readEvents.induct with
  | case1 stream e rest herror =>
    intro events h
    rw [readEvents_of_error herror] at h
    contradiction
  | case2 stream rest hend =>
    intro events h
    rw [readEvents_of_end hend] at h
    obtain ⟨⟩ := h
    exact Nat.zero_le _
  | case3 stream event rest hevent _ ih =>
    intro events h
    rw [readEvents_of_event hevent] at h
    cases hrest : readEvents rest with
    | error e => simp [hrest] at h
    | ok later =>
      rw [hrest] at h
      obtain ⟨⟩ := h
      have hlater := ih hrest
      have hshort := length_lt_of_nextEvent hevent
      cases event with
      | crumb id =>
        cases stream with
        | nil => simp [exec_nextEvent_nil] at hevent
        | cons byte stream =>
          rw [exec_nextEvent_cons] at hevent
          obtain ⟨event, _, hrecord, hpure⟩ := runs_bind_iff.1 hevent
          obtain ⟨hsome, rfl⟩ := Prod.mk.inj hpure
          obtain rfl : event = .crumb id := Option.some.inj (ok.inj hsome)
          have hlen := length_of_readRecord_crumb hrecord
          show 5 * ((edgesFromEvents later).length + 1) ≤ stream.length + 1
          omega
      | _ => exact le_trans hlater (le_of_lt hshort)

/-! ### Rings with room for a crumb -/

/-- A test case whose id ends in the bytes of a crumb record, and then one-byte records until the
beginning of it is overwritten. -/
def disguisedCrumb (capacity : UInt32) : List Call :=
  .beginTestcase 0x103000000 :: List.replicate (capacity.toNat - 5) .targetEntry

theorem written_targetEntries (p : Probe) (n : ℕ) :
    p.written (replicate n .targetEntry) = replicate n 9 := by
  induction n with
  | zero => rfl
  | succ n ih =>
    rw [replicate_succ, written, replicate_succ, ← ih]
    rfl

theorem lastOf_disguisedCrumb (hcap : 5 ≤ capacity.toNat) (p : Probe) :
    lastOf capacity.toNat (p.written (disguisedCrumb capacity)) =
      p.written (.breadcrumb 1 :: replicate (capacity.toNat - 5) .targetEntry) := by
  have hwritten : p.written (disguisedCrumb capacity) = [1, 0, 0, 0] ++
        p.written (.breadcrumb 1 :: replicate (capacity.toNat - 5) .targetEntry) := by
    rw [disguisedCrumb, written, written, written_targetEntries, written_targetEntries]
    rfl
  have hlen : (p.written (disguisedCrumb capacity)).length = capacity.toNat + 4 := by
    rw [disguisedCrumb, written, written_targetEntries, length_append, length_replicate]
    show 9 + (capacity.toNat - 5) = _
    omega
  rw [lastOf, hlen, Nat.add_sub_cancel_left, hwritten]
  rfl

/-- **Every ring with room for a crumb record can yield one that was never written.** -/
theorem readEdges_disguisedCrumb (hcap : 5 ≤ capacity.toNat) (p : Probe) :
    ∃ reader, readerAfter capacity p (disguisedCrumb capacity) = .ok reader ∧
      reader.readEdges = .ok [1] := by
  obtain ⟨reader, hreader, hlinear⟩ :=
    linearize_ring (by omega : 0 < capacity.toNat) p (disguisedCrumb capacity)
  refine ⟨reader, hreader, ?_⟩
  have hreadable : ∀ call ∈ Call.breadcrumb 1 ::
      replicate (capacity.toNat - 5) .targetEntry, call.Readable := by
    simp [Call.Readable, Call.strings]
  obtain ⟨events, hread, hmatches⟩ := readEvents_written hreadable p
  have hedges := edgesFromEvents_of_matches hmatches
  rw [MemoryBufferReader.readEdges, MemoryBufferReader.readEvents, hlinear,
    lastOf_disguisedCrumb hcap, hread]
  show ok (edgesFromEvents events) = _
  rw [hedges]
  simp [crumbIds]

theorem crumbIds_disguisedCrumb (capacity : UInt32) : crumbIds (disguisedCrumb capacity) = [] := by
  simp [crumbIds, disguisedCrumb]

theorem not_genuine_of_five_le (hcap : 5 ≤ capacity.toNat) (p : Probe) :
    ¬Genuine capacity p (disguisedCrumb capacity) := by
  intro h
  obtain ⟨reader, hreader, hedges⟩ := readEdges_disguisedCrumb hcap p
  have hsuffix := (h reader [1] hreader hedges).1
  rw [crumbIds_disguisedCrumb] at hsuffix
  simp at hsuffix

/-- The ring of the probe has 65536 bytes; the host reads a crumb although none was written. -/
theorem crumb_never_written :
    ∃ reader, readerAfter 65536 {} (disguisedCrumb 65536) = .ok reader ∧
      reader.readEdges = .ok [1] ∧ crumbIds (disguisedCrumb 65536) = [] := by
  obtain ⟨reader, hreader, hedges⟩ :=
    readEdges_disguisedCrumb (by decide : 5 ≤ UInt32.toNat 65536) {}
  exact ⟨reader, hreader, hedges, crumbIds_disguisedCrumb 65536⟩

/-- **Coverage read back from the ring.** The host gets a reader whose stream is the last bytes that
were written. The coverage is genuine whenever the first byte that is left begins a record, in
particular when nothing was overwritten; it is genuine for all sequences of calls exactly if the
ring has no room for a crumb record. -/
theorem ring_coverage_genuine (capacity : UInt32) (hcap : 0 < capacity) :
    (∀ (p : Probe) (calls : List Call),
      (∃ reader, readerAfter capacity p calls = .ok reader ∧
        reader.linearize =
          (p.written calls).drop ((p.written calls).length - capacity.toNat)) ∧
      (OnBoundary capacity p calls → Genuine capacity p calls) ∧
      ((p.written calls).length ≤ capacity.toNat → OnBoundary capacity p calls)) ∧
    ((∀ (p : Probe) (calls : List Call), Genuine capacity p calls) ↔ capacity < 5) := by
  have hpos : 0 < capacity.toNat := UInt32.lt_iff_toNat_lt.1 hcap
  refine ⟨fun p calls ↦ ⟨linearize_ring hpos p calls, genuine_of_onBoundary hpos,
    onBoundary_of_length_le⟩, fun h ↦ ?_, fun hsmall p calls ↦ ?_⟩
  · by_contra hlarge
    have hlarge : 5 ≤ capacity.toNat := UInt32.le_iff_toNat_le.1 (UInt32.not_lt.1 hlarge)
    exact not_genuine_of_five_le hlarge {} (h {} _)
  · by_cases hall : (p.written calls).length ≤ capacity.toNat
    · exact genuine_of_onBoundary hpos (onBoundary_of_length_le hall)
    · rw [genuine_iff hpos]
      intro events hevents
      refine ⟨?_, fun h ↦ absurd h hall⟩
      have hsmall : capacity.toNat < 5 := UInt32.lt_iff_toNat_lt.1 hsmall
      have hedges := five_mul_length_edges_le hevents
      rw [lastOf, length_drop] at hedges
      rw [length_eq_zero_iff.1 (by omega : (edgesFromEvents events).length = 0)]
      exact nil_suffix

/-- Three crumbs in a ring of ten bytes: the first record is gone, the other two are read. -/
theorem ring_coverage_genuine_three_crumbs :
    Genuine 10 {} [.breadcrumb 7, .breadcrumb 8, .breadcrumb 9] :=
  ((ring_coverage_genuine 10 (by decide)).1 {} [.breadcrumb 7, .breadcrumb 8, .breadcrumb 9]).2.1
    ⟨[.breadcrumb 7], [.breadcrumb 8, .breadcrumb 9], rfl, rfl⟩

end Bhf.TargetTransport
