import Bhf.Lib.Spans
import Bhf.Lib.StateExcept
import Bhf.Lib.Words

/-!
# The queue file of the persistent loop

The queue file is a magic header followed by frames, each the id of a test case, the length of its
bytes and the bytes. The writer appends to a file; the reader walks an offset over the whole file.

**Reader and writer are inverse to each other** within the limits of the reader. A file that was
written is read back (`readFrames_frames`); a file that is read as a list of entries is the file of
that list, byte for byte (`frames_of_readFrames`), so no byte of it is left over and none is
missing.
-/

namespace Bhf.FuzzEngine

open StateExcept List Bhf.Span

structure PersistentQueueEntry where
  testcaseId : UInt64
  bytes : Bytes

structure PersistentLoopConfig where
  maxTestcaseLen : ℕ := 1024 * 1024
  maxTestcases : ℕ := 1000000

/-- The failures of the queue file. The message of an `io` error stands for the error. -/
inductive PersistentLoopError where
  | io (message : String)
  | badMagic
  | truncatedFrame (offset expected remaining : ℕ)
  | testcaseTooLarge (len max : ℕ)
  | tooManyTestcases (count max : ℕ)

/-- The characters `GVFQ1` and a zero byte. -/
def queueMagic : Bytes :=
  [71, 86, 70, 81, 49, 0]

def frameHeaderLen : ℕ := 12

/-! ### Writing -/

def writeAll (bytes : Bytes) : StateExcept PersistentLoopError Bytes Unit :=
  modify (· ++ bytes)

def writeQueueEntry (entry : PersistentQueueEntry) : StateExcept PersistentLoopError Bytes Unit :=
  match u32TryFrom entry.bytes.length with
  | none => throw (.io (s!"testcase {entry.testcaseId} length {entry.bytes.length} " ++
      "exceeds u32 queue frame limit"))
  | some len => do
    writeAll (leBytes 8 entry.testcaseId.toNat)
    writeAll (leBytes 4 len.toNat)
    writeAll entry.bytes

def writeQueueEntries :
    List PersistentQueueEntry → StateExcept PersistentLoopError Bytes Unit
  | [] => return ()
  | entry :: entries => do
    writeQueueEntry entry
    writeQueueEntries entries

/-- The state is the contents of the file, which was just created. -/
def writeQueueFile (entries : List PersistentQueueEntry) :
    StateExcept PersistentLoopError Bytes Unit := do
  writeAll queueMagic
  writeQueueEntries entries

/-! ### Reading -/

def ensureRemaining (bytes : Bytes) (offset expected : ℕ) : Except PersistentLoopError Unit :=
  let remaining := bytes.length - offset
  if remaining < expected then .error (.truncatedFrame offset expected remaining) else .ok ()

/-- One round of the reader: an entry, and the offset behind it. -/
def readFrame (bytes : Bytes) (config : PersistentLoopConfig) (offset count : ℕ) :
    Except PersistentLoopError (PersistentQueueEntry × ℕ) :=
  if count = config.maxTestcases then
    .error (.tooManyTestcases (count + 1) config.maxTestcases)
  else do
    ensureRemaining bytes offset frameHeaderLen
    let testcaseId := UInt64.ofNat (leValue (Span.slice ⟨offset, offset + 8⟩ bytes))
    let len := (UInt32.ofNat (leValue (Span.slice ⟨offset + 8, offset + 12⟩ bytes))).toNat
    if len > config.maxTestcaseLen then
      .error (.testcaseTooLarge len config.maxTestcaseLen)
    else do
      ensureRemaining bytes (offset + 12) len
      return (⟨testcaseId, Span.slice ⟨offset + 12, offset + 12 + len⟩ bytes⟩, offset + 12 + len)

variable {bytes : Bytes} {offset count next : ℕ} {entry : PersistentQueueEntry}

theorem ensureRemaining_eq_ok {expected : ℕ} {u : Unit} :
    ensureRemaining bytes offset expected = .ok u ↔ expected ≤ bytes.length - offset := by
  rw [ensureRemaining]
  split
  · next h => simp [h]
  · next h => simpa using Nat.le_of_not_lt h

/-- **Everything an accepted frame satisfies.** -/
theorem readFrame_eq_ok {config : PersistentLoopConfig} :
    readFrame bytes config offset count = .ok (entry, next) ↔
      count ≠ config.maxTestcases ∧ 12 ≤ bytes.length - offset ∧
      entry.testcaseId = UInt64.ofNat (leValue (slice ⟨offset, offset + 8⟩ bytes)) ∧
      entry.bytes = slice ⟨offset + 12, next⟩ bytes ∧
      next = offset + 12 + (UInt32.ofNat (leValue (slice ⟨offset + 8, offset + 12⟩ bytes))).toNat ∧
      next - (offset + 12) ≤ config.maxTestcaseLen ∧
      next - (offset + 12) ≤ bytes.length - (offset + 12) := by
  rw [readFrame]
  generalize (UInt32.ofNat (leValue (slice ⟨offset + 8, offset + 12⟩ bytes))).toNat = len
  constructor
  · intro h
    split at h
    · contradiction
    next hcount =>
    obtain ⟨_, hheader, h⟩ := ok_of_bind h
    dsimp only at h
    split at h
    · contradiction
    obtain ⟨_, hbody, h⟩ := ok_of_bind h
    obtain ⟨⟩ := h
    have hheader := ensureRemaining_eq_ok.1 hheader
    have hbody := ensureRemaining_eq_ok.1 hbody
    exact ⟨hcount, hheader, rfl, rfl, rfl, by omega, by omega⟩
  · rintro ⟨hcount, hheader, hid, hbytes, rfl, hlen, hbody⟩
    obtain ⟨testcaseId, data⟩ := entry
    obtain rfl : testcaseId = _ := hid
    obtain rfl : data = _ := hbytes
    have hheader : ensureRemaining bytes offset frameHeaderLen = .ok () :=
      ensureRemaining_eq_ok.2 hheader
    have hbody : ensureRemaining bytes (offset + 12) len = .ok () :=
      ensureRemaining_eq_ok.2 (by omega)
    rw [if_neg hcount, hheader]
    show (if len > config.maxTestcaseLen then _ else _) = _
    rw [if_neg (by omega), hbody]
    rfl

theorem lt_of_readFrame {config : PersistentLoopConfig}
    (h : readFrame bytes config offset count = .ok (entry, next)) : offset < next := by
  obtain ⟨-, -, -, -, rfl, -, -⟩ := readFrame_eq_ok.1 h
  omega

def readFrames (bytes : Bytes) (config : PersistentLoopConfig) (offset : ℕ)
    (entries : List PersistentQueueEntry) :
    Except PersistentLoopError (List PersistentQueueEntry) :=
  if offset < bytes.length then
    match h : readFrame bytes config offset entries.length with
    | .error e => .error e
    | .ok (entry, next) =>
      have := lt_of_readFrame h
      readFrames bytes config next (entries ++ [entry])
  else .ok entries
termination_by bytes.length - offset

def readQueueFile (bytes : Bytes) (config : PersistentLoopConfig) :
    Except PersistentLoopError (List PersistentQueueEntry) :=
  if bytes.length < queueMagic.length ∨ bytes.take queueMagic.length ≠ queueMagic then
    .error .badMagic
  else readFrames bytes config queueMagic.length []

/-! ### Frames -/

/-- The bytes of one entry. -/
def PersistentQueueEntry.frame (entry : PersistentQueueEntry) : Bytes :=
  leBytes 8 entry.testcaseId.toNat ++ (leBytes 4 entry.bytes.length ++ entry.bytes)

/-- The length of the bytes fits its field. -/
def PersistentQueueEntry.Fits (entry : PersistentQueueEntry) : Prop :=
  entry.bytes.length < 2 ^ 32

theorem runs_writeAll (bytes file : Bytes) : Runs (writeAll bytes) file () (file ++ bytes) :=
  rfl

theorem runs_writeQueueEntry (h : entry.Fits) (file : Bytes) :
    Runs (writeQueueEntry entry) file () (file ++ entry.frame) := by
  have hlen : u32TryFrom entry.bytes.length = some (UInt32.ofNat entry.bytes.length) := if_pos h
  have hnat := toNat_of_u32TryFrom hlen
  rw [writeQueueEntry, hlen, PersistentQueueEntry.frame, ← append_assoc, ← append_assoc]
  refine (runs_writeAll _ _).bind ((runs_writeAll _ _).bind ?_)
  rw [hnat]
  exact runs_writeAll _ _

theorem runs_writeQueueEntries {entries : List PersistentQueueEntry}
    (h : ∀ entry ∈ entries, entry.Fits) :
    ∀ file, Runs (writeQueueEntries entries) file () (file ++ entries.flatMap (·.frame)) := by
  induction entries with
  | nil =>
    intro file
    rw [flatMap_nil, append_nil]
    exact .pure () file
  | cons entry entries ih =>
    intro file
    rw [flatMap_cons, ← append_assoc]
    exact (runs_writeQueueEntry (h entry (.head _)) file).bind
      (ih (fun other hother ↦ h other (.tail _ hother)) _)

theorem runs_writeQueueFile {entries : List PersistentQueueEntry}
    (h : ∀ entry ∈ entries, entry.Fits) :
    Runs (writeQueueFile entries) [] () (queueMagic ++ entries.flatMap (·.frame)) :=
  (runs_writeAll queueMagic []).bind (runs_writeQueueEntries h _)

theorem PersistentQueueEntry.length_frame (entry : PersistentQueueEntry) :
    entry.frame.length = 12 + entry.bytes.length := by
  simp only [frame, length_append, length_leBytes]
  omega

variable (config : PersistentLoopConfig)

/-- A frame that stands at the offset is read, if the limits allow it. -/
theorem readFrame_frame (hfits : entry.Fits) (hcount : count ≠ config.maxTestcases)
    (hlen : entry.bytes.length ≤ config.maxTestcaseLen) (before after : Bytes) :
    readFrame (before ++ (entry.frame ++ after)) config before.length count =
      .ok (entry, before.length + entry.frame.length) := by
  have hframe : before ++ (entry.frame ++ after) = before ++ (leBytes 8 entry.testcaseId.toNat ++
        (leBytes 4 entry.bytes.length ++ (entry.bytes ++ after))) := by
    simp [PersistentQueueEntry.frame]
  -- the three fields of the frame, each as the slice the reader takes
  have hid := slice_append_middle before (leBytes 8 entry.testcaseId.toNat)
  have hcountField := slice_append_middle (before ++ leBytes 8 entry.testcaseId.toNat)
    (leBytes 4 entry.bytes.length) (entry.bytes ++ after)
  have hbytes := slice_append_middle
    (before ++ (leBytes 8 entry.testcaseId.toNat ++ leBytes 4 entry.bytes.length)) entry.bytes after
  simp only [length_append, length_leBytes, append_assoc, add_assoc, Nat.reduceAdd]
    at hid hcountField hbytes
  have hfield : (UInt32.ofNat (leValue (leBytes 4 entry.bytes.length))).toNat =
      entry.bytes.length := by
    rw [leValue_leBytes hfits, UInt32.toNat_ofNat_of_lt' hfits]
  rw [readFrame_eq_ok, hframe, entry.length_frame, hid, hcountField, hfield, ← add_assoc]
  refine ⟨hcount, ?_, ?_, ?_, rfl, ?_, ?_⟩
  · simp only [length_append, length_leBytes]
    omega
  · rw [leValue_leBytes entry.testcaseId.toNat_lt, UInt64.ofNat_toNat]
  · rw [add_assoc, hbytes]
  · omega
  · simp only [length_append, length_leBytes]
    omega

theorem readFrames_of_readFrame {done : List PersistentQueueEntry} (hoffset : offset < bytes.length)
    (h : readFrame bytes config offset done.length = .ok (entry, next)) :
    readFrames bytes config offset done = readFrames bytes config next (done ++ [entry]) := by
  rw [readFrames, if_pos hoffset]
  split
  · next herror =>
    rw [h] at herror
    contradiction
  · next hok =>
    rw [h] at hok
    obtain ⟨⟩ := hok
    rfl

/-- **Frames that were written are read back**, from any offset and after any entries, as far as the
limits allow. -/
theorem readFrames_frames {todo : List PersistentQueueEntry} (hfits : ∀ entry ∈ todo, entry.Fits)
    (hlen : ∀ entry ∈ todo, entry.bytes.length ≤ config.maxTestcaseLen) :
    ∀ (before : Bytes) (done : List PersistentQueueEntry),
      done.length + todo.length ≤ config.maxTestcases →
      readFrames (before ++ todo.flatMap (·.frame)) config before.length done =
        .ok (done ++ todo) := by
  induction todo with
  | nil =>
    intro before done _
    rw [readFrames, if_neg (by simp), append_nil]
  | cons entry todo ih =>
    intro before done hcount
    rw [length_cons] at hcount
    have hframe := readFrame_frame config (hfits entry (.head _)) (by omega : done.length ≠ _)
      (hlen entry (.head _)) before (todo.flatMap (·.frame))
    have hrest := ih (fun other h ↦ hfits other (.tail _ h)) (fun other h ↦ hlen other (.tail _ h))
      (before ++ entry.frame) (done ++ [entry]) (by rw [length_append, length_singleton]; omega)
    rw [length_append, append_assoc, append_assoc] at hrest
    rw [flatMap_cons, readFrames_of_readFrame config ?_ hframe]
    · exact hrest
    · rw [length_append, length_append, entry.length_frame]
      omega

/-- A field of the file, as a number, has the bytes it was read from. -/
theorem leBytes_leValue_slice (bytes : Bytes) {start stop : ℕ} (hle : start ≤ stop)
    (hstop : stop ≤ bytes.length) :
    leValue (slice ⟨start, stop⟩ bytes) < 256 ^ (stop - start) ∧
      leBytes (stop - start) (leValue (slice ⟨start, stop⟩ bytes)) = slice ⟨start, stop⟩ bytes := by
  have hlen : (slice ⟨start, stop⟩ bytes).length = stop - start :=
    length_slice ⟨hle, hstop⟩
  have hlt := leValue_lt (slice ⟨start, stop⟩ bytes)
  have hbytes := leBytes_leValue (slice ⟨start, stop⟩ bytes)
  rw [hlen] at hlt hbytes
  exact ⟨hlt, hbytes⟩

/-- The bytes of an accepted frame are the frame of the entry. -/
theorem frame_of_readFrame (h : readFrame bytes config offset count = .ok (entry, next)) :
    entry.Fits ∧ next ≤ bytes.length ∧ bytes.drop offset = entry.frame ++ bytes.drop next := by
  obtain ⟨-, hheader, hid, hbytes, hnext, -, hbody⟩ := readFrame_eq_ok.1 h
  have hle : next ≤ bytes.length := by omega
  have hlen : entry.bytes.length = next - (offset + 12) := by
    rw [hbytes]
    exact length_slice ⟨show offset + 12 ≤ next by omega, hle⟩
  obtain ⟨hidLt, hidBytes⟩ := leBytes_leValue_slice bytes
    (show offset ≤ offset + 8 by omega) (by omega)
  obtain ⟨hlenLt, hlenBytes⟩ := leBytes_leValue_slice bytes
    (show offset + 8 ≤ offset + 12 by omega) (by omega)
  rw [show offset + 8 - offset = 8 by omega] at hidLt hidBytes
  rw [show offset + 12 - (offset + 8) = 4 by omega] at hlenLt hlenBytes
  rw [UInt32.toNat_ofNat_of_lt' hlenLt] at hnext
  have hfield : entry.bytes.length = leValue (slice ⟨offset + 8, offset + 12⟩ bytes) := by
    omega
  refine ⟨?_, hle, ?_⟩
  · show entry.bytes.length < 2 ^ 32
    rw [hfield]
    exact hlenLt
  · rw [PersistentQueueEntry.frame, hid, UInt64.toNat_ofNat_of_lt' hidLt, hidBytes, hfield,
      hlenBytes, hbytes, slice_append_slice (by omega) (by omega) bytes hle,
      slice_append_slice (by omega) (by omega) bytes hle]
    exact (slice_append_drop (by omega) bytes hle).symm

/-- **A file that is read as a list of entries is the file of that list**: the reader stops at the
end of the file only, and between two frames. -/
theorem frames_of_readFrames {bytes : Bytes} {offset : ℕ}
    {done out : List PersistentQueueEntry} (hoffset : offset ≤ bytes.length)
    (h : readFrames bytes config offset done = .ok out) :
    ∃ todo, out = done ++ todo ∧ (∀ entry ∈ todo, entry.Fits) ∧
      bytes.drop offset = todo.flatMap (·.frame) := by
  induction offset, done using readFrames.induct bytes config with
  | case1 offset done hlt e herror =>
    rw [readFrames, if_pos hlt] at h
    split at h
    · contradiction
    · next hok =>
      rw [herror] at hok
      contradiction
  | case2 offset done hlt entry next hok _ ih =>
    rw [readFrames_of_readFrame config hlt hok] at h
    obtain ⟨hfits, hnext, hdrop⟩ := frame_of_readFrame config hok
    obtain ⟨todo, rfl, htodo, hrest⟩ := ih hnext h
    refine ⟨entry :: todo, by simp, ?_, ?_⟩
    · exact forall_mem_cons.2 ⟨hfits, htodo⟩
    · rw [hdrop, hrest, flatMap_cons]
  | case3 offset done hge =>
    rw [readFrames, if_neg hge] at h
    obtain ⟨⟩ := h
    refine ⟨[], (append_nil _).symm, by simp, ?_⟩
    rw [drop_eq_nil_of_le (Nat.le_of_not_lt hge), flatMap_nil]

/-- **The queue file format.** A list of entries that fit their length fields is read back from the
file it is written to, if it is within the limits; and every file that is accepted is the file that
the returned list is written to. -/
theorem queue_file_format (config : PersistentLoopConfig) :
    (∀ entries : List PersistentQueueEntry, (∀ entry ∈ entries, entry.bytes.length < 2 ^ 32) →
      ∃ file, exec (writeQueueFile entries) [] = (.ok (), file) ∧
        (entries.length ≤ config.maxTestcases →
          (∀ entry ∈ entries, entry.bytes.length ≤ config.maxTestcaseLen) →
          readQueueFile file config = .ok entries)) ∧
    (∀ (file : Bytes) (entries : List PersistentQueueEntry),
      readQueueFile file config = .ok entries →
        exec (writeQueueFile entries) [] = (.ok (), file)) := by
  refine ⟨fun entries hfits ↦ ⟨_, runs_writeQueueFile hfits, fun hcount hlen ↦ ?_⟩,
    fun file entries hread ↦ ?_⟩
  · exact readFrames_frames config hfits hlen queueMagic [] (by simpa using hcount)
  · rw [readQueueFile] at hread
    split at hread
    · contradiction
    next hmagic =>
    rw [not_or, not_lt, not_not] at hmagic
    obtain ⟨todo, hentries, hfits, hdrop⟩ := frames_of_readFrames config hmagic.1 hread
    obtain rfl : entries = todo := hentries
    have hfile : queueMagic ++ entries.flatMap (·.frame) = file := by
      rw [← hdrop]
      nth_rewrite 1 [← hmagic.2]
      exact take_append_drop _ file
    rw [← hfile]
    exact runs_writeQueueFile hfits

/-- An empty test case between two others survives the file. -/
theorem queue_file_format_three_entries :
    ∃ file, exec (writeQueueFile [⟨7, [1, 2]⟩, ⟨8, []⟩, ⟨9, [0]⟩]) [] = (.ok (), file) ∧
      readQueueFile file {} = .ok [⟨7, [1, 2]⟩, ⟨8, []⟩, ⟨9, [0]⟩] := by
  obtain ⟨file, hwrite, hread⟩ :=
    (queue_file_format {}).1 [⟨7, [1, 2]⟩, ⟨8, []⟩, ⟨9, [0]⟩] (by decide)
  exact ⟨file, hwrite, hread (by decide) (by decide)⟩

end Bhf.FuzzEngine
