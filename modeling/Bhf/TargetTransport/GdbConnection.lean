import Bhf.Lib.Stream
import Bhf.TargetTransport.GdbPacket

/-!
# Receiving GDB packets

The client writes a packet and waits for its acknowledgement, then skips stray acknowledgements,
reads the raw data up to `#` and two checksum characters, acknowledges the packet and decodes it.
The peer is a stream of bytes; what the client wrote is kept beside it.

`OnWire` says where the parts of a received packet stand in the stream. **A packet that is received
is bounded and strictly checked exactly when its data stand for no more bytes than the cap and its
checksum does not begin with a sign** (`strict_of_recvPacket_iff`); a memory read is answered by
digits exactly when there is no `+` in the reply.
-/

namespace Bhf.TargetTransport

open StateExcept Reader List

def maxMemoryRead : ℕ := 1024 * 1024

def maxRetransmits : ℕ := 3

/-- The bytes that the peer will send, and those that were written to it. -/
structure Channel where
  incoming : Bytes
  written : Bytes

section Channel

variable {α : Type}

/-- Read from the peer. -/
def receive (m : Reader GdbError α) : StateExcept GdbError Channel α := fun channel ↦
  ((m channel.incoming).1, { channel with incoming := (m channel.incoming).2 })

def writeAll (bytes : Bytes) : StateExcept GdbError Channel Unit :=
  modify fun channel ↦ { channel with written := channel.written ++ bytes }

/-- A result that does not depend on the channel. -/
def ofExcept (result : Except GdbError α) : StateExcept GdbError Channel α :=
  match result with
  | .error e => throw e
  | .ok a => return a

end Channel

/-! ### Packets on a channel -/

def readByteRequired (context : String) : Reader GdbError UInt8 := do
  match ← readByte with
  | none => throw (.streamClosed context)
  | some byte => return byte

/-- Skip to the start of a packet; `false` at the end of the stream. -/
def awaitStart : Bytes → Except GdbError Bool × Bytes
  | [] => (.ok false, [])
  | byte :: rest =>
    if byte = 0x24 then (.ok true, rest)
    else if byte = 0x2b ∨ byte = 0x2d then awaitStart rest
    else (.error (.unexpectedStart byte), rest)

/-- The raw data up to `#`, after those read so far. -/
def readData (data : Bytes) : Bytes → Except GdbError Bytes × Bytes
  | [] => (.error (.streamClosed "packet body"), [])
  | byte :: rest =>
    if byte = 0x23 then (.ok data, rest)
    else if (data ++ [byte]).length > maxPacketBytes then (.error .packetExceedsCap, rest)
    else readData (data ++ [byte]) rest

/-- Acknowledge raw data whose checksum is right, and decode them. -/
def checkPacket (data : Bytes) (c₁ c₂ : UInt8) : StateExcept GdbError Channel Bytes := do
  let given ← ofExcept (parseHexByte [c₁, c₂])
  if given ≠ rspChecksum data then
    writeAll [0x2d]
    throw (.checksumMismatch given (rspChecksum data))
  else
    writeAll [0x2b]
    ofExcept (unescape data)

def recvPacketOpt : StateExcept GdbError Channel (Option Bytes) := do
  if ← receive awaitStart then
    let data ← receive (readData [])
    let c₁ ← receive (readByteRequired "checksum digit 1")
    let c₂ ← receive (readByteRequired "checksum digit 2")
    return some (← checkPacket data c₁ c₂)
  else return none

def recvPacket : StateExcept GdbError Channel Bytes := do
  match ← recvPacketOpt with
  | none => throw (.streamClosed "a packet")
  | some body => return body

/-- Write a frame until it is acknowledged, at most so many times. -/
def sendFrame (frame : Bytes) : ℕ → StateExcept GdbError Channel Unit
  | 0 => throw .retransmitLimit
  | attempts + 1 => do
    writeAll frame
    let ack ← receive (readByteRequired "packet acknowledgement")
    if ack = 0x2b then return ()
    else if ack = 0x2d then sendFrame frame attempts
    else throw (.unexpectedAck ack)

def sendPacket (data : Bytes) : StateExcept GdbError Channel Unit :=
  sendFrame (encodePacket data) maxRetransmits

/-! ### Memory reads -/

def command (packet : Bytes) : StateExcept GdbError Channel Bytes := do
  sendPacket packet
  recvPacket

def isErrorReply (response : Bytes) : Bool :=
  response.length == 3 && response.head? == some 0x45 && response.tail.all isHexDigit

/-- A number in hexadecimal digits without leading zeros. -/
def hexText (n : ℕ) : Bytes :=
  (Nat.toDigits 16 n).map Char.toUInt8

def memoryReadPacket (address : UInt64) (length : ℕ) : Bytes :=
  [0x6d] ++ hexText address.toNat ++ [0x2c] ++ hexText length

def readMemory (address : UInt64) (length : ℕ) : StateExcept GdbError Channel Bytes :=
  if length > maxMemoryRead then throw (.memoryReadTooLong length)
  else do
    let response ← command (memoryReadPacket address length)
    if isErrorReply response then throw (.targetError address.toNat response)
    else
      let bytes ← ofExcept (fromHex response)
      if bytes.length ≠ length then throw (.memoryReadLength bytes.length length)
      else return bytes

/-! ### What is received -/

section Channel

variable {α : Type} {channel channel' : Channel}

theorem runs_receive_iff {m : Reader GdbError α} {a : α} :
    Runs (receive m) channel a channel' ↔
      Runs m channel.incoming a channel'.incoming ∧ channel'.written = channel.written := by
  obtain ⟨incoming, written⟩ := channel
  obtain ⟨incoming', written'⟩ := channel'
  show ((m incoming).1, (⟨(m incoming).2, written⟩ : Channel)) = (.ok a, ⟨incoming', written'⟩) ↔
    m incoming = (.ok a, incoming') ∧ written' = written
  simp only [Prod.ext_iff, Channel.mk.injEq]
  tauto

theorem runs_ofExcept_iff {result : Except GdbError α} {a : α} :
    Runs (ofExcept result) channel a channel' ↔ result = .ok a ∧ channel' = channel := by
  cases result with
  | error e => simp [ofExcept, Runs]
  | ok b => simp [ofExcept, Runs, eq_comm]

theorem runs_writeAll_iff {bytes : Bytes} :
    Runs (writeAll bytes) channel () channel' ↔
      channel' = { channel with written := channel.written ++ bytes } := by
  simp [writeAll, Runs, eq_comm]

end Channel

variable {stream rest body : Bytes} {channel channel' : Channel}

theorem runs_readByteRequired_iff {context : String} {byte : UInt8} :
    Runs (readByteRequired context) stream byte rest ↔ stream = byte :: rest := by
  cases stream with
  | nil =>
    show (Except.error (GdbError.streamClosed context), ([] : Bytes)) = (.ok byte, rest) ↔ _
    simp
  | cons first stream =>
    show (Except.ok first, stream) = ((.ok byte : Except GdbError UInt8), rest) ↔ _
    simp

/-- Acknowledgements before a packet are skipped. -/
theorem awaitStart_eq_true_iff :
    awaitStart stream = (.ok true, rest) ↔
      ∃ acks : Bytes, (∀ ack ∈ acks, ack = 0x2b ∨ ack = 0x2d) ∧
        stream = acks ++ 0x24 :: rest := by
  constructor
  · intro h
    fun_induction awaitStart stream
    case case2 rest' =>
      obtain rfl : rest' = rest := by simpa using h
      exact ⟨[], by simp, rfl⟩
    case case3 byte rest' _ hack ih =>
      obtain ⟨acks, hacks, rfl⟩ := ih h
      exact ⟨byte :: acks, forall_mem_cons.mpr ⟨hack, hacks⟩, rfl⟩
    all_goals simp at h
  · rintro ⟨acks, hacks, rfl⟩
    induction acks with
    | nil => rfl
    | cons ack acks ih =>
      obtain ⟨hack, hacks⟩ := forall_mem_cons.mp hacks
      have hstart : ack ≠ 0x24 := by rcases hack with rfl | rfl <;> decide
      rw [cons_append, awaitStart, if_neg hstart, if_pos hack, ih hacks]

/-- The raw data are what stands before the first `#`. -/
theorem readData_eq_ok_iff {data more : Bytes} (hdata : data.length ≤ maxPacketBytes) :
    readData data stream = (.ok more, rest) ↔
      ∃ raw, more = data ++ raw ∧ stream = raw ++ 0x23 :: rest ∧ (0x23 : UInt8) ∉ raw ∧
        more.length ≤ maxPacketBytes := by
  constructor
  · intro h
    fun_induction readData data stream
    case case2 data rest' =>
      obtain ⟨rfl, rfl⟩ : data = more ∧ rest' = rest := by simpa using h
      exact ⟨[], by simp, rfl, by simp, hdata⟩
    case case4 data byte rest' hbyte hcap ih =>
      obtain ⟨raw, rfl, rfl, hhash, hlen⟩ := ih (not_lt.mp hcap) h
      refine ⟨byte :: raw, by simp, rfl, ?_, hlen⟩
      rw [mem_cons, not_or]
      exact ⟨Ne.symm hbyte, hhash⟩
    all_goals simp at h
  · rintro ⟨raw, rfl, rfl, hhash, hlen⟩
    induction raw generalizing data with
    | nil => simp [readData]
    | cons byte raw ih =>
      rw [mem_cons, not_or] at hhash
      have hcap : ¬(data ++ [byte]).length > maxPacketBytes := by
        simp at hlen ⊢
        omega
      have hassoc : data ++ byte :: raw = data ++ [byte] ++ raw := by simp
      rw [cons_append, readData, if_neg (Ne.symm hhash.1), if_neg hcap, hassoc]
      exact ih (not_lt.mp hcap) hhash.2 (hassoc ▸ hlen)

/-- **The parts of a packet in the stream**: acknowledgements, the raw data between `$` and the
first `#`, the two checksum characters, and what follows. -/
def OnWire (incoming data : Bytes) (c₁ c₂ : UInt8) (rest : Bytes) : Prop :=
  ∃ acks : Bytes, (∀ ack ∈ acks, ack = 0x2b ∨ ack = 0x2d) ∧
    incoming = acks ++ 0x24 :: (data ++ 0x23 :: c₁ :: c₂ :: rest) ∧ (0x23 : UInt8) ∉ data

theorem runs_checkPacket_iff {data : Bytes} {c₁ c₂ : UInt8} :
    Runs (checkPacket data c₁ c₂) channel body channel' ↔
      parseHexByte [c₁, c₂] = .ok (rspChecksum data) ∧ unescape data = .ok body ∧
        channel' = { channel with written := channel.written ++ [0x2b] } := by
  constructor
  · intro h
    obtain ⟨given, channel₁, hgiven, hrest⟩ := runs_bind_iff.1 h
    obtain ⟨hparse, rfl⟩ := runs_ofExcept_iff.1 hgiven
    by_cases hsum : given = rspChecksum data
    · rw [if_neg (not_not.mpr hsum)] at hrest
      obtain ⟨⟨⟩, channel₂, hack, hdecode⟩ := runs_bind_iff.1 hrest
      obtain rfl := runs_writeAll_iff.1 hack
      obtain ⟨hbody, rfl⟩ := runs_ofExcept_iff.1 hdecode
      exact ⟨hsum ▸ hparse, hbody, rfl⟩
    · rw [if_pos hsum] at hrest
      obtain ⟨⟨⟩, channel₂, -, hthrow⟩ := runs_bind_iff.1 hrest
      simp [Runs] at hthrow
  · rintro ⟨hparse, hbody, rfl⟩
    refine (runs_ofExcept_iff.2 ⟨hparse, rfl⟩).bind ?_
    rw [if_neg (not_not.mpr rfl)]
    exact (runs_writeAll_iff.2 rfl).bind (runs_ofExcept_iff.2 ⟨hbody, rfl⟩)

theorem runs_recvPacket_iff_opt :
    Runs recvPacket channel body channel' ↔ Runs recvPacketOpt channel (some body) channel' := by
  refine ⟨fun h ↦ ?_, fun h ↦ h.bind (Runs.pure body channel')⟩
  obtain ⟨opt, channel₁, hopt, hret⟩ := runs_bind_iff.1 h
  rcases opt with - | body'
  · simp [Runs] at hret
  · obtain ⟨rfl, rfl⟩ : body' = body ∧ channel₁ = channel' := by simpa [Runs] using hret
    exact hopt

/-- **Everything that a packet has to satisfy to be received.** -/
theorem runs_recvPacket_iff :
    Runs recvPacket channel body channel' ↔
      ∃ data c₁ c₂, OnWire channel.incoming data c₁ c₂ channel'.incoming ∧
        data.length ≤ maxPacketBytes ∧ parseHexByte [c₁, c₂] = .ok (rspChecksum data) ∧
        unescape data = .ok body ∧ channel'.written = channel.written ++ [0x2b] := by
  rw [runs_recvPacket_iff_opt]
  have hnil : ([] : Bytes).length ≤ maxPacketBytes := Nat.zero_le _
  constructor
  · intro h
    obtain ⟨started, channel₁, hstart, h⟩ := runs_bind_iff.1 h
    cases started with
    | false => simp [Runs] at h
    | true =>
      obtain ⟨data, channel₂, hdata, h⟩ := runs_bind_iff.1 h
      obtain ⟨c₁, channel₃, hc₁, h⟩ := runs_bind_iff.1 h
      obtain ⟨c₂, channel₄, hc₂, h⟩ := runs_bind_iff.1 h
      obtain ⟨body', channel₅, hcheck, h⟩ := runs_bind_iff.1 h
      obtain ⟨rfl, rfl⟩ : body' = body ∧ channel₅ = channel' := by simpa [Runs] using h
      obtain ⟨hstart, hw₁⟩ := runs_receive_iff.1 hstart
      obtain ⟨hdata, hw₂⟩ := runs_receive_iff.1 hdata
      obtain ⟨hc₁, hw₃⟩ := runs_receive_iff.1 hc₁
      obtain ⟨hc₂, hw₄⟩ := runs_receive_iff.1 hc₂
      obtain ⟨hparse, hbody, rfl⟩ := runs_checkPacket_iff.1 hcheck
      obtain ⟨acks, hacks, hwire⟩ := awaitStart_eq_true_iff.1 hstart
      obtain ⟨raw, hmore, hraw, hhash, hlen⟩ := (readData_eq_ok_iff hnil).1 hdata
      obtain rfl : data = raw := hmore
      have hc₁ := runs_readByteRequired_iff.1 hc₁
      have hc₂ := runs_readByteRequired_iff.1 hc₂
      rw [hraw, hc₁, hc₂] at hwire
      refine ⟨data, c₁, c₂, ⟨acks, hacks, hwire, hhash⟩, hlen, hparse, hbody, ?_⟩
      show channel₄.written ++ [0x2b] = _
      rw [hw₄, hw₃, hw₂, hw₁]
  · rintro ⟨data, c₁, c₂, ⟨acks, hacks, hwire, hhash⟩, hlen, hparse, hbody, hwritten⟩
    obtain ⟨incoming, written⟩ := channel
    obtain ⟨rest, written'⟩ := channel'
    obtain rfl : written' = written ++ [0x2b] := hwritten
    obtain rfl : incoming = acks ++ 0x24 :: (data ++ 0x23 :: c₁ :: c₂ :: rest) := hwire
    refine runs_bind_iff.2 ⟨true, ⟨data ++ 0x23 :: c₁ :: c₂ :: rest, written⟩,
      runs_receive_iff.2 ⟨awaitStart_eq_true_iff.2 ⟨acks, hacks, rfl⟩, rfl⟩, ?_⟩
    refine runs_bind_iff.2 ⟨data, ⟨c₁ :: c₂ :: rest, written⟩, runs_receive_iff.2
      ⟨(readData_eq_ok_iff hnil).2 ⟨data, rfl, rfl, hhash, hlen⟩, rfl⟩, ?_⟩
    refine runs_bind_iff.2 ⟨c₁, ⟨c₂ :: rest, written⟩,
      runs_receive_iff.2 ⟨runs_readByteRequired_iff.2 rfl, rfl⟩, ?_⟩
    refine runs_bind_iff.2 ⟨c₂, ⟨rest, written⟩,
      runs_receive_iff.2 ⟨runs_readByteRequired_iff.2 rfl, rfl⟩, ?_⟩
    exact (runs_checkPacket_iff.2 ⟨hparse, hbody, rfl⟩).bind (Runs.pure _ _)

/-- **The checksum of a packet is two digits exactly when** it has no sign. -/
theorem spelled_iff_of_parseHexByte {c₁ c₂ value : UInt8} (h : parseHexByte [c₁, c₂] = .ok value) :
    isHexDigit c₁ ∧ isHexDigit c₂ ∧ spelled c₁ c₂ = some value ↔ c₁ ≠ 0x2b := by
  constructor
  · rintro ⟨hdigit, -⟩ rfl
    exact absurd hdigit (by decide)
  · intro hsign
    have hspelled := ((parseHexByte_eq_ok_iff _ _ _).1 h).resolve_right fun h ↦ hsign h.1
    obtain ⟨h₁, h₂⟩ := isHexDigit_of_spelled hspelled
    exact ⟨h₁, h₂, hspelled⟩

/-! ### What a memory read accepts -/

theorem of_parseHexPairs {reply bytes : Bytes} (h : parseHexPairs reply = .ok bytes)
    (heven : reply.length % 2 = 0) :
    reply.length = 2 * bytes.length ∧
      (reply.all isHexDigit ↔ (0x2b : UInt8) ∉ reply) := by
  fun_induction parseHexPairs reply generalizing bytes
  case case1 c₁ c₂ rest ih =>
    obtain ⟨byte, hbyte, h⟩ := ok_of_bind h
    obtain ⟨bytes', hbytes, h⟩ := ok_of_bind h
    obtain rfl : byte :: bytes' = bytes := Except.ok.inj h
    obtain ⟨hlen, hiff⟩ := ih hbytes (by simp at heven; omega)
    obtain ⟨h₁, h₂⟩ : (isHexDigit c₁ ↔ c₁ ≠ 0x2b) ∧ isHexDigit c₂ := by
      rcases (parseHexByte_eq_ok_iff _ _ _).1 hbyte with hspelled | ⟨rfl, hspelled⟩
      · obtain ⟨h₁, h₂⟩ := isHexDigit_of_spelled hspelled
        refine ⟨⟨fun _ ↦ ?_, fun _ ↦ h₁⟩, h₂⟩
        rintro rfl
        exact absurd h₁ (by decide)
      · exact ⟨by decide, (isHexDigit_of_spelled hspelled).2⟩
    have hne : c₂ ≠ 0x2b := by
      rintro rfl
      exact absurd h₂ (by decide)
    refine ⟨by simp [hlen]; omega, ?_⟩
    rw [all_cons, all_cons, Bool.and_eq_true, Bool.and_eq_true, h₁, hiff, mem_cons, mem_cons]
    simp only [h₂, true_and, not_or]
    exact and_congr ne_comm (and_iff_right (Ne.symm hne)).symm
  case case2 reply hshort =>
    obtain rfl : [] = bytes := Except.ok.inj h
    rcases reply with - | ⟨c, - | ⟨c', rest⟩⟩
    · simp
    · simp at heven
    · exact absurd rfl (hshort c c' rest)

/-- **The reply to a memory read consists of the digits that were asked for exactly when there is no
sign among them.** -/
theorem strict_of_runs_readMemory_iff {address : UInt64} {length : ℕ} {bytes : Bytes}
    (h : Runs (readMemory address length) channel bytes channel') :
    ∃ reply channel₁, Runs (sendPacket (memoryReadPacket address length)) channel () channel₁ ∧
      Runs recvPacket channel₁ reply channel' ∧
      (reply.length = 2 * length ∧ reply.all isHexDigit ↔ (0x2b : UInt8) ∉ reply) := by
  rw [readMemory] at h
  split at h
  · simp [Runs] at h
  obtain ⟨reply, channel₂, hcommand, hrest⟩ := runs_bind_iff.1 h
  obtain ⟨⟨⟩, channel₁, hsend, hrecv⟩ := runs_bind_iff.1 hcommand
  split at hrest
  · simp [Runs] at hrest
  obtain ⟨bytes', channel₃, hdecode, hret⟩ := runs_bind_iff.1 hrest
  obtain ⟨hhex, rfl⟩ := runs_ofExcept_iff.1 hdecode
  split at hret
  · simp [Runs] at hret
  next hlen =>
  obtain ⟨-, rfl⟩ : bytes' = bytes ∧ channel₃ = channel' := by simpa [Runs] using hret
  rw [fromHex] at hhex
  split at hhex
  · contradiction
  next heven =>
  obtain ⟨hdouble, hiff⟩ := of_parseHexPairs hhex (not_not.mp heven)
  refine ⟨reply, channel₁, hsend, hrecv, ?_⟩
  rw [hdouble, not_not.mp hlen, hiff]
  exact and_iff_right rfl

/-- **Reception is bounded and strict exactly when** no received packet stands for more bytes than
the cap, no checksum begins with a sign and no reply to a memory read holds one. -/
theorem recvPacket_strict_iff (channel : Channel) :
    (∀ body channel', Runs recvPacket channel body channel' →
      ∃ data c₁ c₂, OnWire channel.incoming data c₁ c₂ channel'.incoming ∧
        (body.length ≤ maxPacketBytes ∧ isHexDigit c₁ ∧ isHexDigit c₂ ∧
            spelled c₁ c₂ = some (rspChecksum data) ↔
          expandedLength data ≤ maxPacketBytes ∧ c₁ ≠ 0x2b)) ∧
    ∀ address length bytes channel',
      Runs (readMemory address length) channel bytes channel' →
      ∃ reply channel₁, Runs (sendPacket (memoryReadPacket address length)) channel () channel₁ ∧
        Runs recvPacket channel₁ reply channel' ∧
        (reply.length = 2 * length ∧ reply.all isHexDigit = true ↔ (0x2b : UInt8) ∉ reply) := by
  refine ⟨fun body channel' h ↦ ?_, fun _ _ _ _ h ↦ strict_of_runs_readMemory_iff h⟩
  obtain ⟨data, c₁, c₂, hwire, -, hparse, hbody, -⟩ := runs_recvPacket_iff.1 h
  have hlen : body.length = expandedLength data := by
    simpa using length_of_unescapeFrom hbody
  exact ⟨data, c₁, c₂, hwire, by rw [hlen, spelled_iff_of_parseHexByte hparse]⟩

/-- An acknowledgement and the two bytes `0aff`, with their checksum `5d`. -/
def memoryReply : Bytes :=
  [0x2b, 0x24, 0x30, 0x61, 0x66, 0x66, 0x23, 0x35, 0x64]

/-- It is received as a packet, and as the answer to a memory read. -/
theorem recvPacket_strict_memoryReply :
    (∃ body channel', Runs recvPacket ⟨memoryReply, []⟩ body channel' ∧
      ∃ data c₁ c₂, OnWire memoryReply data c₁ c₂ channel'.incoming ∧
        (body.length ≤ maxPacketBytes ∧ isHexDigit c₁ ∧ isHexDigit c₂ ∧
            spelled c₁ c₂ = some (rspChecksum data) ↔
          expandedLength data ≤ maxPacketBytes ∧ c₁ ≠ 0x2b)) ∧
    ∃ channel', Runs (readMemory 0x10 2) ⟨memoryReply, []⟩ [0x0a, 0xff] channel' ∧
      ∃ reply channel₁, Runs (sendPacket (memoryReadPacket 0x10 2)) ⟨memoryReply, []⟩ () channel₁ ∧
        Runs recvPacket channel₁ reply channel' ∧
        (reply.length = 2 * 2 ∧ reply.all isHexDigit = true ↔ (0x2b : UInt8) ∉ reply) := by
  have hrecv (acks written : Bytes) (hacks : ∀ ack ∈ acks, ack = 0x2b ∨ ack = 0x2d) :
      Runs recvPacket ⟨acks ++ memoryReply.tail, written⟩ [0x30, 0x61, 0x66, 0x66]
        ⟨[], written ++ [0x2b]⟩ :=
    runs_recvPacket_iff.2 ⟨[0x30, 0x61, 0x66, 0x66], 0x35, 0x64, ⟨acks, hacks, rfl, by decide⟩,
      by decide, (parseHexByte_eq_ok_iff _ _ _).2 (.inl (by decide)), rfl, rfl⟩
  have hpacket := hrecv [0x2b] [] (by simp)
  have hread : Runs (readMemory 0x10 2) ⟨memoryReply, []⟩ [0x0a, 0xff]
      ⟨[], encodePacket (memoryReadPacket 0x10 2) ++ [0x2b]⟩ := by
    have hcommand : Runs (command (memoryReadPacket 0x10 2)) ⟨memoryReply, []⟩ _ _ :=
      .bind rfl (hrecv [] _ (by simp))
    exact hcommand.bind rfl
  exact ⟨⟨_, _, hpacket, (recvPacket_strict_iff _).1 _ _ hpacket⟩,
    _, hread, (recvPacket_strict_iff _).2 _ _ _ _ hread⟩

/-- Runs that fill a packet. -/
theorem unescapeFrom_runs (byte : UInt8) (tail : Bytes) (k n : ℕ)
    (h : n + 1 + 97 * k ≤ maxPacketBytes) :
    unescapeFrom (replicate (n + 1) byte) ((replicate k [runLength, 0x7e]).flatten ++ tail) =
      unescapeFrom (replicate (n + 1 + 97 * k) byte) tail := by
  induction k generalizing n with
  | zero => simp
  | succ k ih =>
    have hlast : (replicate (n + 1) byte).getLast? = some byte := by
      simp [getLast?_replicate]
    have hcount : (0x7e : UInt8).toNat - 29 = 97 := rfl
    have hsplit : (replicate (k + 1) [runLength, 0x7e]).flatten ++ tail =
        runLength :: 0x7e :: ((replicate k [runLength, 0x7e]).flatten ++ tail) := rfl
    rw [hsplit, unescapeFrom_run hlast, if_neg (by decide), hcount, length_replicate,
      if_neg (by omega), ← replicate_add, show n + 1 + 97 = n + 97 + 1 by omega,
      ih (n + 97) (by omega), show n + 97 + 1 + 97 * k = n + 1 + 97 * (k + 1) by omega]

theorem unescapeFrom_replicate {byte : UInt8} (hescape : byte ≠ escape) (hrun : byte ≠ runLength)
    (k : ℕ) (out : Bytes) :
    unescapeFrom out (replicate k byte) = .ok (out ++ replicate k byte) := by
  induction k generalizing out with
  | zero => simp [unescapeFrom]
  | succ k ih =>
    rw [replicate_succ, unescapeFrom_plain hescape hrun, ih, append_assoc]
    rfl

/-- A byte, runs of it up to the cap, and twelve more. -/
def cappedRuns : Bytes :=
  0x61 :: ((List.replicate 21620 [runLength, 0x7e]).flatten ++ List.replicate 12 0x61)

theorem unescape_cappedRuns : unescape cappedRuns = .ok (replicate 2097153 0x61) := by
  have hruns := unescapeFrom_runs 0x61 (replicate 12 0x61) 21620 0 (by decide)
  rw [unescape, cappedRuns, unescapeFrom_plain (by decide) (by decide)]
  show unescapeFrom (replicate (0 + 1) 0x61) _ = _
  rw [hruns, unescapeFrom_replicate (by decide) (by decide), ← replicate_add]

theorem hash_not_mem_cappedRuns : (0x23 : UInt8) ∉ cappedRuns := by
  simp only [cappedRuns, mem_cons, mem_append, mem_flatten, mem_replicate,
    not_or, not_exists, not_and]
  refine ⟨by decide, ?_, fun _ ↦ by decide⟩
  rintro _ ⟨-, rfl⟩
  decide

theorem length_cappedRuns : cappedRuns.length = 43253 := by
  rw [cappedRuns, length_cons, length_append, length_replicate, length_flatten,
    map_replicate, sum_replicate_nat]
  rfl

/-- The checksum `+5` is accepted, and a packet of runs and plain bytes exceeds the cap. -/
theorem recvPacket_not_strict :
    (∃ body channel', Runs recvPacket ⟨[0x24, 0x05, 0x23, 0x2b, 0x35], []⟩ body channel' ∧
      ¬∃ data c₁ c₂, OnWire [0x24, 0x05, 0x23, 0x2b, 0x35] data c₁ c₂ channel'.incoming ∧
        isHexDigit c₁ = true) ∧
    ∃ channel body channel', Runs recvPacket channel body channel' ∧
      maxPacketBytes < body.length := by
  constructor
  · have hrun : Runs recvPacket ⟨[0x24, 0x05, 0x23, 0x2b, 0x35], []⟩ [0x05] ⟨[], [0x2b]⟩ :=
      runs_recvPacket_iff.2 ⟨[0x05], 0x2b, 0x35, ⟨[], by simp, rfl, by decide⟩, by decide,
        (parseHexByte_eq_ok_iff _ _ _).2 (.inr ⟨rfl, by decide⟩), rfl, rfl⟩
    refine ⟨_, _, hrun, ?_⟩
    rintro ⟨data, c₁, c₂, ⟨acks, hacks, hwire, hhash⟩, hdigit⟩
    obtain rfl : acks = [] := by
      rcases acks with - | ⟨ack, acks⟩
      · rfl
      · obtain ⟨rfl, -⟩ := cons.inj hwire
        exact absurd (hacks 0x24 mem_cons_self) (by decide)
    have hlen := congrArg length hwire
    rcases data with - | ⟨d, - | ⟨d', data⟩⟩
    · simp at hwire
    · obtain rfl : 0x2b = c₁ := by simpa using (cons.inj (cons.inj (cons.inj
        (cons.inj hwire).2).2).2).1
      exact absurd hdigit (by decide)
    · simp at hlen
  · have hlen : cappedRuns.length ≤ maxPacketBytes := by
      rw [length_cappedRuns]
      decide
    have hrun : Runs recvPacket
        ⟨0x24 :: (cappedRuns ++ 0x23 :: hexByte (rspChecksum cappedRuns)), []⟩
        (replicate 2097153 0x61) ⟨[], [0x2b]⟩ :=
      runs_recvPacket_iff.2 ⟨cappedRuns, _, _, ⟨[], by simp, rfl, hash_not_mem_cappedRuns⟩, hlen,
        parseHexByte_hexByte _, unescape_cappedRuns, rfl⟩
    exact ⟨_, _, _, hrun, by rw [length_replicate]; decide⟩

end Bhf.TargetTransport
