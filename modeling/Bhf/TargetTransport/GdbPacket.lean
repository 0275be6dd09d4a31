import Bhf.Lib.Text
import Mathlib.Algebra.Ring.Nat

/-!
# Packets of the GDB remote serial protocol

A packet is `$`, the data, `#` and two hexadecimal digits of a checksum. In the data a byte may be
escaped, and a run of equal bytes may be compressed: `*` and a count character repeat the byte that
was decoded last. `Encodes` says which data stand for a byte string, and `expandedLength` how long
it is.

**Decoding gives back what was encoded** (`unescapeFrom_of_encodes`), with one exception: the byte
`0x03` is escaped to `#`, which ends the packet wherever it stands. **The checksum digits go through
an integer parser that also takes a sign** (`parseHexByte_eq_ok_iff`), so `+` and one digit are
accepted in the place of two digits.
-/

namespace Bhf.TargetTransport

open List

/-- RSP escape byte (`}`); the following byte is the real byte XOR 0x20. -/
def escape : UInt8 := 0x7d

/-- RSP run-length-encoding marker (`*`). -/
def runLength : UInt8 := 0x2a

def maxPacketBytes : ℕ := 2 * 1024 * 1024

/-- Why a packet is refused: one constructor for each message, with the values it shows. -/
inductive GdbError where
  | noPacketStart
  | noTerminator
  | truncatedChecksum
  | nonAsciiHexByte
  | invalidHexByte (text : Bytes)
  | oddHexLength (length : ℕ)
  | checksumMismatch (given want : UInt8)
  | danglingEscape
  | danglingRunLength
  | runLengthWithoutByte
  | invalidRunLength (countChar : UInt8)
  | runLengthExceedsCap
  | streamClosed (context : String)
  | unexpectedAck (other : UInt8)
  | retransmitLimit
  | unexpectedStart (other : UInt8)
  | packetExceedsCap
  | memoryReadTooLong (length : ℕ)
  | memoryReadLength (returned requested : ℕ)
  | targetError (address : ℕ) (response : Bytes)

/-! ### Hexadecimal digits -/

/-- The digit of a number below sixteen. -/
def hexChar (n : ℕ) : UInt8 :=
  if n < 10 then UInt8.ofNat (0x30 + n) else UInt8.ofNat (0x61 + (n - 10))

def hexByte (value : UInt8) : Bytes :=
  [hexChar (value.toNat / 16), hexChar (value.toNat % 16)]

/-- The value of a hexadecimal digit of either case. -/
def hexDigitValue (c : UInt8) : Option ℕ :=
  if 0x30 ≤ c ∧ c ≤ 0x39 then some (c.toNat - 0x30)
  else if 0x61 ≤ c ∧ c ≤ 0x66 then some (c.toNat - 0x61 + 10)
  else if 0x41 ≤ c ∧ c ≤ 0x46 then some (c.toNat - 0x41 + 10)
  else none

def isHexDigit (c : UInt8) : Bool :=
  (hexDigitValue c).isSome

/-- The digits of a `u8` after those that gave `result`. -/
def hexDigits : ℕ → Bytes → Option ℕ
  | result, [] => some result
  | result, c :: rest =>
    match hexDigitValue c with
    | none => none
    | some digit => if result * 16 + digit < 256 then hexDigits (result * 16 + digit) rest else none

/-- `u8::from_str_radix(text, 16)`: digits, which may have a `+` before them. -/
def fromStrRadix (text : Bytes) : Option UInt8 :=
  match text with
  | [] => none
  | first :: rest =>
    if first = 0x2b then
      if rest.isEmpty then none else (hexDigits 0 rest).map UInt8.ofNat
    else (hexDigits 0 (first :: rest)).map UInt8.ofNat

def parseHexByte (pair : Bytes) : Except GdbError UInt8 :=
  match String.fromUTF8? pair.toByteArray with
  | none => .error .nonAsciiHexByte
  | some _ =>
    match fromStrRadix pair with
    | none => .error (.invalidHexByte pair)
    | some value => .ok value

/-- The pairs of a list of even length, each parsed. -/
def parseHexPairs : Bytes → Except GdbError Bytes
  | c₁ :: c₂ :: rest => do
    let byte ← parseHexByte [c₁, c₂]
    let bytes ← parseHexPairs rest
    pure (byte :: bytes)
  | _ => .ok []

def fromHex (bytes : Bytes) : Except GdbError Bytes :=
  if bytes.length % 2 ≠ 0 then .error (.oddHexLength bytes.length) else parseHexPairs bytes

/-! ### Packets -/

/-- The RSP checksum: the low byte of the sum of the packet data bytes. -/
def rspChecksum (data : Bytes) : UInt8 :=
  data.foldl (· + ·) 0

def encodePacket (data : Bytes) : Bytes :=
  [0x24] ++ data ++ [0x23] ++ hexByte (rspChecksum data)

/-- The rest of the data, after those that gave `out`. -/
def unescapeFrom (out : Bytes) : Bytes → Except GdbError Bytes
  | [] => .ok out
  | byte :: rest =>
    if byte = escape then
      match rest with
      | [] => .error .danglingEscape
      | escaped :: rest => unescapeFrom (out ++ [escaped ^^^ 0x20]) rest
    else if byte = runLength then
      match rest with
      | [] => .error .danglingRunLength
      | countChar :: rest =>
        match out.getLast? with
        | none => .error .runLengthWithoutByte
        | some last =>
          if countChar.toNat < 29 then .error (.invalidRunLength countChar)
          else if out.length + (countChar.toNat - 29) > maxPacketBytes then
            .error .runLengthExceedsCap
          else unescapeFrom (out ++ List.replicate (countChar.toNat - 29) last) rest
    else unescapeFrom (out ++ [byte]) rest

def unescape (data : Bytes) : Except GdbError Bytes :=
  unescapeFrom [] data

def decodePacket (frame : Bytes) : Except GdbError Bytes :=
  if frame.head? ≠ some 0x24 then .error .noPacketStart
  else
    match frame.findIdx? (· == 0x23) with
    | none => .error .noTerminator
    | some hash =>
      let data := (frame.take hash).drop 1
      if frame.length < hash + 3 then .error .truncatedChecksum
      else
        match parseHexByte ((frame.drop (hash + 1)).take 2) with
        | .error e => .error e
        | .ok given =>
          if given ≠ rspChecksum data then .error (.checksumMismatch given (rspChecksum data))
          else unescape data

/-! ### Parsing of hexadecimal digits -/

variable {c byte : UInt8} {bytes out data : Bytes} {last : Option UInt8}

theorem hexDigitValue_lt {digit : ℕ} (h : hexDigitValue c = some digit) : digit < 16 := by
  simp only [hexDigitValue, UInt8.le_iff_toNat_le] at h
  split_ifs at h <;> simp only [Option.some.injEq] at h <;> simp at * <;> omega

theorem hexDigitValue_hexChar : ∀ n < 16, hexDigitValue (hexChar n) = some n := by
  decide

theorem fromUTF8?_of_lt (h : ∀ byte ∈ bytes, byte < 0x80) :
    ∃ text, String.fromUTF8? bytes.toByteArray = some text := by
  refine ⟨String.ofList (bytes.map Char.ofUInt8), ?_⟩
  have htext := fromUTF8?_utf8Bytes (String.ofList (bytes.map Char.ofUInt8))
  rwa [utf8Bytes_ofList_ascii h] at htext

/-- The value that two digits spell. -/
def spelled (c₁ c₂ : UInt8) : Option UInt8 :=
  match hexDigitValue c₁, hexDigitValue c₂ with
  | some high, some low => some (UInt8.ofNat (16 * high + low))
  | _, _ => none

theorem lt_of_isHexDigit (h : isHexDigit c) : c < 0x80 := by
  by_contra hge
  simp only [isHexDigit, hexDigitValue, UInt8.le_iff_toNat_le, UInt8.lt_iff_toNat_lt] at h hge
  split_ifs at h <;> simp at * <;> omega

theorem isHexDigit_of_spelled {c₁ c₂ value : UInt8} (h : spelled c₁ c₂ = some value) :
    isHexDigit c₁ ∧ isHexDigit c₂ := by
  rw [spelled] at h
  split at h
  · next high low hhigh hlow => simp [isHexDigit, hhigh, hlow]
  · contradiction

/-- **The parser takes two digits, or a sign and a digit.** -/
theorem fromStrRadix_pair (c₁ c₂ value : UInt8) :
    fromStrRadix [c₁, c₂] = some value ↔
      spelled c₁ c₂ = some value ∨ c₁ = 0x2b ∧ spelled 0x30 c₂ = some value := by
  have hzero : hexDigitValue 0x30 = some 0 := by decide
  have hplus : hexDigitValue 0x2b = none := by decide
  by_cases hsign : c₁ = 0x2b
  · subst hsign
    rcases hlow : hexDigitValue c₂ with - | low
    · simp [fromStrRadix, hexDigits, spelled, hzero, hplus, hlow]
    · have hlt := hexDigitValue_lt hlow
      have : low < 256 := by omega
      simp [fromStrRadix, hexDigits, spelled, hzero, hplus, hlow, this]
  · rcases hhigh : hexDigitValue c₁ with - | high
    · simp [fromStrRadix, hexDigits, spelled, hsign, hhigh]
    · rcases hlow : hexDigitValue c₂ with - | low
      · have := hexDigitValue_lt hhigh
        have : high < 256 := by omega
        simp [fromStrRadix, hexDigits, spelled, hsign, hhigh, hlow, this]
      · have := hexDigitValue_lt hhigh
        have := hexDigitValue_lt hlow
        have hfirst : high < 256 := by omega
        have hboth : high * 16 + low < 256 := by omega
        simp [fromStrRadix, hexDigits, spelled, hsign, hhigh, hlow, hfirst, hboth, mul_comm]

theorem parseHexByte_eq_ok_iff (c₁ c₂ value : UInt8) :
    parseHexByte [c₁, c₂] = .ok value ↔
      spelled c₁ c₂ = some value ∨ c₁ = 0x2b ∧ spelled 0x30 c₂ = some value := by
  rw [← fromStrRadix_pair, parseHexByte]
  constructor
  · intro h
    split at h
    · contradiction
    · split at h
      · contradiction
      · next heq => rwa [← Except.ok.inj h]
  · intro h
    have hascii : ∀ byte ∈ [c₁, c₂], byte < 0x80 := by
      rw [forall_mem_cons, forall_mem_singleton]
      rcases (fromStrRadix_pair c₁ c₂ value).mp h with hdigits | ⟨rfl, hdigit⟩
      · obtain ⟨h₁, h₂⟩ := isHexDigit_of_spelled hdigits
        exact ⟨lt_of_isHexDigit h₁, lt_of_isHexDigit h₂⟩
      · exact ⟨by decide, lt_of_isHexDigit (isHexDigit_of_spelled hdigit).2⟩
    obtain ⟨text, htext⟩ := fromUTF8?_of_lt hascii
    simp only [htext, h]

theorem spelled_hexByte (value : UInt8) :
    spelled (hexChar (value.toNat / 16)) (hexChar (value.toNat % 16)) = some value := by
  have hlt := value.toNat_lt
  rw [spelled, hexDigitValue_hexChar _ (by omega), hexDigitValue_hexChar _ (by omega)]
  show some (UInt8.ofNat (16 * (value.toNat / 16) + value.toNat % 16)) = some value
  rw [Nat.div_add_mod, UInt8.ofNat_toNat]

theorem parseHexByte_hexByte (value : UInt8) : parseHexByte (hexByte value) = .ok value :=
  (parseHexByte_eq_ok_iff _ _ value).mpr (.inl (spelled_hexByte value))

/-! ### Encodings -/

theorem unescapeFrom_plain (hescape : byte ≠ escape) (hrun : byte ≠ runLength)
    (out rest : Bytes) :
    unescapeFrom out (byte :: rest) = unescapeFrom (out ++ [byte]) rest := by
  rw [unescapeFrom.eq_def]
  simp only [if_neg hescape, if_neg hrun]

theorem unescapeFrom_run {last : UInt8} (hlast : out.getLast? = some last) (countChar : UInt8)
    (rest : Bytes) :
    unescapeFrom out (runLength :: countChar :: rest) =
      if countChar.toNat < 29 then .error (.invalidRunLength countChar)
      else if out.length + (countChar.toNat - 29) > maxPacketBytes then .error .runLengthExceedsCap
      else unescapeFrom (out ++ List.replicate (countChar.toNat - 29) last) rest := by
  have hne : runLength ≠ escape := by decide
  rw [unescapeFrom.eq_def]
  simp only [if_neg hne, if_true, hlast]

/-- The data stand for a byte string when the byte before it is `last`. Each byte is written
plainly, if it has no meaning of its own, or escaped, if it is `escapable`; and after a byte a run
of its copies may be compressed. -/
inductive Encodes (escapable : UInt8 → Prop) : Option UInt8 → Bytes → Bytes → Prop
  | nil (last : Option UInt8) : Encodes escapable last [] []
  | plain {last : Option UInt8} {byte : UInt8} {data bytes : Bytes}
      (hplain : byte ∉ [0x23, 0x24, 0x7d, 0x2a]) (h : Encodes escapable (some byte) data bytes) :
      Encodes escapable last (byte :: data) (byte :: bytes)
  | escaped {last : Option UInt8} {byte : UInt8} {data bytes : Bytes}
      (hescape : escapable byte) (h : Encodes escapable (some byte) data bytes) :
      Encodes escapable last (0x7d :: (byte ^^^ 0x20) :: data) (byte :: bytes)
  | run {byte : UInt8} {count : ℕ} {data bytes : Bytes} (hcount : 3 ≤ count)
      (hprintable : 29 + count ≤ 0x7e) (hchar : UInt8.ofNat (29 + count) ∉ [0x23, 0x24])
      (h : Encodes escapable (some byte) data bytes) :
      Encodes escapable (some byte) (0x2a :: UInt8.ofNat (29 + count) :: data)
        (List.replicate count byte ++ bytes)

/-- **Decoding gives back what was encoded**, after any bytes that were decoded before. -/
theorem unescapeFrom_of_encodes {escapable : UInt8 → Prop} (h : Encodes escapable last data bytes) :
    ∀ out : Bytes, out.getLast? = last → out.length + bytes.length ≤ maxPacketBytes →
      unescapeFrom out data = .ok (out ++ bytes) := by
  induction h with
  | nil last =>
    intro out _ _
    rw [unescapeFrom, append_nil]
  | @plain last byte data bytes hplain h ih =>
    intro out _ hlen
    simp only [mem_cons, not_mem_nil, or_false, not_or] at hplain
    obtain ⟨-, -, hescape, hrun⟩ := hplain
    have ih := ih (out ++ [byte]) (by simp) (by simp at hlen ⊢; omega)
    rw [unescapeFrom_plain hescape hrun, ih, append_assoc]
    rfl
  | @escaped last byte data bytes hescape h ih =>
    intro out _ hlen
    have hxor : byte ^^^ 0x20 ^^^ 0x20 = byte := by
      rw [UInt8.xor_assoc, UInt8.xor_self, UInt8.xor_zero]
    have ih := ih (out ++ [byte]) (by simp) (by simp at hlen ⊢; omega)
    show unescapeFrom out (escape :: (byte ^^^ 0x20) :: data) = _
    rw [unescapeFrom.eq_def]
    simp only [if_true]
    rw [hxor, ih, append_assoc]
    rfl
  | @run byte count data bytes hcount hprintable hchar h ih =>
    intro out hlast hlen
    rw [length_append, length_replicate] at hlen
    have hchar : (UInt8.ofNat (29 + count)).toNat = 29 + count := by
      rw [UInt8.toNat_ofNat']
      omega
    have hlast' : (out ++ replicate count byte).getLast? = some byte := by
      rw [getLast?_append, hlast]
      rcases count with - | count
      · rfl
      · simp [getLast?_replicate]
    have ih := ih _ hlast' (by simp; omega)
    show unescapeFrom out (runLength :: UInt8.ofNat (29 + count) :: data) = _
    rw [unescapeFrom_run hlast, hchar, if_neg (by omega), if_neg (by omega),
      Nat.add_sub_cancel_left, ih, append_assoc]

/-- Data in which `0x03` is not escaped do not end the packet. -/
theorem hash_not_mem_of_encodes (h : Encodes (· ≠ 0x03) last data bytes) :
    (0x23 : UInt8) ∉ data := by
  induction h with
  | nil last => simp
  | plain hplain h ih =>
    simp only [mem_cons, not_or] at hplain ⊢
    exact ⟨Ne.symm hplain.1, ih⟩
  | @escaped last byte data bytes hescape h ih =>
    have hxor : byte ^^^ 0x20 ≠ 0x23 := by
      intro heq
      apply hescape
      rw [← UInt8.xor_zero (a := byte), ← UInt8.xor_self (a := 0x20), ← UInt8.xor_assoc, heq]
      rfl
    simp only [mem_cons, not_or]
    exact ⟨by decide, hxor.symm, ih⟩
  | run hcount hprintable hchar h ih =>
    simp only [mem_cons, not_or] at hchar ⊢
    exact ⟨by decide, Ne.symm hchar.1, ih⟩

/-- A frame is cut at its first `#`. -/
theorem decodePacket_frame (h : (0x23 : UInt8) ∉ data) (c₁ c₂ : UInt8) (rest : Bytes) :
    decodePacket (0x24 :: data ++ 0x23 :: c₁ :: c₂ :: rest) = match parseHexByte [c₁, c₂] with
      | .error e => .error e
      | .ok given =>
        if given ≠ rspChecksum data then .error (.checksumMismatch given (rspChecksum data))
        else unescape data := by
  have hhash : (0x24 :: data ++ 0x23 :: c₁ :: c₂ :: rest).findIdx? (· == 0x23) =
      some (data.length + 1) := by
    rw [findIdx?_append, findIdx?_eq_none_iff.mpr]
    · simp [findIdx?_cons]
    · rw [forall_mem_cons]
      refine ⟨rfl, fun byte hbyte ↦ ?_⟩
      rw [beq_eq_false_iff_ne]
      rintro rfl
      exact h hbyte
  have hdata : ((0x24 :: data ++ 0x23 :: c₁ :: c₂ :: rest).take (data.length + 1)).drop 1 =
      data := by
    rw [take_left' (by simp)]
    rfl
  have hpair : ((0x24 :: data ++ 0x23 :: c₁ :: c₂ :: rest).drop (data.length + 1 + 1)).take 2 =
      [c₁, c₂] := by
    simp
  have hlen : ¬(0x24 :: data ++ 0x23 :: c₁ :: c₂ :: rest).length < data.length + 1 + 3 := by
    simp
  rw [decodePacket, if_neg (by simp), hhash]
  simp only [if_neg hlen, hpair, hdata]

/-- A packet whose data do not end it is taken apart into these data. -/
theorem decodePacket_encodePacket (h : (0x23 : UInt8) ∉ data) :
    decodePacket (encodePacket data) = unescape data := by
  have hframe : encodePacket data = 0x24 :: data ++ 0x23 :: hexByte (rspChecksum data) := by
    simp [encodePacket]
  have hparse := parseHexByte_hexByte (rspChecksum data)
  rw [hexByte] at hframe hparse
  rw [hframe, decodePacket_frame h, hparse]
  exact if_neg (by simp)

/-- **Decoding inverts every encoding that does not escape the byte `0x03`**, whose escaped form is
the end of the packet. -/
theorem decodePacket_of_encodes {data bytes : Bytes} (hlen : bytes.length ≤ maxPacketBytes)
    (h : Encodes (· ≠ 0x03) none data bytes) : decodePacket (encodePacket data) = .ok bytes := by
  rw [decodePacket_encodePacket (hash_not_mem_of_encodes h)]
  exact unescapeFrom_of_encodes h [] rfl (by simpa using hlen)

/-- Four equal bytes as an escaped byte and a run of three. -/
theorem decodePacket_of_encodes_run :
    Encodes (· ≠ 0x03) none [0x7d, 0x0a, 0x2a, 0x20, 0x61] [0x2a, 0x2a, 0x2a, 0x2a, 0x61] ∧
      decodePacket (encodePacket [0x7d, 0x0a, 0x2a, 0x20, 0x61]) =
        .ok [0x2a, 0x2a, 0x2a, 0x2a, 0x61] := by
  have hplain : Encodes (· ≠ 0x03) (some 0x2a) [0x61] [0x61] := .plain (by decide) (.nil _)
  have hrun : Encodes (· ≠ 0x03) (some 0x2a) [0x2a, 0x20, 0x61] [0x2a, 0x2a, 0x2a, 0x61] :=
    .run (le_refl 3) (by decide) (by decide) hplain
  have hencodes : Encodes (· ≠ 0x03) none [0x7d, 0x0a, 0x2a, 0x20, 0x61]
      [0x2a, 0x2a, 0x2a, 0x2a, 0x61] := @Encodes.escaped _ none 0x2a _ _ (by decide) hrun
  exact ⟨hencodes, decodePacket_of_encodes (by decide) hencodes⟩

/-- The escaped byte `0x03` ends the packet that holds it. -/
theorem decodePacket_escaped_hash :
    Encodes (fun _ ↦ True) none [0x7d, 0x23] [0x03] ∧
      decodePacket (encodePacket [0x7d, 0x23]) ≠ .ok [0x03] := by
  refine ⟨@Encodes.escaped _ none 0x03 [] [] trivial (.nil _), ?_⟩
  have hframe : encodePacket [0x7d, 0x23] = 0x24 :: [0x7d] ++ 0x23 :: 0x23 :: 0x61 :: [0x30] := by
    decide
  have hpair : ∀ value, parseHexByte [0x23, 0x61] ≠ .ok value := by
    intro value h
    rcases (parseHexByte_eq_ok_iff _ _ value).mp h with h | ⟨h, -⟩
    · exact absurd (isHexDigit_of_spelled h).1 (by decide)
    · exact absurd h (by decide)
  rw [hframe, decodePacket_frame (by decide)]
  rcases hparse : parseHexByte [0x23, 0x61] with e | value
  · simp
  · exact absurd hparse (hpair value)

/-! ### The length of what is decoded -/

/-- How many bytes the data stand for: one for a plain or an escaped byte, the count for a run. -/
def expandedLength : Bytes → ℕ
  | [] => 0
  | byte :: rest =>
    if byte = escape then
      match rest with
      | [] => 0
      | _ :: rest => 1 + expandedLength rest
    else if byte = runLength then
      match rest with
      | [] => 0
      | countChar :: rest => countChar.toNat - 29 + expandedLength rest
    else 1 + expandedLength rest

/-- **What is decoded has the length that the data stand for**: only a run is checked against the
cap, so bytes after the last run may go beyond it. -/
theorem length_of_unescapeFrom (h : unescapeFrom out data = .ok bytes) :
    bytes.length = out.length + expandedLength data := by
  fun_induction unescapeFrom out data
  case case1 out => simp [← Except.ok.inj h, expandedLength]
  case case3 out escaped rest ih =>
    rw [expandedLength.eq_def, ih h, length_append, length_singleton]
    simp only [if_true]
    omega
  case case8 out countChar rest last _ _ _ _ ih =>
    have hne : runLength ≠ escape := by decide
    rw [expandedLength.eq_def, ih h, length_append, length_replicate]
    simp only [if_neg hne, if_true]
    omega
  case case9 out byte rest hescape hrun ih =>
    rw [expandedLength.eq_def, ih h, length_append, length_singleton]
    simp only [if_neg hescape, if_neg hrun]
    omega
  all_goals contradiction

end Bhf.TargetTransport
