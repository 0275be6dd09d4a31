import Bhf.Lib.Decimal
import Bhf.Lib.Stream
import Mathlib.Data.List.DropRight

/-!
# Frames of the JSON-RPC daemon

A message is written as a `Content-Length` header, an empty line and its body. The reader takes
header lines of any names up to the empty line, each within the byte limit, and then as many bytes
as the header said. The reader here has a stream that never fails, so that what can go wrong is in
the bytes.

**A frame is read back from what was written** (`parses_readFrameWithLimit`), whatever follows it,
when the limit has room for the header and the body. Frames therefore do not run into each other:
a concatenation of them is read back frame by frame.
-/

namespace Bhf.Daemon

open List

open StateExcept (Runs exec)
open Reader

inductive JsonRpcServerError
  | io (message : String)
  | invalidFrame (message : String)

/-! ### Writing -/

/-- The header line of a body of this length, without the line end. -/
def contentLengthLine (length : ℕ) : List Char :=
  "Content-Length: ".toList ++ paddedDecimal 1 length

def writeFrame (body : Bytes) : Bytes :=
  utf8Bytes (String.ofList (contentLengthLine body.length ++ ['\r', '\n', '\r', '\n'])) ++ body

/-! ### Reading -/

/-- What a header line says about the length, after the lines before it. -/
def contentLengthOf (header : List Char) (contentLength : Option ℕ) :
    Except JsonRpcServerError (Option ℕ) :=
  match header.dropWhile (· != ':') with
  | [] => .ok contentLength
  | _ :: value =>
    if eqIgnoreAsciiCase (header.takeWhile (· != ':')) "Content-Length".toList then
      if contentLength.isSome then .error (.invalidFrame "duplicate Content-Length header")
      else
        let digits := (trim (String.ofList value)).toList
        if digits.isEmpty || !digits.all Char.isDigit then
          .error (.invalidFrame "invalid Content-Length: expected unsigned decimal digits")
        else if decimalValue digits < 2 ^ 64 then .ok (some (decimalValue digits))
        else .error (.invalidFrame
          "invalid Content-Length: number too large to fit in target type")
    else .ok contentLength

def headersTooLong (limit : ℕ) : JsonRpcServerError :=
  .invalidFrame ("JSON-RPC headers exceed the memory-aware " ++ toString limit ++
    "-byte limit; set BHF_DAEMON_MAX_MESSAGE_BYTES to override")

def frameTooLong (limit : ℕ) : JsonRpcServerError :=
  .invalidFrame ("JSON-RPC frame exceeds the memory-aware " ++ toString limit ++
    "-byte limit; set BHF_DAEMON_MAX_MESSAGE_BYTES to override")

/-- One header line, of which at most `limit + 1` bytes are looked at. -/
def readHeaderLine (limit : ℕ) : Reader JsonRpcServerError String :=
  readLine (.io "stream did not contain valid UTF-8") (min (limit + 1) (2 ^ 64 - 1))

/-- The loop over the header lines. Nothing at the end of the stream; otherwise the length that the
headers gave, if they did. -/
def readHeaders (limit : ℕ) (contentLength : Option ℕ) (sawHeader : Bool) (headerBytes : ℕ)
    (stream : Bytes) : Except JsonRpcServerError (Option (Option ℕ)) × Bytes :=
  match hread : readHeaderLine limit stream with
  | (.error e, rest) => (.error e, rest)
  | (.ok line, rest) =>
    if headerBytes + line.utf8ByteSize > limit ∨
        (line.utf8ByteSize > 0 ∧ line.toList.getLast? ≠ some '\n') then
      (.error (headersTooLong limit), rest)
    else if hsize : line.utf8ByteSize = 0 then
      if sawHeader then
        (.error (.invalidFrame "unexpected EOF while reading JSON-RPC headers"), rest)
      else (.ok none, rest)
    else
      let header := line.toList.rdropWhile fun c ↦ c == '\r' || c == '\n'
      if header.isEmpty then (.ok (some contentLength), rest)
      else
        match contentLengthOf header contentLength with
        | .error e => (.error e, rest)
        | .ok contentLength =>
          have : rest.length < stream.length := by
            have := length_of_runs_readLine hread
            omega
          readHeaders limit contentLength true (headerBytes + line.utf8ByteSize) rest
termination_by stream.length

/-- The body after headers that gave its length. -/
def readBody (limit length : ℕ) : Reader JsonRpcServerError (Option Bytes) :=
  if length > limit then throw (frameTooLong limit)
  else do return some (← readExact (.io "failed to fill whole buffer") length)

def readFrameWithLimit (limit : ℕ) : Reader JsonRpcServerError (Option Bytes) := do
  let headers : Reader JsonRpcServerError (Option (Option ℕ)) := readHeaders limit none false 0
  match ← headers with
  | none => return none
  | some none => throw (.invalidFrame "missing Content-Length header")
  | some (some length) => readBody limit length

/-! ### The round trip -/

variable {length limit headerBytes : ℕ} {contentLength : Option ℕ} {sawHeader : Bool}
  {stream rest : Bytes}

theorem of_mem_contentLengthLine {c : Char} (hc : c ∈ contentLengthLine length) :
    c.toNat < 128 ∧ c ≠ '\n' ∧ c ≠ '\r' := by
  rcases mem_append.mp hc with hc | hc
  · have hall : "Content-Length: ".toList.all
        (fun c ↦ decide (c.toNat < 128 ∧ c ≠ '\n' ∧ c ≠ '\r')) := by decide
    exact of_decide_eq_true (all_eq_true.mp hall c hc)
  · obtain ⟨hle, hge⟩ := Char.isDigit_iff_toNat.mp (isDigit_of_mem_paddedDecimal hc)
    have hnine : '9'.toNat = 57 := rfl
    refine ⟨by omega, ?_, ?_⟩ <;> rintro rfl <;> simp at hle

theorem length_contentLengthLine_le (h : length < 2 ^ 64) :
    (contentLengthLine length).length ≤ 36 := by
  have hlt : length < 10 ^ 20 := by omega
  have hdigits : (paddedDecimal 1 length).length ≤ 20 :=
    length_paddedDecimal_one_le (by decide) hlt
  have hname : "Content-Length: ".toList.length = 16 := by decide
  have hlen : (contentLengthLine length).length =
      "Content-Length: ".toList.length + (paddedDecimal 1 length).length := length_append
  omega

/-- A text of ASCII characters and its line end are read as one line. -/
theorem parses_readHeaderLine {text : List Char} (hascii : ∀ c ∈ text, c.toNat < 128)
    (hline : '\n' ∉ text) (hlen : text.length ≤ limit) (hlimit : text.length < 2 ^ 64 - 1) :
    Parses (readHeaderLine limit) (utf8Bytes (String.ofList (text ++ ['\n'])))
      (String.ofList (text ++ ['\n'])) := by
  have hbytes : utf8Bytes (String.ofList (text ++ ['\n'])) = text.map Char.toUInt8 ++ [0x0a] := by
    rw [utf8Bytes_ofList_of_toNat_lt, map_append]
    · rfl
    · simpa [or_imp, forall_and] using hascii
  refine parses_readLine _ hbytes ?_ ?_
  · intro hmem
    obtain ⟨c, hc, heq⟩ := mem_map.mp hmem
    have hcode := ofUInt8_toUInt8 ((hascii c hc).trans (by decide))
    rw [heq] at hcode
    have hnewline : c = '\n' := hcode.symm
    exact hline (hnewline ▸ hc)
  · rw [length_map]
    omega

/-- A header line that is neither the last one nor too long is passed over. -/
theorem readHeaders_of_header {contentLength' : Option ℕ} {header : List Char} {line : String}
    (hread : Runs (readHeaderLine limit) stream line rest)
    (hheader : line.toList = header ++ ['\r', '\n']) (hne : header ≠ [])
    (hend : ∀ c ∈ header, c ≠ '\n' ∧ c ≠ '\r') (hsize : headerBytes + line.utf8ByteSize ≤ limit)
    (hlength : contentLengthOf header contentLength = .ok contentLength') :
    readHeaders limit contentLength sawHeader headerBytes stream =
      readHeaders limit contentLength' true (headerBytes + line.utf8ByteSize) rest := by
  have hread : readHeaderLine limit stream = (.ok line, rest) := hread
  have htrim : line.toList.rdropWhile (fun c ↦ c == '\r' || c == '\n') = header := by
    have hsplit : header ++ ['\r', '\n'] = header ++ ['\r'] ++ ['\n'] := by simp
    rw [hheader, hsplit, rdropWhile_concat_pos _ _ _ rfl, rdropWhile_concat_pos _ _ _ rfl,
      rdropWhile_eq_self_iff]
    intro hl
    simpa [and_comm] using hend _ (getLast_mem hl)
  have hlast : line.toList.getLast? = some '\n' := by simp [hheader]
  have hpos : line.utf8ByteSize ≠ 0 := by
    rw [ne_eq, String.utf8ByteSize_eq_zero_iff]
    rintro rfl
    simp at hlast
  rw [readHeaders]
  split
  · next heq => simp [hread] at heq
  · next line' rest' heq =>
    obtain ⟨rfl, rfl⟩ : line = line' ∧ rest = rest' := by simpa [hread] using heq
    rw [if_neg (by simp [hlast]; omega), dif_neg hpos]
    simp only [htrim, List.isEmpty_iff, hne, if_false, hlength]

/-- The empty line ends the headers. -/
theorem readHeaders_of_empty {line : String} (hread : Runs (readHeaderLine limit) stream line rest)
    (hline : line.toList = ['\r', '\n']) (hsize : headerBytes + line.utf8ByteSize ≤ limit) :
    readHeaders limit contentLength sawHeader headerBytes stream =
      (.ok (some contentLength), rest) := by
  have hread : readHeaderLine limit stream = (.ok line, rest) := hread
  have hpos : line.utf8ByteSize ≠ 0 := by
    rw [ne_eq, String.utf8ByteSize_eq_zero_iff]
    rintro rfl
    simp at hline
  rw [readHeaders]
  split
  · next heq => simp [hread] at heq
  · next line' rest' heq =>
    obtain ⟨rfl, rfl⟩ : line = line' ∧ rest = rest' := by simpa [hread] using heq
    rw [if_neg (by simp [hline]; omega), dif_neg hpos, hline]
    rfl

theorem toList_trim_space {digits : List Char} (h : ∀ c ∈ digits, c.isDigit) :
    (trim (String.ofList (' ' :: digits))).toList = digits := by
  have hdigit : ∀ c ∈ digits, isWhitespace c = false := by
    intro c hc
    obtain ⟨hle, hge⟩ := Char.isDigit_iff_toNat.mp (h c hc)
    have hzero : '0'.toNat = 48 := rfl
    have hnine : '9'.toNat = 57 := rfl
    simp only [isWhitespace, Bool.or_eq_false_iff, Bool.and_eq_false_iff, decide_eq_false_iff_not,
      beq_eq_false_iff_ne]
    omega
  have hdrop (l : List Char) (hl : ∀ c ∈ l, isWhitespace c = false) :
      l.dropWhile isWhitespace = l := by
    cases l with
    | nil => rfl
    | cons c l => rw [dropWhile_cons, hl c mem_cons_self]; rfl
  rw [trim, String.toList_ofList, String.toList_ofList]
  show ((digits.dropWhile isWhitespace).reverse.dropWhile isWhitespace).reverse = digits
  rw [hdrop _ hdigit, hdrop _ (by simpa using hdigit), reverse_reverse]

theorem contentLengthOf_contentLengthLine (h : length < 2 ^ 64) :
    contentLengthOf (contentLengthLine length) none = .ok (some length) := by
  have hdigit : ∀ c ∈ paddedDecimal 1 length, c.isDigit :=
    fun c hc ↦ isDigit_of_mem_paddedDecimal hc
  have hsplit : contentLengthLine length =
      "Content-Length".toList ++ ':' :: ' ' :: paddedDecimal 1 length := rfl
  have hname : ∀ c ∈ "Content-Length".toList, (c != ':') :=
    all_eq_true.mp (by decide)
  have hne : (paddedDecimal 1 length).isEmpty = false := by
    have := le_length_paddedDecimal 1 length
    rw [isEmpty_eq_false_iff]
    rintro hnil
    simp [hnil] at this
  rw [contentLengthOf, hsplit, takeWhile_append_of_pos hname]
  show (if eqIgnoreAsciiCase ("Content-Length".toList ++ []) "Content-Length".toList then _
    else _) = _
  simp only [toList_trim_space hdigit, hne, all_eq_true.mpr hdigit, decimalValue_paddedDecimal, h]
  rfl

theorem utf8ByteSize_ofList_of_toNat_lt {chars : List Char} (h : ∀ c ∈ chars, c.toNat < 128) :
    (String.ofList chars).utf8ByteSize = chars.length := by
  have hsize : (utf8Bytes (String.ofList chars)).length = (String.ofList chars).utf8ByteSize := by
    rfl
  rw [← hsize, utf8Bytes_ofList_of_toNat_lt h, length_map]

/-- The headers of a frame give the length. -/
theorem parses_readHeaders (hlimit : 512 ≤ limit) (hlength : length < 2 ^ 64) :
    Parses (readHeaders limit none false 0)
      (utf8Bytes (String.ofList (contentLengthLine length ++ ['\r', '\n', '\r', '\n'])))
      (some (some length)) := by
  intro rest
  have hlen := length_contentLengthLine_le hlength
  have hcr : ∀ c ∈ ['\r'], c.toNat < 128 := by simp
  have hascii : ∀ c ∈ contentLengthLine length ++ ['\r'], c.toNat < 128 := by
    rw [forall_mem_append]
    exact ⟨fun c hc ↦ (of_mem_contentLengthLine hc).1, hcr⟩
  have hline : '\n' ∉ contentLengthLine length ++ ['\r'] := by
    rw [mem_append, not_or]
    exact ⟨fun hc ↦ (of_mem_contentLengthLine hc).2.1 rfl, by decide⟩
  have hfirst : Parses (readHeaderLine limit) _ _ :=
    parses_readHeaderLine hascii hline (by simp; omega) (by simp; omega)
  have hsecond : Parses (readHeaderLine limit) _ _ :=
    parses_readHeaderLine hcr (by decide) (by simp; omega) (by decide)
  have htext : (String.ofList (contentLengthLine length ++ ['\r'] ++ ['\n'])).toList =
      contentLengthLine length ++ ['\r', '\n'] := by simp
  have hbytes : String.ofList (contentLengthLine length ++ ['\r', '\n', '\r', '\n']) =
      String.ofList (contentLengthLine length ++ ['\r'] ++ ['\n']) ++
        String.ofList (['\r'] ++ ['\n']) := by
    rw [← String.ofList_append]
    simp
  have hsize : (String.ofList (contentLengthLine length ++ ['\r'] ++ ['\n'])).utf8ByteSize =
      (contentLengthLine length).length + 2 := by
    rw [utf8ByteSize_ofList_of_toNat_lt]
    · simp
    · exact forall_mem_append.mpr ⟨hascii, by simp⟩
  have hsize' : (String.ofList (['\r'] ++ ['\n'])).utf8ByteSize = 2 :=
    utf8ByteSize_ofList_of_toNat_lt (by simp)
  have hne : contentLengthLine length ≠ [] := append_ne_nil_of_left_ne_nil (by decide) _
  rw [hbytes, utf8Bytes_append, append_assoc]
  show readHeaders limit none false 0 _ = _
  rw [readHeaders_of_header (hfirst _) htext hne
    (fun c hc ↦ (of_mem_contentLengthLine hc).2) (by omega)
    (contentLengthOf_contentLengthLine hlength),
    readHeaders_of_empty (hsecond rest) (by simp) (by omega)]

/-- **A frame is read back from what was written.** -/
theorem parses_readFrameWithLimit (hlimit : 512 ≤ limit) (hword : limit < 2 ^ 64)
    {body : Bytes} (hbody : body.length ≤ limit) :
    Parses (readFrameWithLimit limit) (writeFrame body) (some body) := by
  refine (parses_readHeaders hlimit (hbody.trans_lt hword)).bind ?_
  show Parses (readBody limit body.length) body (some body)
  rw [readBody, if_neg hbody.not_gt]
  exact (parses_readExact _ body).map some

/-- At the end of the stream there is no frame. -/
theorem runs_readFrameWithLimit_nil (limit : ℕ) : Runs (readFrameWithLimit limit) [] none [] := by
  have hline : readHeaderLine limit [] = (.ok "", []) := by
    have hof : lineOf (min (limit + 1) (2 ^ 64 - 1)) [] = [] := by
      rcases min (limit + 1) (2 ^ 64 - 1) with - | n <;> rfl
    rw [readHeaderLine, readLine, hof]
    rfl
  have hheaders : readHeaders limit none false 0 [] = (.ok none, []) := by
    rw [readHeaders]
    split
    · next heq => simp [hline] at heq
    · next line' rest' heq =>
      obtain ⟨rfl, rfl⟩ : line' = "" ∧ rest' = [] := by simpa [hline] using heq
      rfl
  exact Runs.bind hheaders (Runs.pure none [])

/-- Headers that end take at least their empty line from the stream. -/
theorem length_lt_of_readHeaders {length : Option ℕ}
    (h : readHeaders limit contentLength sawHeader headerBytes stream = (.ok (some length), rest)) :
    rest.length < stream.length := by
  fun_induction readHeaders limit contentLength sawHeader headerBytes stream
  case case5 line rest' hread _ hsize _ _ =>
    have := length_of_runs_readLine hread
    obtain ⟨-, rfl⟩ : _ ∧ rest' = rest := by simpa using h
    omega
  case case7 hlt ih => exact (ih h).trans hlt
  all_goals simp at h

theorem length_lt_of_readFrameWithLimit {body : Bytes}
    (h : Runs (readFrameWithLimit limit) stream (some body) rest) :
    rest.length < stream.length := by
  obtain ⟨headers, middle, hheaders, hbody⟩ := StateExcept.runs_bind_iff.1 h
  rcases headers with - | - | length
  · simp [Runs] at hbody
  · simp [Runs] at hbody
  have hbody : Runs (readBody limit length) middle (some body) rest := hbody
  rw [readBody] at hbody
  split at hbody
  · simp [Runs] at hbody
  obtain ⟨bytes, rest', hread, hreturn⟩ := StateExcept.runs_bind_iff.1 hbody
  obtain ⟨-, rfl⟩ : _ ∧ rest' = rest := by simpa [Runs] using hreturn
  have hmiddle := length_lt_of_readHeaders hheaders
  have hsplit := congrArg List.length (runs_readExact_iff.1 hread).2
  rw [length_append] at hsplit
  omega

end Bhf.Daemon
