import Bhf.FuzzEngine.Fragments
import Bhf.FuzzEngine.Typed

/-!
# Structured inputs

Generators of inputs in some format, built from dictionary tokens: binary records and chunks,
nested delimiters, JSON, XML, key-value lines, URL-encoded forms, multipart bodies, CSV, HTTP
requests, INI, TOML and YAML. Most repeat a round that appends one item; a round works out what is
left of the length limit, cuts the tokens to it and leaves the loop if too little is left.

**Every generator stays within the length limit.** Seven of them check it before they return. The
others owe it to the arithmetic of their rounds, and there it is an invariant of the loop: the
output and what still has to be written after it fit in the limit.
-/

namespace Bhf.FuzzEngine

open StateExcept List Flow

structure MutatorConfig where
  maxLen : ℕ
  structuredRecords : Bool
  structuredJson : Bool
  structuredXml : Bool
  structuredKeyValue : Bool
  structuredUrlEncoded : Bool
  structuredMultipart : Bool
  structuredCsv : Bool
  structuredHttp : Bool
  structuredIni : Bool
  structuredToml : Bool
  structuredYaml : Bool
  structuredChunked : Bool
  structuredRecursive : Bool

/-- Return an output unless it is too long. -/
def withinLimit (maxLen : ℕ) (output : Bytes) : Gen Bytes :=
  if output.length ≤ maxLen then return output else giveUp

theorem yields_withinLimit (maxLen : ℕ) (output : Bytes) :
    Yields (withinLimit maxLen output) fun out ↦ out.length ≤ maxLen := by
  rw [withinLimit]
  split
  · next hlen => exact yields_pure hlen
  · exact yields_throw ()

variable (config : MutatorConfig) (dictionary : Dictionary)

/-! ### Records -/

def maxStructuredRecords : ℕ := 4
def structuredRecordOverhead : ℕ := 3
def minStructuredRecordFieldLen : ℕ := structuredRecordOverhead + 2
def minStructuredRecordLen : ℕ := 1 + minStructuredRecordFieldLen

/-- Append a tag and a value, each after its length. -/
def recordRound : Bytes × ℕ → Gen (Flow (Bytes × ℕ))
  | (output, recordCount) =>
    if config.maxLen < output.length + minStructuredRecordFieldLen then
      return .stop (output, recordCount)
    else do
      let tag ← dictionary.choose
      let value ← dictionary.choose
      let available ← orGiveUp (checkedSub config.maxLen output.length)
      let payloadBudget ← orGiveUp (checkedSub available structuredRecordOverhead)
      if payloadBudget < 2 then return .stop (output, recordCount)
      else do
        let tagBudget := clamp (payloadBudget / 2) 1 255
        let tagLen := min tag.length tagBudget
        let valueBudget ← orGiveUp (checkedSub payloadBudget tagLen)
        let valueLen := min (min value.length valueBudget) 65535
        if tagLen = 0 || valueLen = 0 then return .stop (output, recordCount)
        else
          let output := output ++ [UInt8.ofNat tagLen] ++ tag.take tagLen ++ leBytes 2 valueLen ++
            value.take valueLen
          let recordCount := min (recordCount + 1) 255
          return .nextUnless (recordCount = maxStructuredRecords) (output, recordCount)

def structuredRecord : Gen Bytes := do
  giveUpIf (!config.structuredRecords || dictionary.isEmpty ||
    config.maxLen < minStructuredRecordLen)
  let requestedRecords := 1 + (← chooseIndex maxStructuredRecords)
  -- the first byte is the number of records, which is known at the end
  let (output, recordCount) ←
    rounds (recordRound config dictionary) requestedRecords ([0], 0)
  giveUpIf (recordCount = 0)
  return output.set 0 (UInt8.ofNat recordCount)

theorem yields_recordRound (t : Bytes × ℕ) (ht : t.1.length ≤ config.maxLen) :
    Yields (recordRound config dictionary t) fun r ↦ r.state.1.length ≤ config.maxLen := by
  refine yields_ite (fun _ ↦ yields_pure ht) fun _ ↦ ?_
  refine yields_bind fun tag ↦ yields_bind fun value ↦ ?_
  refine (yields_checkedSub _ _).bind fun available havailable ↦ ?_
  refine (yields_checkedSub _ _).bind fun payloadBudget hpayload ↦ ?_
  refine yields_ite (fun _ ↦ yields_pure ht) fun _ ↦ ?_
  refine (yields_checkedSub _ _).bind fun valueBudget hvalue ↦ ?_
  refine yields_ite (fun _ ↦ yields_pure ht) fun _ ↦ ?_
  refine yields_pure ?_
  simp only [state_nextUnless, length_append, length_take, length_singleton, length_leBytes]
  rw [structuredRecordOverhead] at hpayload
  omega

theorem yields_structuredRecord :
    Yields (structuredRecord config dictionary) fun out ↦ out.length ≤ config.maxLen := by
  refine (yields_giveUpIf _).bind fun _ hlen ↦ yields_bind fun _ ↦ ?_
  have hstart : ([0] : Bytes).length ≤ config.maxLen := by
    have hmin := (Bool.or_eq_false_iff.1 hlen).2
    rw [decide_eq_false_iff_not, minStructuredRecordLen] at hmin
    rw [length_singleton]
    omega
  refine (yields_rounds (yields_recordRound _ _) _ ([0], 0) hstart).bind
    fun (output, recordCount) houtput ↦ ?_
  refine yields_bind fun _ ↦ yields_pure ?_
  rw [length_set]
  exact houtput

/-! ### Chunks -/

def maxStructuredChunks : ℕ := 6
def structuredChunkOverhead : ℕ := 4
def structuredChunkedMaxMagic : ℕ := 16
def minStructuredChunkedLen : ℕ := 6

/-- Append a payload after its length. -/
def chunkRound (order : ByteOrder) (output : Bytes) : Gen (Flow Bytes) :=
  if config.maxLen < output.length + structuredChunkOverhead + 1 then return .stop output
  else do
    let payload ← dictionary.choose
    let available ← orGiveUp (checkedSub config.maxLen (output.length + structuredChunkOverhead))
    let payloadLen := min (min payload.length available) (2 ^ 32 - 1)
    if payloadLen = 0 then return .stop output
    else return .next (output ++ order.bytes 4 payloadLen ++ payload.take payloadLen)

def structuredChunked : Gen Bytes := do
  giveUpIf (!config.structuredChunked || dictionary.isEmpty ||
    config.maxLen < minStructuredChunkedLen)
  let magic ← dictionary.choose
  let magicLen := min (min magic.length structuredChunkedMaxMagic) config.maxLen
  giveUpIf (magicLen = 0)
  let order := if (← chooseIndex 2) = 1 then ByteOrder.big else .little
  let requestedChunks := 1 + (← chooseIndex maxStructuredChunks)
  let output ← rounds (chunkRound config dictionary order) requestedChunks (magic.take magicLen)
  giveUpIf (output.length ≤ magicLen)
  return output

theorem yields_chunkRound (order : ByteOrder) (output : Bytes)
    (houtput : output.length ≤ config.maxLen) :
    Yields (chunkRound config dictionary order output)
      fun r ↦ r.state.length ≤ config.maxLen := by
  refine yields_ite (fun _ ↦ yields_pure houtput) fun _ ↦ ?_
  refine yields_bind fun payload ↦ ?_
  refine (yields_checkedSub _ _).bind fun available havailable ↦ ?_
  refine yields_ite (fun _ ↦ yields_pure houtput) fun _ ↦ ?_
  refine yields_pure ?_
  simp only [state, length_append, length_take, ByteOrder.length_bytes]
  rw [structuredChunkOverhead] at havailable
  omega

theorem yields_structuredChunked :
    Yields (structuredChunked config dictionary) fun out ↦ out.length ≤ config.maxLen := by
  refine yields_bind fun _ ↦ yields_bind fun magic ↦ yields_bind fun _ ↦ yields_bind fun _ ↦ ?_
  refine yields_bind fun _ ↦ ?_
  have hstart : (magic.take (min (min magic.length structuredChunkedMaxMagic) config.maxLen)).length
      ≤ config.maxLen := by
    rw [length_take]
    omega
  refine (yields_rounds (yields_chunkRound _ _ _) _ _ hstart).bind fun output houtput ↦ ?_
  exact yields_bind fun _ ↦ yields_pure houtput

/-! ### Nested delimiters -/

def minStructuredRecursiveLen : ℕ := 2
def maxStructuredRecursiveDepth : ℕ := 512
def structuredRecursiveTerminalMax : ℕ := 32

def structuredRecursiveDelimiters : List (Bytes × Bytes) :=
  [(bytes "(", bytes ")"), (bytes "[", bytes "]"), (bytes "\x7b", bytes "\x7d"),
    (bytes "<e>", bytes "</e>")]

def isRecursiveDelimiterByte (b : UInt8) : Bool :=
  (bytes "()[]\x7b\x7d<>/").contains b

/-- The output, the pending closing delimiters with the innermost first, and their length. -/
structure Nesting where
  output : Bytes
  closes : List Bytes
  closeReserve : ℕ

/-- The pending delimiters are accounted for, and there is room for them. -/
structure Nesting.Fits (nesting : Nesting) (maxLen : ℕ) : Prop where
  /-- The room reserved is the room they take. -/
  reserve : nesting.closeReserve = nesting.closes.flatten.length
  /-- It fits behind the output. -/
  room : nesting.output.length + nesting.closeReserve ≤ maxLen

def chooseDelimiters : Gen (Bytes × Bytes) := do
  let pairs := structuredRecursiveDelimiters
  orGiveUp pairs[← chooseIndex pairs.length]?

/-- Open one more level. -/
def openRound (config : MutatorConfig) (mixed : Bool) (primary : Bytes × Bytes)
    (nesting : Nesting) : Gen (Flow Nesting) := do
  let (opening, closing) ← (if mixed then chooseDelimiters else pure primary)
  -- room for this level and for every delimiter that is pending
  if config.maxLen < nesting.output.length + opening.length + nesting.closeReserve +
      closing.length then
    return .stop nesting
  else
    return .next ⟨nesting.output ++ opening, closing :: nesting.closes,
      nesting.closeReserve + closing.length⟩

/-- What stands at the centre: a token without delimiter bytes. -/
def innermostTerminal (nesting : Nesting) : Gen Bytes :=
  if dictionary.isEmpty then return []
  else do
    match dictionary.get (← chooseIndex dictionary.len) with
    | none => return []
    | some token =>
      let room := config.maxLen - (nesting.output.length + nesting.closeReserve)
      let take := min (min token.length room) structuredRecursiveTerminalMax
      return (token.take take).filter fun b ↦ !isRecursiveDelimiterByte b

def structuredRecursive : Gen Bytes := do
  giveUpIf (!config.structuredRecursive || config.maxLen < minStructuredRecursiveLen)
  let primary ← chooseDelimiters
  let mixed := (← chooseIndex 2) = 1
  let minUnit := primary.1.length + primary.2.length
  let depthBudget := clamp (config.maxLen / minUnit) 1 maxStructuredRecursiveDepth
  let depth := 1 + (← chooseIndex depthBudget)
  let nesting ← rounds (openRound config mixed primary) depth ⟨[], [], 0⟩
  giveUpIf nesting.closes.isEmpty
  let terminal ← innermostTerminal config dictionary nesting
  return nesting.output ++ terminal ++ nesting.closes.flatten

theorem yields_openRound (mixed : Bool) (primary : Bytes × Bytes) (nesting : Nesting)
    (hnesting : nesting.Fits config.maxLen) :
    Yields (openRound config mixed primary nesting) fun r ↦ r.state.Fits config.maxLen := by
  refine yields_bind fun delimiters ↦ ?_
  refine yields_ite (fun _ ↦ yields_pure hnesting) fun hroom ↦ yields_pure ⟨?_, ?_⟩
  · simp only [state, hnesting.reserve, flatten_cons, length_append]
    omega
  · simp only [state, length_append]
    omega

theorem yields_innermostTerminal (nesting : Nesting) (hnesting : nesting.Fits config.maxLen) :
    Yields (innermostTerminal config dictionary nesting) fun terminal ↦
      nesting.output.length + terminal.length + nesting.closeReserve ≤ config.maxLen := by
  have hempty : nesting.output.length + ([] : Bytes).length + nesting.closeReserve ≤
      config.maxLen := hnesting.room
  rw [innermostTerminal]
  split
  · exact yields_pure hempty
  refine yields_bind fun index ↦ ?_
  split
  · exact yields_pure hempty
  · next token _ =>
    refine yields_pure ?_
    have hfilter := length_filter_le (fun b ↦ !isRecursiveDelimiterByte b)
      (token.take (min (min token.length (config.maxLen - (nesting.output.length +
        nesting.closeReserve))) structuredRecursiveTerminalMax))
    rw [length_take] at hfilter
    omega

theorem yields_structuredRecursive :
    Yields (structuredRecursive config dictionary) fun out ↦ out.length ≤ config.maxLen := by
  refine yields_bind fun _ ↦ yields_bind fun primary ↦ yields_bind fun _ ↦ yields_bind fun _ ↦ ?_
  refine (yields_rounds (yields_openRound _ _ primary) _ ⟨[], [], 0⟩ ⟨rfl, Nat.zero_le _⟩).bind
    fun nesting hnesting ↦ yields_bind fun _ ↦ ?_
  refine (yields_innermostTerminal _ _ nesting hnesting).bind fun terminal hterminal ↦
    yields_pure ?_
  rw [length_append, length_append, ← hnesting.reserve]
  exact hterminal

/-! ### JSON -/

def maxStructuredJsonItems : ℕ := 3
def minStructuredJsonLen : ℕ := 2
def minStructuredJsonObjectLen : ℕ := 7

def structuredJsonObject : Gen Bytes := do
  giveUpIf (config.maxLen < minStructuredJsonObjectLen)
  let key ← dictionary.choose
  let value ← dictionary.choose
  let escapedBudget ← orGiveUp (checkedSub config.maxLen minStructuredJsonObjectLen)
  let keyBudget := escapedBudget / 2
  let valueBudget := escapedBudget - keyBudget
  let key := jsonEscapedFragment key keyBudget
  let value := jsonEscapedFragment value valueBudget
  withinLimit config.maxLen
    (bytes "\x7b\"" ++ key ++ bytes "\":\"" ++ value ++ bytes "\"\x7d")

/-- Append a string to the array. -/
def jsonItemRound : Bytes × ℕ → Gen (Flow (Bytes × ℕ))
  | (output, itemCount) => do
    let left ← orGiveUp (checkedSub config.maxLen output.length)
    let available ← orGiveUp (checkedSub left 1)
    let itemOverhead := if itemCount = 0 then 2 else 3
    if available < itemOverhead then return .stop (output, itemCount)
    else do
      let token := jsonEscapedFragment (← dictionary.choose) (available - itemOverhead)
      let comma := if 0 < itemCount then bytes "," else []
      return .next (output ++ comma ++ [quote] ++ token ++ [quote], itemCount + 1)

def structuredJsonArray : Gen Bytes := do
  giveUpIf (config.maxLen < minStructuredJsonLen)
  let requestedItems := 1 + (← chooseIndex maxStructuredJsonItems)
  let (output, _) ← rounds (jsonItemRound config dictionary) requestedItems (bytes "[", 0)
  return output ++ bytes "]"

def structuredJson : Gen Bytes := do
  giveUpIf (!config.structuredJson || dictionary.isEmpty || config.maxLen < minStructuredJsonLen)
  if (← chooseIndex 2) = 0 then
    tryCatch (structuredJsonObject config dictionary) fun _ ↦ structuredJsonArray config dictionary
  else
    tryCatch (structuredJsonArray config dictionary) fun _ ↦ structuredJsonObject config dictionary

theorem yields_structuredJsonObject :
    Yields (structuredJsonObject config dictionary) fun out ↦ out.length ≤ config.maxLen := by
  iterate 4 refine yields_bind fun _ ↦ ?_
  exact yields_withinLimit _ _

/-- There is always room for the closing bracket. -/
theorem yields_jsonItemRound (t : Bytes × ℕ) (ht : t.1.length + 1 ≤ config.maxLen) :
    Yields (jsonItemRound config dictionary t) fun r ↦ r.state.1.length + 1 ≤ config.maxLen := by
  obtain ⟨output, itemCount⟩ := t
  refine (yields_checkedSub _ _).bind fun left hleft ↦ ?_
  refine (yields_checkedSub _ _).bind fun available havailable ↦ ?_
  refine yields_ite (fun _ ↦ yields_pure ht) fun hroom ↦ yields_bind fun token ↦ yields_pure ?_
  have htoken : (jsonEscapedFragment token (available - if itemCount = 0 then 2 else 3)).length ≤
      available - if itemCount = 0 then 2 else 3 := length_jsonEscapedFragment_le
  have hcomma : (if 0 < itemCount then bytes "," else []).length + 2 =
      if itemCount = 0 then 2 else 3 := by
    cases itemCount <;> rfl
  simp only [state, length_append, length_singleton]
  omega

theorem yields_structuredJsonArray :
    Yields (structuredJsonArray config dictionary) fun out ↦ out.length ≤ config.maxLen := by
  refine (yields_giveUpIf _).bind fun _ hlen ↦ yields_bind fun _ ↦ ?_
  rw [decide_eq_false_iff_not] at hlen
  have hstart : (bytes "[").length + 1 ≤ config.maxLen := not_lt.1 hlen
  refine (yields_rounds (yields_jsonItemRound _ _) _ _ hstart).bind
    fun (output, _) houtput ↦ yields_pure ?_
  rw [length_append]
  exact houtput

theorem yields_structuredJson :
    Yields (structuredJson config dictionary) fun out ↦ out.length ≤ config.maxLen := by
  refine yields_bind fun _ ↦ yields_bind fun _ ↦ ?_
  split
  · exact (yields_structuredJsonObject _ _).tryCatch fun _ ↦ yields_structuredJsonArray _ _
  · exact (yields_structuredJsonArray _ _).tryCatch fun _ ↦ yields_structuredJsonObject _ _

/-! ### XML -/

def minStructuredXmlLen : ℕ := 8

def structuredXml : Gen Bytes := do
  giveUpIf (!config.structuredXml || dictionary.isEmpty || config.maxLen < minStructuredXmlLen)
  let tagToken ← dictionary.choose
  let valueToken ← dictionary.choose
  let budget ← orGiveUp (checkedSub config.maxLen 6)
  let maxTagLen := clamp (budget / 2) 1 32
  let tag ← orGiveUp (xmlNameFragment tagToken maxTagLen)
  let valueBudget ← orGiveUp (checkedSub config.maxLen (5 + 2 * tag.length))
  giveUpIf (valueBudget = 0)
  let value ← orGiveUp (xmlTextFragment valueToken valueBudget)
  withinLimit config.maxLen
    (bytes "<" ++ tag ++ bytes ">" ++ value ++ bytes "</" ++ tag ++ bytes ">")

theorem yields_structuredXml :
    Yields (structuredXml config dictionary) fun out ↦ out.length ≤ config.maxLen := by
  iterate 8 refine yields_bind fun _ ↦ ?_
  exact yields_withinLimit _ _

/-! ### Key-value lines -/

def maxStructuredKeyValuePairs : ℕ := 4
def structuredKeyValueOverhead : ℕ := 2
def minStructuredKeyValueLen : ℕ := 4

/-- Append a line with a key and a value. -/
def keyValueRound : Bytes × ℕ → Gen (Flow (Bytes × ℕ))
  | (output, pairCount) => do
    let available ← orGiveUp (checkedSub config.maxLen output.length)
    if available < minStructuredKeyValueLen then return .stop (output, pairCount)
    else do
      let keyToken ← dictionary.choose
      let valueToken ← dictionary.choose
      let payloadBudget ← orGiveUp (checkedSub available structuredKeyValueOverhead)
      let keyBudget := max (payloadBudget / 2) 1
      let key ← orGiveUp (keyValueFragment keyToken keyBudget .key)
      let valueBudget ← orGiveUp (checkedSub payloadBudget key.length)
      if valueBudget = 0 then return .stop (output, pairCount)
      else do
        let value ← orGiveUp (keyValueFragment valueToken valueBudget .value)
        let separator := if (← chooseIndex 2) = 0 then byte '=' else byte ':'
        let output := output ++ key ++ [separator] ++ value ++ [newline]
        return .nextUnless (pairCount + 1 = maxStructuredKeyValuePairs) (output, pairCount + 1)

def structuredKeyValue : Gen Bytes := do
  giveUpIf (!config.structuredKeyValue || dictionary.isEmpty ||
    config.maxLen < minStructuredKeyValueLen)
  let requestedPairs := 1 + (← chooseIndex maxStructuredKeyValuePairs)
  let (output, pairCount) ← rounds (keyValueRound config dictionary) requestedPairs ([], 0)
  giveUpIf (pairCount = 0)
  return output

theorem yields_keyValueRound (t : Bytes × ℕ) (ht : t.1.length ≤ config.maxLen) :
    Yields (keyValueRound config dictionary t) fun r ↦ r.state.1.length ≤ config.maxLen := by
  refine (yields_checkedSub _ _).bind fun available havailable ↦ ?_
  refine yields_ite (fun _ ↦ yields_pure ht) fun _ ↦ ?_
  refine yields_bind fun keyToken ↦ yields_bind fun valueToken ↦ ?_
  refine (yields_checkedSub _ _).bind fun payloadBudget hpayload ↦ yields_bind fun key ↦ ?_
  refine (yields_checkedSub _ _).bind fun valueBudget hvalueBudget ↦ ?_
  refine yields_ite (fun _ ↦ yields_pure ht) fun _ ↦ ?_
  refine (yields_ofOption fun _ ↦ length_keyValueFragment_le).bind fun value hvalue ↦ ?_
  refine yields_bind fun _ ↦ yields_pure ?_
  simp only [state_nextUnless, length_append, length_singleton]
  rw [structuredKeyValueOverhead] at hpayload
  omega

theorem yields_structuredKeyValue :
    Yields (structuredKeyValue config dictionary) fun out ↦ out.length ≤ config.maxLen := by
  refine yields_bind fun _ ↦ yields_bind fun _ ↦ ?_
  refine (yields_rounds (yields_keyValueRound _ _) _ ([], 0) (Nat.zero_le _)).bind
    fun (output, _) houtput ↦ ?_
  exact yields_bind fun _ ↦ yields_pure houtput

/-! ### URL-encoded forms -/

def maxStructuredUrlEncodedPairs : ℕ := 4
def structuredUrlEncodedOverhead : ℕ := 1
def minStructuredUrlEncodedLen : ℕ := 3

/-- Append a pair, after an ampersand if it is not the first. -/
def urlEncodedRound : Bytes × ℕ → Gen (Flow (Bytes × ℕ))
  | (output, pairCount) => do
    let available ← orGiveUp (checkedSub config.maxLen output.length)
    let pairOverhead :=
      if pairCount = 0 then structuredUrlEncodedOverhead else structuredUrlEncodedOverhead + 1
    if available < pairOverhead + 2 then return .stop (output, pairCount)
    else do
      let keyToken ← dictionary.choose
      let valueToken ← dictionary.choose
      let payloadBudget ← orGiveUp (checkedSub available pairOverhead)
      let keyBudget := max (payloadBudget / 2) 1
      let key ← orGiveUp (urlEncodedFragment keyToken keyBudget)
      let valueBudget ← orGiveUp (checkedSub payloadBudget key.length)
      if valueBudget = 0 then return .stop (output, pairCount)
      else do
        let value ← orGiveUp (urlEncodedFragment valueToken valueBudget)
        let ampersand := if 0 < pairCount then bytes "&" else []
        let output := output ++ ampersand ++ key ++ bytes "=" ++ value
        return .nextUnless (pairCount + 1 = maxStructuredUrlEncodedPairs) (output, pairCount + 1)

def structuredUrlEncoded : Gen Bytes := do
  giveUpIf (!config.structuredUrlEncoded || dictionary.isEmpty ||
    config.maxLen < minStructuredUrlEncodedLen)
  let requestedPairs := 1 + (← chooseIndex maxStructuredUrlEncodedPairs)
  let (output, pairCount) ← rounds (urlEncodedRound config dictionary) requestedPairs ([], 0)
  giveUpIf (pairCount = 0)
  return output

theorem yields_urlEncodedRound (t : Bytes × ℕ) (ht : t.1.length ≤ config.maxLen) :
    Yields (urlEncodedRound config dictionary t) fun r ↦ r.state.1.length ≤ config.maxLen := by
  obtain ⟨output, pairCount⟩ := t
  refine (yields_checkedSub _ _).bind fun available havailable ↦ ?_
  refine yields_ite (fun _ ↦ yields_pure ht) fun _ ↦ ?_
  refine yields_bind fun keyToken ↦ yields_bind fun valueToken ↦ ?_
  refine (yields_checkedSub _ _).bind fun payloadBudget hpayload ↦ yields_bind fun key ↦ ?_
  refine (yields_checkedSub _ _).bind fun valueBudget hvalueBudget ↦ ?_
  refine yields_ite (fun _ ↦ yields_pure ht) fun _ ↦ ?_
  refine (yields_ofOption fun _ ↦ length_urlEncodedFragment_le).bind fun value hvalue ↦ ?_
  refine yields_pure ?_
  have hoverhead : (if 0 < pairCount then bytes "&" else []).length + (bytes "=").length =
      if pairCount = 0 then structuredUrlEncodedOverhead else structuredUrlEncodedOverhead + 1 := by
    cases pairCount <;> rfl
  simp only [state_nextUnless, length_append]
  omega

theorem yields_structuredUrlEncoded :
    Yields (structuredUrlEncoded config dictionary) fun out ↦ out.length ≤ config.maxLen := by
  refine yields_bind fun _ ↦ yields_bind fun _ ↦ ?_
  refine (yields_rounds (yields_urlEncodedRound _ _) _ ([], 0) (Nat.zero_le _)).bind
    fun (output, _) houtput ↦ ?_
  exact yields_bind fun _ ↦ yields_pure houtput

/-! ### Multipart bodies -/

def maxStructuredMultipartParts : ℕ := 3
def minStructuredMultipartLen : ℕ := 61

def multipartBoundary : Bytes := bytes "bh"
def multipartHeaderStart : Bytes := bytes "Content-Disposition: form-data; name=\""
def multipartHeaderEnd : Bytes := bytes "\"\r\n\r\n"

/-- Append a part; the closing delimiter is accounted for. -/
def multipartRound : Bytes × ℕ → Gen (Flow (Bytes × ℕ))
  | (output, partCount) => do
    let delimiterLen := 2 + multipartBoundary.length + 2
    -- the boundary with dashes on both sides and a line break
    let closingLen := 2 + multipartBoundary.length + 4
    let left ← orGiveUp (checkedSub config.maxLen output.length)
    let remaining ← orGiveUp (checkedSub left closingLen)
    let partOverhead := delimiterLen + multipartHeaderStart.length + multipartHeaderEnd.length +
      (bytes "\r\n").length
    if remaining < partOverhead + 2 then return .stop (output, partCount)
    else do
      let nameToken ← dictionary.choose
      let valueToken ← dictionary.choose
      let payloadBudget ← orGiveUp (checkedSub remaining partOverhead)
      let nameBudget := 1
      let name ← orGiveUp (multipartNameFragment nameToken nameBudget)
      let valueBudget ← orGiveUp (checkedSub payloadBudget name.length)
      if valueBudget = 0 then return .stop (output, partCount)
      else do
        let value ← orGiveUp (multipartValueFragment valueToken valueBudget)
        let output := output ++ bytes "--" ++ multipartBoundary ++ bytes "\r\n" ++
          multipartHeaderStart ++ name ++ multipartHeaderEnd ++ value ++ bytes "\r\n"
        return .nextUnless (partCount + 1 = maxStructuredMultipartParts) (output, partCount + 1)

def structuredMultipart : Gen Bytes := do
  giveUpIf (!config.structuredMultipart || dictionary.isEmpty ||
    config.maxLen < minStructuredMultipartLen)
  let requestedParts := 1 + (← chooseIndex maxStructuredMultipartParts)
  let (output, partCount) ← rounds (multipartRound config dictionary) requestedParts ([], 0)
  giveUpIf (partCount = 0)
  withinLimit config.maxLen (output ++ bytes "--" ++ multipartBoundary ++ bytes "--\r\n")

theorem yields_structuredMultipart :
    Yields (structuredMultipart config dictionary) fun out ↦ out.length ≤ config.maxLen := by
  iterate 4 refine yields_bind fun _ ↦ ?_
  exact yields_withinLimit _ _

/-! ### CSV -/

def maxStructuredCsvRows : ℕ := 4
def maxStructuredCsvColumns : ℕ := 3
def minStructuredCsvLen : ℕ := 1

/-- Append a cell, after a comma if it is not the first. -/
def csvCellRound (dictionary : Dictionary) (maxLen : ℕ) :
    Bytes × ℕ → Gen (Flow (Bytes × ℕ))
  | (output, colCount) =>
    let comma := if 0 < colCount then bytes "," else []
    if maxLen ≤ output.length + comma.length then return .stop (output, colCount)
    else do
      let cellBudget := maxLen - output.length - comma.length
      let token ← dictionary.choose
      let cell ← orGiveUp (csvCellFragment token cellBudget)
      if cell.isEmpty then return .stop (output, colCount)
      else
        return .nextUnless (colCount + 1 = maxStructuredCsvColumns)
          (output ++ comma ++ cell, colCount + 1)

def structuredCsvRow (dictionary : Dictionary) (maxLen requestedCols : ℕ) : Gen Bytes := do
  giveUpIf (maxLen = 0)
  let (output, colCount) ← rounds (csvCellRound dictionary maxLen) requestedCols ([], 0)
  giveUpIf (colCount = 0)
  return output

/-- Append a row, after a line break if it is not the first. -/
def csvRowRound : Bytes × ℕ → Gen (Flow (Bytes × ℕ))
  | (output, rowCount) =>
    let lineBreak := if output.isEmpty then [] else [newline]
    if config.maxLen ≤ output.length + lineBreak.length then return .stop (output, rowCount)
    else do
      let rowBudget := config.maxLen - output.length - lineBreak.length
      let requestedCols := 1 + (← chooseIndex maxStructuredCsvColumns)
      let row ← structuredCsvRow dictionary rowBudget requestedCols
      if row.isEmpty then return .stop (output, rowCount)
      else
        return .nextUnless (rowCount + 1 = maxStructuredCsvRows)
          (output ++ lineBreak ++ row, rowCount + 1)

def structuredCsv : Gen Bytes := do
  giveUpIf (!config.structuredCsv || dictionary.isEmpty || config.maxLen < minStructuredCsvLen)
  let requestedRows := 1 + (← chooseIndex maxStructuredCsvRows)
  let (output, rowCount) ← rounds (csvRowRound config dictionary) requestedRows ([], 0)
  giveUpIf (rowCount = 0)
  return output

theorem yields_csvCellRound {maxLen : ℕ} (t : Bytes × ℕ) (ht : t.1.length ≤ maxLen) :
    Yields (csvCellRound dictionary maxLen t) fun r ↦ r.state.1.length ≤ maxLen := by
  refine yields_ite (fun _ ↦ yields_pure ht) fun _ ↦ ?_
  refine yields_bind fun token ↦ ?_
  refine (yields_ofOption fun _ ↦ length_csvCellFragment_le).bind fun cell hcell ↦ ?_
  refine yields_ite (fun _ ↦ yields_pure ht) fun _ ↦ ?_
  refine yields_pure ?_
  simp only [state_nextUnless, length_append]
  omega

theorem yields_structuredCsvRow (maxLen requestedCols : ℕ) :
    Yields (structuredCsvRow dictionary maxLen requestedCols) fun out ↦ out.length ≤ maxLen := by
  refine yields_bind fun _ ↦ ?_
  refine (yields_rounds (yields_csvCellRound _) _ ([], 0) (Nat.zero_le _)).bind
    fun (output, _) houtput ↦ ?_
  exact yields_bind fun _ ↦ yields_pure houtput

theorem yields_csvRowRound (t : Bytes × ℕ) (ht : t.1.length ≤ config.maxLen) :
    Yields (csvRowRound config dictionary t) fun r ↦ r.state.1.length ≤ config.maxLen := by
  refine yields_ite (fun _ ↦ yields_pure ht) fun _ ↦ ?_
  refine yields_bind fun _ ↦ (yields_structuredCsvRow _ _ _).bind fun row hrow ↦ ?_
  refine yields_ite (fun _ ↦ yields_pure ht) fun _ ↦ ?_
  refine yields_pure ?_
  simp only [state_nextUnless, length_append]
  omega

theorem yields_structuredCsv :
    Yields (structuredCsv config dictionary) fun out ↦ out.length ≤ config.maxLen := by
  refine yields_bind fun _ ↦ yields_bind fun _ ↦ ?_
  refine (yields_rounds (yields_csvRowRound _ _) _ ([], 0) (Nat.zero_le _)).bind
    fun (output, _) houtput ↦ ?_
  exact yields_bind fun _ ↦ yields_pure houtput

/-! ### HTTP requests -/

def minStructuredHttpLen : ℕ := 28

def httpMethods : List Bytes :=
  [bytes "GET", bytes "POST", bytes "PUT", bytes "DELETE"]

def structuredHttp : Gen Bytes := do
  giveUpIf (!config.structuredHttp || dictionary.isEmpty || config.maxLen < minStructuredHttpLen)
  let method ← orGiveUp httpMethods[← chooseIndex httpMethods.length]?
  let pathToken ← dictionary.choose
  let hostToken ← dictionary.choose
  let bodyToken ← dictionary.choose
  let fixedLen := method.length + (bytes " /").length + (bytes " HTTP/1.1\r\nHost: ").length +
    (bytes "\r\n\r\n").length
  let payloadBudget ← orGiveUp (checkedSub config.maxLen fixedLen)
  let pathBudget := clamp (payloadBudget / 3) 1 32
  let path ← orGiveUp (httpPathFragment pathToken pathBudget)
  let remaining ← orGiveUp (checkedSub payloadBudget path.length)
  giveUpIf (remaining = 0)
  let hostBudget := max (remaining / 2) 1
  let host ← orGiveUp (httpHeaderValueFragment hostToken hostBudget)
  let bodyBudget ← orGiveUp (checkedSub remaining host.length)
  let body := httpBodyFragment bodyToken bodyBudget
  withinLimit config.maxLen (method ++ bytes " /" ++ path ++ bytes " HTTP/1.1\r\nHost: " ++ host ++
    bytes "\r\n\r\n" ++ body)

theorem yields_structuredHttp :
    Yields (structuredHttp config dictionary) fun out ↦ out.length ≤ config.maxLen := by
  iterate 12 refine yields_bind fun _ ↦ ?_
  exact yields_withinLimit _ _

/-! ### INI, TOML and YAML -/

/-- How a format with sections writes a section with one key: what it costs, how the three tokens
become fragments, and the text. -/
structure SectionFormat where
  overhead : ℕ
  maxItems : ℕ
  minValueLen : ℕ
  nameFragment : Bytes → ℕ → Option Bytes
  valueFragment : Bytes → ℕ → Option Bytes
  write : Bytes → Bytes → Bytes → Bytes

def SectionFormat.minLen (format : SectionFormat) : ℕ :=
  format.overhead + 3

def iniFormat : SectionFormat where
  overhead := 5
  maxItems := 3
  minValueLen := 1
  nameFragment := iniNameFragment
  valueFragment := iniValueFragment
  write name key value :=
    bytes "[" ++ name ++ bytes "]\n" ++ key ++ bytes "=" ++ value ++ bytes "\n"

def tomlFormat : SectionFormat where
  overhead := 8
  maxItems := 3
  minValueLen := 2
  nameFragment := tomlBareKeyFragment
  valueFragment := tomlBasicStringFragment
  write name key value :=
    bytes "[" ++ name ++ bytes "]\n" ++ key ++ bytes " = " ++ value ++ bytes "\n"

def yamlFormat : SectionFormat where
  overhead := 9
  maxItems := 3
  minValueLen := 2
  nameFragment := tomlBareKeyFragment
  valueFragment := tomlBasicStringFragment
  write name key value :=
    name ++ bytes ":\n  " ++ key ++ bytes ": " ++ value ++ bytes "\n"

/-- Append a section. -/
def sectionRound (format : SectionFormat) (config : MutatorConfig) (dictionary : Dictionary) :
    Bytes × ℕ → Gen (Flow (Bytes × ℕ))
  | (output, count) => do
    let available ← orGiveUp (checkedSub config.maxLen output.length)
    if available < format.minLen then return .stop (output, count)
    else do
      let nameToken ← dictionary.choose
      let keyToken ← dictionary.choose
      let valueToken ← dictionary.choose
      let payloadBudget ← orGiveUp (checkedSub available format.overhead)
      let nameBudget := clamp (payloadBudget / 3) 1 32
      let name ← orGiveUp (format.nameFragment nameToken nameBudget)
      let remaining ← orGiveUp (checkedSub payloadBudget name.length)
      let keyBudget := max (remaining / 2) 1
      let key ← orGiveUp (format.nameFragment keyToken keyBudget)
      let valueBudget ← orGiveUp (checkedSub remaining key.length)
      if valueBudget < format.minValueLen then return .stop (output, count)
      else do
        let value ← orGiveUp (format.valueFragment valueToken valueBudget)
        return .nextUnless (count + 1 = format.maxItems)
          (output ++ format.write name key value, count + 1)

def structuredSections (format : SectionFormat) (enabled : Bool) (config : MutatorConfig)
    (dictionary : Dictionary) : Gen Bytes := do
  giveUpIf (!enabled || dictionary.isEmpty || config.maxLen < format.minLen)
  let requested := 1 + (← chooseIndex format.maxItems)
  let (output, count) ← rounds (sectionRound format config dictionary) requested ([], 0)
  giveUpIf (count = 0)
  withinLimit config.maxLen output

def structuredIni : Gen Bytes :=
  structuredSections iniFormat config.structuredIni config dictionary

def structuredToml : Gen Bytes :=
  structuredSections tomlFormat config.structuredToml config dictionary

def structuredYaml : Gen Bytes :=
  structuredSections yamlFormat config.structuredYaml config dictionary

end Bhf.FuzzEngine
