import Bhf.Daemon.Authorization
import Bhf.Daemon.Framing
import Bhf.Lib.Json

/-!
# The request loop of the JSON-RPC daemon

The daemon reads a frame, handles the request in it and writes a frame with the response, until the
stream ends. A notification is handled and not answered. A response that does not fit the byte limit
is replaced by an error with the same id, and where the id alone is too long, by one with the id
`null`; the smallest error fits every limit of 512 bytes.

What lies outside the daemon is a `Host`: the deserializer of requests, the serializer, and what the
methods compute, which may change the world they run in. A request is valid when it deserializes.

**Every frame that is no notification is answered by one frame, in order**
(`runs_runJsonRpcWithLimit`), and the answer is valid JSON within the limit.
-/

namespace Bhf.Daemon

open List

open StateExcept (Runs)
open Reader

/-! ### Requests and responses -/

/-- A request with the fields that only the protocol uses. Without an id, or with the id `null`, it
is a notification. -/
structure JsonRpcEnvelope extends JsonRpcRequest Json where
  jsonrpc : String
  id : Option Json

structure AuditMetadata where
  tenant : Option String
  role : DaemonRole
  method : String
  workspaceRoot : Option Path

namespace RpcFailure

def invalidRequest (message : String) : RpcFailure :=
  ⟨-32600, message⟩

def serverError (message : String) : RpcFailure :=
  ⟨-32000, message⟩

end RpcFailure

/-- The bytes of a value without any white space. -/
def encode (value : Json) : Bytes :=
  utf8Bytes (String.ofList value.render)

/-- What the daemon uses of its surroundings. -/
structure Host (World : Type) where
  fileSystem : World → FileSystem
  deserializer : Deserializer Json
  /-- `serde_json::from_slice::<JsonRpcRequest>`; the error is the message it gives. -/
  fromSlice : Bytes → Except String JsonRpcEnvelope
  /-- What a method computes, with the byte limit. -/
  call : MethodCall → ℕ → World → Except RpcFailure Json × World
  /-- `serde_json::to_value` on the audit record. -/
  auditToValue : AuditMetadata → Except String Json
  /-- The pieces in which `serde_json::to_writer` hands a value to its writer. -/
  chunks : Json → List Bytes
  flatten_chunks : ∀ value, (chunks value).flatten = encode value

def AuthorizedIdentity.auditMetadata (identity : AuthorizedIdentity) (method : String) :
    Option AuditMetadata :=
  match identity with
  | .localUser => none
  | .tenant t => some ⟨some t.tenant, t.role, method, some t.workspaceRoot⟩

-- The members of an object stand in the order of their keys.
def errorResponse (id : Json) (error : RpcFailure) : Json :=
  .object [
    ("error".toList, .object [
      ("code".toList, .integer error.code.toInt),
      ("message".toList, .string error.message.toList)]),
    ("id".toList, id),
    ("jsonrpc".toList, .string "2.0".toList)]

def resultResponse (id result : Json) (audit : Option Json) : Json :=
  .object ((audit.map fun audit ↦ ("bhfAudit".toList, audit)).toList ++ [
    ("id".toList, id),
    ("jsonrpc".toList, .string "2.0".toList),
    ("result".toList, result)])

/-! ### Serializing within the limit -/

structure LimitedVec where
  bytes : Bytes
  limit : ℕ

/-- A piece that does not fit any more is an error. -/
def LimitedVec.write (buffer : LimitedVec) (chunk : Bytes) : Option LimitedVec :=
  if buffer.bytes.length + chunk.length > buffer.limit then none
  else some { buffer with bytes := buffer.bytes ++ chunk }

section Serialize

variable {World : Type} (host : Host World)

def serializeValueWithLimit (value : Json) (limit : ℕ) : Option Bytes :=
  ((host.chunks value).foldlM LimitedVec.write ⟨[], limit⟩).map (·.bytes)

/-- The error that takes the place of a response over the limit. -/
def overLimitResponse (id : Json) (limit : ℕ) (envName : String) : Json :=
  errorResponse id (.serverError ("response exceeds the memory-aware " ++ toString limit ++
    "-byte limit; narrow the request or set " ++ envName))

def compactResponse : Json :=
  errorResponse .null (.serverError "response exceeds byte limit")

def serializeResponseLimited (response : Json) (limit : ℕ) (envName : String) :
    Except JsonRpcServerError Bytes :=
  match serializeValueWithLimit host response limit with
  | some bytes => .ok bytes
  | none =>
    let id := (response.get? "id".toList).getD .null
    match serializeValueWithLimit host (overLimitResponse id limit envName) limit with
    | some bytes => .ok bytes
    | none =>
      match serializeValueWithLimit host compactResponse limit with
      | some bytes => .ok bytes
      | none => .error (.invalidFrame ("response and error frame exceed the " ++ toString limit ++
          "-byte limit"))

end Serialize

/-! ### The loop -/

section Loop

variable {World : Type} (host : Host World) (security : DaemonSecurityConfig) (limit : ℕ)

/-- Authorize a request and run its method. -/
def perform (request : JsonRpcEnvelope) (world : World) :
    Except RpcFailure (AuthorizedIdentity × Json) × World :=
  match authorizedCall (host.fileSystem world) host.deserializer security
      request.toJsonRpcRequest with
  | .error e => (.error e, world)
  | .ok (identity, call) =>
    match host.call call limit world with
    | (.error e, world) => (.error e, world)
    | (.ok result, world) => (.ok (identity, result), world)

/-- The audit member of a response. -/
def auditValue (identity : AuthorizedIdentity) (method : String) : Option Json :=
  (identity.auditMetadata method).map fun audit ↦
    match host.auditToValue audit with
    | .ok value => value
    | .error error => .object [("error".toList, .string error.toList)]

def handleJsonRpcRequest (request : JsonRpcEnvelope) (world : World) : Option Json × World :=
  match request.id with
  | none => (none, (perform host security limit request world).2)
  | some id =>
    if request.jsonrpc ≠ "2.0" then
      (some (errorResponse id (.invalidRequest "jsonrpc must be \"2.0\"")), world)
    else
      match perform host security limit request world with
      | (.ok (identity, result), world) =>
        (some (resultResponse id result (auditValue host identity request.method)), world)
      | (.error e, world) => (some (errorResponse id e), world)

/-- The response to a frame. -/
def respond (frame : Bytes) (world : World) : Option Json × World :=
  match host.fromSlice frame with
  | .ok request => handleJsonRpcRequest host security limit request world
  | .error e =>
    (some (errorResponse .null (.invalidRequest ("invalid JSON-RPC request: " ++ e))), world)

/-- What is left of the input, what was written, and the world of the methods. -/
structure Session (World : Type) where
  input : Bytes
  output : Bytes
  world : World

def runJsonRpcWithLimit (session : Session World) :
    Except JsonRpcServerError Unit × Session World :=
  match hread : readFrameWithLimit limit session.input with
  | (.error e, rest) => (.error e, { session with input := rest })
  | (.ok none, rest) => (.ok (), { session with input := rest })
  | (.ok (some frame), rest) =>
    have : rest.length < session.input.length := length_lt_of_readFrameWithLimit hread
    match respond host security limit frame session.world with
    | (none, world) => runJsonRpcWithLimit ⟨rest, session.output, world⟩
    | (some response, world) =>
      match serializeResponseLimited host response limit "BHF_DAEMON_MAX_MESSAGE_BYTES" with
      | .error e => (.error e, ⟨rest, session.output, world⟩)
      | .ok bytes => runJsonRpcWithLimit ⟨rest, session.output ++ writeFrame bytes, world⟩
termination_by session.input.length

end Loop

/-! ### What is serialized -/

section Serialize

variable {World : Type} (host : Host World)

theorem foldlM_write {chunks : List Bytes} {bytes : Bytes} {limit : ℕ}
    (h : bytes.length ≤ limit) :
    chunks.foldlM LimitedVec.write ⟨bytes, limit⟩ =
      if bytes.length + chunks.flatten.length ≤ limit then
        some ⟨bytes ++ chunks.flatten, limit⟩ else none := by
  induction chunks generalizing bytes with
  | nil => simp [h]
  | cons chunk chunks ih =>
    rw [foldlM_cons, LimitedVec.write, flatten_cons, length_append]
    by_cases hfits : bytes.length + chunk.length ≤ limit
    · rw [if_neg hfits.not_gt]
      show chunks.foldlM LimitedVec.write ⟨bytes ++ chunk, limit⟩ = _
      rw [ih (by simpa using hfits), length_append, append_assoc, add_assoc]
    · rw [if_pos (not_le.mp hfits), if_neg (by omega)]
      rfl

theorem serializeValueWithLimit_eq (value : Json) (limit : ℕ) :
    serializeValueWithLimit host value limit =
      if (encode value).length ≤ limit then some (encode value) else none := by
  rw [serializeValueWithLimit, foldlM_write (Nat.zero_le limit), host.flatten_chunks]
  split <;> simp_all

theorem render_compactResponse :
    compactResponse.render = "\x7b\"error\":\x7b\"code\":".toList ++ (integerText (-32000) ++
      (",\"message\":\"response exceeds byte limit\"\x7d,".toList ++
        "\"id\":null,\"jsonrpc\":\"2.0\"\x7d".toList)) := by
  rfl

/-- The smallest error fits every limit that the daemon takes. -/
theorem length_encode_compactResponse : (encode compactResponse).length ≤ 512 := by
  have hdigits : (paddedDecimal 1 32000).length ≤ 5 :=
    length_paddedDecimal_one_le (by decide) (by decide)
  have hcode : (integerText (-32000)).length = (paddedDecimal 1 32000).length + 1 := rfl
  have hrender : compactResponse.render.length ≤ 128 := by
    rw [render_compactResponse]
    simp
    omega
  have hbytes := length_utf8Bytes_ofList_le compactResponse.render
  rw [encode]
  omega

theorem readUtf8_encode (value : Json) : Json.readUtf8 (encode value) = some value := by
  rw [encode, Json.readUtf8_utf8Bytes, String.toList_ofList, Json.read_render]

@[simp]
theorem get?_id_resultResponse (id result : Json) (audit : Option Json) :
    (resultResponse id result audit).get? "id".toList = some id := by
  cases audit <;> rfl

/-- **A response is serialized within the limit**, as itself if it fits and as an error if not. The
id is kept unless there is no room for it. -/
theorem serializeResponseLimited_eq_ok {limit : ℕ} (hlimit : 512 ≤ limit) (response : Json)
    (envName : String) {id : Json} (hid : response.get? "id".toList = some id) :
    ∃ value, serializeResponseLimited host response limit envName = .ok (encode value) ∧
      (encode value).length ≤ limit ∧
      ((encode response).length ≤ limit → value = response) ∧
      (limit < (encode response).length → (value.get? "error".toList).isSome) ∧
      (value.get? "id".toList = some id ∨
        value.get? "id".toList = some .null ∧
          limit < (encode (overLimitResponse id limit envName)).length) := by
  rw [serializeResponseLimited]
  simp only [serializeValueWithLimit_eq, hid, Option.getD_some]
  by_cases hfits : (encode response).length ≤ limit
  · exact ⟨response, by rw [if_pos hfits], hfits, fun _ ↦ rfl, fun h ↦ absurd hfits h.not_ge,
      .inl hid⟩
  by_cases hover : (encode (overLimitResponse id limit envName)).length ≤ limit
  · exact ⟨overLimitResponse id limit envName, by rw [if_neg hfits, if_pos hover], hover,
      fun h ↦ absurd h hfits, fun _ ↦ rfl, .inl rfl⟩
  have hcompact := length_encode_compactResponse.trans hlimit
  exact ⟨compactResponse, by rw [if_neg hfits, if_neg hover, if_pos hcompact], hcompact,
    fun h ↦ absurd h hfits, fun _ ↦ rfl, .inr ⟨rfl, not_le.mp hover⟩⟩

end Serialize

/-! ### One answer for each request -/

section Answers

variable {World : Type} (host : Host World) (security : DaemonSecurityConfig) (limit : ℕ)

/-- A valid request without an id. -/
def isNotification (frame : Bytes) : Bool :=
  match host.fromSlice frame with
  | .ok request => request.id.isNone
  | .error _ => false

/-- The id of a request, `null` if the request is invalid. -/
def requestId (frame : Bytes) : Json :=
  match host.fromSlice frame with
  | .ok request => request.id.getD .null
  | .error _ => .null

/-- Each frame with the world at the time it is handled. -/
def arrivals : World → List Bytes → List (World × Bytes)
  | _, [] => []
  | world, frame :: frames =>
    (world, frame) :: arrivals (respond host security limit frame world).2 frames

/-- **The body answers the frame**: it is valid JSON within the limit, with the id of the request
where there is room for it, and it is the response if that fits and an error otherwise. -/
def Answers (arrival : World × Bytes) (body : Bytes) : Prop :=
  body.length ≤ limit ∧
    ∃ response value, (respond host security limit arrival.2 arrival.1).1 = some response ∧
      Json.readUtf8 body = some value ∧
      ((encode response).length ≤ limit → value = response) ∧
      (limit < (encode response).length → (value.get? "error".toList).isSome = true) ∧
      (value.get? "id".toList = some (requestId host arrival.2) ∨
        value.get? "id".toList = some .null ∧
          limit < (encode (overLimitResponse (requestId host arrival.2) limit
            "BHF_DAEMON_MAX_MESSAGE_BYTES")).length)

variable {frame : Bytes}

theorem respond_of_isNotification (h : isNotification host frame)
    (world : World) : (respond host security limit frame world).1 = none := by
  rw [isNotification] at h
  rw [respond]
  rcases hslice : host.fromSlice frame with e | request
  · simp [hslice] at h
  · have hid : request.id = none := by simpa [hslice] using h
    show (handleJsonRpcRequest host security limit request world).1 = none
    rw [handleJsonRpcRequest, hid]

/-- A frame that is no notification has a response with its id. -/
theorem respond_of_not_isNotification (h : isNotification host frame = false) (world : World) :
    ∃ response, (respond host security limit frame world).1 = some response ∧
      response.get? "id".toList = some (requestId host frame) := by
  rw [isNotification] at h
  rw [respond, requestId]
  rcases hslice : host.fromSlice frame with e | request
  · exact ⟨_, rfl, rfl⟩
  rcases hid : request.id with - | id
  · simp [hslice, hid] at h
  show ∃ response, (handleJsonRpcRequest host security limit request world).1 = some response ∧
    response.get? "id".toList = some (request.id.getD .null)
  rw [handleJsonRpcRequest, hid]
  by_cases hversion : request.jsonrpc ≠ "2.0"
  · simp only [if_pos hversion]
    exact ⟨_, rfl, rfl⟩
  simp only [if_neg hversion]
  rcases perform host security limit request world with ⟨e | ⟨identity, result⟩, world'⟩
  · exact ⟨_, rfl, rfl⟩
  · exact ⟨_, rfl, get?_id_resultResponse id result _⟩

variable {host security limit}

theorem runJsonRpcWithLimit_of_nil (output : Bytes) (world : World) :
    runJsonRpcWithLimit host security limit ⟨[], output, world⟩ =
      (.ok (), ⟨[], output, world⟩) := by
  have hnil : readFrameWithLimit limit [] = (.ok none, []) := runs_readFrameWithLimit_nil limit
  rw [runJsonRpcWithLimit]
  split
  · next heq => simp [hnil] at heq
  · next rest heq =>
    obtain rfl : rest = [] := by simpa [hnil] using heq
    rfl
  · next heq => simp [hnil] at heq

/-- **A run over frames answers each that is no notification**, in order. -/
theorem runs_runJsonRpcWithLimit (hlimit : 512 ≤ limit) (hword : limit < 2 ^ 64)
    {frames : List Bytes} (hframes : ∀ frame ∈ frames, frame.length ≤ limit)
    (output : Bytes) (world : World) :
    ∃ bodies world',
      runJsonRpcWithLimit host security limit ⟨frames.flatMap writeFrame, output, world⟩ =
        (.ok (), ⟨[], output ++ bodies.flatMap writeFrame, world'⟩) ∧
      List.Forall₂ (Answers host security limit)
        ((arrivals host security limit world frames).filter fun arrival ↦
          !isNotification host arrival.2) bodies := by
  induction frames generalizing output world with
  | nil => exact ⟨[], world, by simp [runJsonRpcWithLimit_of_nil], .nil⟩
  | cons frame frames ih =>
    obtain ⟨hframe, hframes⟩ := forall_mem_cons.mp hframes
    have hread := parses_readFrameWithLimit hlimit hword hframe (frames.flatMap writeFrame)
    have hread : readFrameWithLimit limit _ = (.ok (some frame), _) := hread
    rw [flatMap_cons, runJsonRpcWithLimit, arrivals, filter_cons]
    split
    · next heq => simp [hread] at heq
    · next heq => simp [hread] at heq
    next frame' rest' heq =>
    obtain ⟨rfl, rfl⟩ : frame = frame' ∧ frames.flatMap writeFrame = rest' := by
      simpa [hread] using heq
    cases hnotification : isNotification host frame with
    | true =>
      have hnone := respond_of_isNotification host security limit hnotification world
      rcases hrespond : respond host security limit frame world with ⟨response, world₁⟩
      obtain rfl : response = none := by simpa [hrespond] using hnone
      obtain ⟨bodies, world', hrun, hanswers⟩ := ih hframes output world₁
      exact ⟨bodies, world', hrun, by simpa using hanswers⟩
    | false =>
      obtain ⟨response, hsome, hid⟩ :=
        respond_of_not_isNotification host security limit hnotification world
      obtain ⟨value, hok, hlen, hfits, hover, hid'⟩ :=
        serializeResponseLimited_eq_ok host hlimit response "BHF_DAEMON_MAX_MESSAGE_BYTES" hid
      have hanswer : Answers host security limit (world, frame) (encode value) :=
        ⟨hlen, response, value, hsome, readUtf8_encode value, hfits, hover, hid'⟩
      rcases hrespond : respond host security limit frame world with ⟨response', world₁⟩
      obtain rfl : response' = some response := by simpa [hrespond] using hsome
      obtain ⟨bodies, world', hrun, hanswers⟩ :=
        ih hframes (output ++ writeFrame (encode value)) world₁
      refine ⟨encode value :: bodies, world', ?_, ?_⟩
      · simp only [hok, hrun, flatMap_cons, append_assoc]
      · simpa using ⟨hanswer, hanswers⟩

end Answers

/-- **Framing and one response for each request.** Within a limit of at least 512 bytes the bodies
are read back from their frames, and then nothing; and a run over frames writes frames, one for each
frame that is not a notification, in order, each an answer to its frame. -/
theorem runJsonRpcWithLimit_answers (limit : ℕ) (hlimit : 512 ≤ limit) (hword : limit < 2 ^ 64) :
    (∀ bodies : List Bytes, (∀ body ∈ bodies, body.length ≤ limit) →
      Runs (StateExcept.times (readFrameWithLimit limit) bodies.length) (bodies.flatMap writeFrame)
        (bodies.map some) [] ∧
      Runs (readFrameWithLimit limit) [] none []) ∧
    ∀ (World : Type) (host : Host World) (security : DaemonSecurityConfig) (world : World)
      (frames : List Bytes), (∀ frame ∈ frames, frame.length ≤ limit) →
      ∃ bodies world',
        runJsonRpcWithLimit host security limit ⟨frames.flatMap writeFrame, [], world⟩ =
          (.ok (), ⟨[], bodies.flatMap writeFrame, world'⟩) ∧
        List.Forall₂ (Answers host security limit)
          ((arrivals host security limit world frames).filter fun arrival ↦
            !isNotification host arrival.2) bodies := by
  refine ⟨fun bodies hbodies ↦ ⟨?_, runs_readFrameWithLimit_nil limit⟩, ?_⟩
  · have hparse := parses_times writeFrame some fun body hbody ↦
      parses_readFrameWithLimit hlimit hword (hbodies body hbody)
    have hrun := hparse []
    rwa [append_nil] at hrun
  · intro World host security world frames hframes
    exact runs_runJsonRpcWithLimit hlimit hword hframes [] world

/-- The request in a value, without `auth` and `params`. -/
def bareRequest (value : Json) : Except String JsonRpcEnvelope :=
  match value.get? "jsonrpc".toList, value.get? "method".toList with
  | some (.string jsonrpc), some (.string method) =>
    .ok ⟨⟨.ofList method, none, none⟩, .ofList jsonrpc,
      match value.get? "id".toList with
      | some .null => none
      | id => id⟩
  | _, _ => .error "missing field"

/-- It reads such requests, and lists targets in 512 characters. -/
def bareHost : Host Unit where
  fileSystem _ := .bare
  deserializer := {
    emptyObject := .object []
    path _ := .error "not a path"
    listTargets _ := .ok ⟨⟨false, []⟩, none⟩
    findings _ := .error "not a findings directory"
    rankAt _ := .error "not a position"
    staticScan _ := .error "not a scan" }
  fromSlice frame := (Json.readUtf8 frame).elim (.error "expected value") bareRequest
  call _ _ world := (.ok (.string (replicate 512 'x')), world)
  auditToValue _ := .error "no audit"
  chunks value := [encode value]
  flatten_chunks _ := List.append_nil _

/-- The text of a request. -/
def requestText (id : Option (List Char)) (method : String) : Bytes :=
  encode (.object ((id.map fun id ↦ ("id".toList, .string id)).toList ++ [
    ("jsonrpc".toList, .string "2.0".toList), ("method".toList, .string method.toList)]))

def pingText : Bytes := requestText (some ['a']) "ping"

def listText : Bytes := requestText (some ['b']) "listTargets"

/-- A notification, a request for a method that is not there and one whose response is over the
limit are two answers. -/
theorem runJsonRpcWithLimit_answers_bare :
    ∃ bodies,
      runJsonRpcWithLimit bareHost .localSingleUser 512
          ⟨[requestText none "scan", pingText, listText].flatMap writeFrame, [], ()⟩ =
        (.ok (), ⟨[], bodies.flatMap writeFrame, ()⟩) ∧
      List.Forall₂ (Answers bareHost .localSingleUser 512) [((), pingText), ((), listText)]
        bodies ∧
      ∃ response, (respond bareHost .localSingleUser 512 listText ()).1 = some response ∧
        512 < (encode response).length := by
  have hslice (value : Json) : bareHost.fromSlice (encode value) = bareRequest value := by
    show (Json.readUtf8 (encode value)).elim _ _ = _
    rw [readUtf8_encode]
    rfl
  have hshort : ∀ frame ∈ [requestText none "scan", pingText, listText], frame.length ≤ 512 := by
    simp only [forall_mem_cons]
    refine ⟨?_, ?_, ?_, forall_mem_nil _⟩ <;>
      exact (length_utf8Bytes_ofList_le _).trans (by decide)
  obtain ⟨bodies, ⟨⟩, hrun, hanswers⟩ := (runJsonRpcWithLimit_answers 512 (by decide) (by decide)).2
    Unit bareHost .localSingleUser () _ hshort
  have hnotification (id : Option (List Char)) (method : String) :
      isNotification bareHost (requestText id method) = id.isNone := by
    rw [isNotification, requestText, hslice]
    cases id <;> rfl
  have harrivals (frames : List Bytes) :
      arrivals bareHost .localSingleUser 512 () frames = frames.map ((), ·) := by
    induction frames with
    | nil => rfl
    | cons frame frames ih => exact congrArg _ ih
  refine ⟨bodies, hrun, ?_, ?_⟩
  · rw [harrivals, map_cons, filter_cons_of_neg (by rw [hnotification]; decide), map_cons,
      filter_cons_of_pos (by rw [pingText, hnotification]; rfl), map_cons,
      filter_cons_of_pos (by rw [listText, hnotification]; rfl)] at hanswers
    exact hanswers
  · rw [respond, show bareHost.fromSlice listText = _ from hslice _]
    refine ⟨_, rfl, ?_⟩
    rw [encode, utf8Bytes_ofList_of_toNat_lt fun c hc ↦ of_decide_eq_true
      ((all_eq_true (p := fun c ↦ c.toNat < 128)).mp (by decide +kernel) c hc), length_map]
    decide +kernel

end Bhf.Daemon
