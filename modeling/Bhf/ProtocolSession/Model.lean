import Bhf.AdaStateMachine.Adapter
import Bhf.FuzzEngine.BinFrame
import Bhf.Lib.Lookup
import Bhf.ProtocolSession.Profile
import Mathlib.Data.List.MinMax

/-!
# Compiled protocol models

A profile is compiled into a descriptor for each message and a state graph. A field is data, is
computed from other fields, or refers to a value captured from an earlier reply; a message is laid
out with zeros for its references, encoded, and then **every reference is overwritten from the
bindings** (`CompiledMessage.buildFrame`). Only an integer can be written there: a binding that
holds bytes is as good as none.

What compilation keeps of an accepted profile is `Wired`: messages on edges are known, states have
names, and the source of a reference names a capture of a known message.
-/

namespace Bhf.ProtocolSession

open AdaStateMachine FuzzEngine.BinFrame Except ProtocolStateGraph

/-- A concrete value assigned to a data field. -/
inductive FieldValue where
  | bytes (value : Bytes)
  | int (value : UInt64)
  | enum (symbol : String)
  | tlv (value : Bytes)

inductive DataSpec where
  | bytes (max : Option ℕ)
  | int (width : IntWidth) (endian : Endian)
  | enum (width : IntWidth) (endian : Endian) (variants : Variants)
  | tlv (tag : UInt64) (tagWidth lenWidth : IntWidth) (endian : Endian)

inductive ComputedSpec where
  | length (width : IntWidth) (endian : Endian) (covers : List String)
  | checksum (kind : ChecksumKind) (endian : Endian) (covers : List String)
  | offset (width : IntWidth) (endian : Endian) (target : String)

inductive FieldRole where
  | data (spec : DataSpec)
  | computed (spec : ComputedSpec)
  | ref (source : String) (width : IntWidth) (endian : Endian)

structure CompiledField where
  name : String
  optional : Bool
  role : FieldRole
  seed : Option FieldValue

inductive CaptureSpec where
  | int (width : IntWidth) (endian : Endian)
  | enum (width : IntWidth) (endian : Endian) (variants : Variants)
  | bytes (len : ℕ)

structure CompiledCapture where
  name : String
  pos : ℕ
  spec : CaptureSpec

structure CompiledMessage where
  name : String
  maxLen : ℕ
  fields : List CompiledField
  response : List CompiledCapture

structure ProtocolModel where
  profileSha256 : String
  maxMessages : ℕ
  startState : String
  messages : List CompiledMessage
  graph : ProtocolStateGraph
  oracles : List OracleDef

def ProtocolModel.message (model : ProtocolModel) (name : String) : Option CompiledMessage :=
  model.messages.find? fun m ↦ m.name == name

inductive ModelError where
  | illegalFieldType (message field reason : String)
  | enumWithoutVariants (message field : String)
  | captureWithoutLen (message field : String)
  | badComputedSpec (message field spec : String)
  | unknownCover (message field cover : String)
  | computedCoversOptional (message field cover : String)
  | badSeedValue (message field : String)
  | reservedStateName (name : String)
  | startStateUnresolved (name : String)

inductive EncodeError where
  | unknownMessage (name : String)
  | missingValue (field : String)
  | typeMismatch (field expected got : String)
  | valueTooWide (field : String) (value : UInt64)
  | boundExceeded (field : String) (len max : ℕ)
  | unknownSymbol (field symbol : String)
  | unresolved (field reference : String)
  | frame (error : BinFrameError)

/-! ### Compiling fields -/

def toEndian : Option ByteOrder → Endian
  | some .little => .little
  | _ => .big

def intWidth : FieldType → Option IntWidth
  | .u8 => some .u8
  | .u16 => some .u16
  | .u32 => some .u32
  | _ => none

def widthMax : IntWidth → UInt64
  | .u8 => 0xFF
  | .u16 => 0xFFFF
  | .u32 => 0xFFFFFFFF

def widthForCodes (codes : List UInt64) : IntWidth :=
  let max := codes.foldl (fun a b ↦ if a < b then b else a) 0
  if max ≤ 0xFF then .u8 else if max ≤ 0xFFFF then .u16 else .u32

/-- An explicit width of an enumeration, else the width of its largest code. -/
def enumWidth (message field : String) (overrideTy : Option FieldType) (variants : Variants) :
    Except ModelError IntWidth :=
  match overrideTy with
  | some ty =>
    okOr (.illegalFieldType message field "enum width override must be u8, u16, or u32")
      (intWidth ty)
  | none => .ok (widthForCodes (variants.entries.map Prod.snd))

def compileDataSpec (message : String) (d : FieldDef) (endian : Endian) :
    Except ModelError DataSpec :=
  match d.ty with
  | .bytes => .ok (.bytes d.max)
  | .u8 => .ok (.int .u8 endian)
  | .u16 => .ok (.int .u16 endian)
  | .u32 => .ok (.int .u32 endian)
  | .enum => do
    let variants ← okOr (.enumWithoutVariants message d.name) d.variants
    if variants.entries.isEmpty then
      .error (.enumWithoutVariants message d.name)
    else do
      let width ← enumWidth message d.name d.width variants
      return .enum width endian variants
  | .tlv => .ok (.tlv (d.tag.getD 0) .u16 .u16 endian)

/-- The name and the arguments of a call such as `length(path)`. -/
def splitCall (spec : String) : Option (String × List String) := do
  let chars := spec.toList
  let opening ← chars.findIdx? (· == '(')
  let name := trim (String.ofList (chars.take opening))
  if chars.getLast? ≠ some ')' ∨ name = "" then none
  else
    let inner := (chars.drop (opening + 1)).dropLast
    let args := (inner.splitOn ',').map fun arg ↦ trim (String.ofList arg)
    some (name, args.filter (· ≠ ""))

/-- The algorithms that can be named in a computed field. -/
def checksumKind : String → Option ChecksumKind
  | "crc32" => some .crc32
  | "crc16" => some .crc16Ccitt
  | "sum8" => some .sum8
  | "xor8" => some .xor8
  | _ => none

section

variable (message : String) (d : FieldDef) (fieldNames optionalNames : List String)

/-- A covered field exists and is always there. -/
def ensureKnown (target : String) : Except ModelError Unit :=
  if target ∉ fieldNames then .error (.unknownCover message d.name target)
  else if target ∈ optionalNames then .error (.computedCoversOptional message d.name target)
  else .ok ()

def compileComputed (spec : String) : Except ModelError FieldRole := do
  let (name, args) ← okOr (.badComputedSpec message d.name spec) (splitCall spec)
  let endian := toEndian d.endian
  if name = "length" then
    if args.isEmpty then .error (.badComputedSpec message d.name spec)
    else do
      args.forM (ensureKnown message d fieldNames optionalNames)
      let width ← okOr (.illegalFieldType message d.name "length fields must be u8/u16/u32")
        (intWidth d.ty)
      return .computed (.length width endian args)
  else if name = "offset" then
    match args with
    | [target] => do
      ensureKnown message d fieldNames optionalNames target
      let width ← okOr (.illegalFieldType message d.name "offset fields must be u8/u16/u32")
        (intWidth d.ty)
      return .computed (.offset width endian target)
    | _ => .error (.badComputedSpec message d.name spec)
  else
    match checksumKind name with
    | some kind =>
      if args.isEmpty then .error (.badComputedSpec message d.name spec)
      else do
        args.forM (ensureKnown message d fieldNames optionalNames)
        return .computed (.checksum kind endian args)
    | none => .error (.badComputedSpec message d.name spec)

/-- A computed field is that even when it also names a reference. -/
def compileRole : Except ModelError FieldRole :=
  match d.computed, d.reference with
  | some spec, _ => compileComputed message d fieldNames optionalNames spec
  | none, some source => do
    let width ← okOr (.illegalFieldType message d.name "reference fields must be u8/u16/u32")
      (intWidth d.ty)
    return .ref source width (toEndian d.endian)
  | none, none => do
    let spec ← compileDataSpec message d (toEndian d.endian)
    return .data spec

end

/-- The bytes of a seed: a string or an array of small integers. -/
def tomlToBytes : TomlValue → Option Bytes
  | .string s => some (utf8Bytes s)
  | .array items => items.mapM fun
    | .integer n => if 0 ≤ n.toInt ∧ n.toInt < 256 then some (UInt8.ofNat n.toInt.toNat) else none
    | _ => none
  | _ => none

def seedFromToml (message field : String) (spec : DataSpec) (value : TomlValue) :
    Except ModelError FieldValue :=
  match spec, value with
  | .bytes _, _ => (okOr (.badSeedValue message field) (tomlToBytes value)).map .bytes
  | .tlv .., _ => (okOr (.badSeedValue message field) (tomlToBytes value)).map .tlv
  | .int .., .integer n =>
    if 0 ≤ n.toInt then .ok (.int (UInt64.ofNat n.toInt.toNat))
    else .error (.badSeedValue message field)
  | .enum _ _ variants, .string symbol =>
    if (variants.get symbol).isSome then .ok (.enum symbol)
    else .error (.badSeedValue message field)
  | _, _ => .error (.badSeedValue message field)

def compileSeed (message : String) (d : FieldDef) :
    FieldRole → Except ModelError (Option FieldValue)
  | .data spec =>
    match d.value with
    | some value => (seedFromToml message d.name spec value).map some
    | none => .ok none
  | _ => .ok none

def FieldRole.isData : FieldRole → Bool
  | .data _ => true
  | _ => false

def compileField (message : String) (fieldNames optionalNames : List String) (d : FieldDef) :
    Except ModelError CompiledField := do
  let role ← compileRole message d fieldNames optionalNames
  let seed ← compileSeed message d role
  return { name := d.name, optional := d.optional && role.isData, role := role, seed := seed }

def compileCaptureSpec (message : String) (d : CaptureDef) : Except ModelError CaptureSpec :=
  match d.ty with
  | .u8 => .ok (.int .u8 (toEndian d.endian))
  | .u16 => .ok (.int .u16 (toEndian d.endian))
  | .u32 => .ok (.int .u32 (toEndian d.endian))
  | .enum => do
    let variants ← okOr (.enumWithoutVariants message d.name) d.variants
    let width ← enumWidth message d.name d.width variants
    return .enum width (toEndian d.endian) variants
  | .bytes => (okOr (.captureWithoutLen message d.name) d.len).map .bytes
  | .tlv => .error (.illegalFieldType message d.name "tlv response captures are not supported")

def compileCapture (message : String) (d : CaptureDef) : Except ModelError CompiledCapture := do
  let spec ← compileCaptureSpec message d
  return { name := d.name, pos := d.pos, spec := spec }

def compileMessage (d : MessageDef) : Except ModelError CompiledMessage := do
  let fieldNames := d.fields.map FieldDef.name
  let optionalNames := (d.fields.filter FieldDef.optional).map FieldDef.name
  let fields ← d.fields.mapM (compileField d.name fieldNames optionalNames)
  let response ← ((d.response.map ResponseDef.captures).getD []).mapM (compileCapture d.name)
  return {
    name := d.name
    maxLen := d.maxLen.getD (64 * 1024)
    fields := fields
    response := response }

/-! ### The state graph -/

/-- Append a state that is not there yet. -/
def pushState (order : List String) (name : String) : List String :=
  if name ∈ order then order else order ++ [name]

/-- The states in the order in which they are named, the start state first. -/
def stateOrder (profile : Profile) : List String :=
  profile.transitions.foldl (fun order t ↦ pushState (pushState order t.source) t.target)
    [profile.startState]

def protocolMachine (profile : Profile) : StateMachine where
  states := (stateOrder profile).map fun name ↦
    { name := name
      openEntries := (profile.transitions.filter fun t ↦ t.source == name).map TransitionDef.send }
  transitions := profile.transitions.map fun t ↦
    { source := t.source, entry := t.send, target := t.target }

def buildStateGraph (profile : Profile) : Except ModelError ProtocolStateGraph :=
  let graph := ProtocolStateGraph.fromMachine (protocolMachine profile)
  match ((stateOrder profile).drop 1).find? fun name ↦ name == "ready" with
  | some bad => .error (.reservedStateName bad)
  | none =>
    if graph.stateName graph.initial ≠ some profile.startState then
      .error (.startStateUnresolved profile.startState)
    else .ok graph

def ProtocolModel.fromProfile (profile : Profile) : Except ModelError ProtocolModel := do
  let messages ← profile.messages.mapM compileMessage
  let graph ← buildStateGraph profile
  return {
    profileSha256 := profile.sourceSha256
    maxMessages := profile.maxMessages
    startState := profile.startState
    messages := messages
    graph := graph
    oracles := profile.oracles }

/-! ### What compilation keeps -/

variable {message : String} {d : FieldDef} {fieldNames optionalNames : List String}
  {profile : Profile}

/-- A computed field is no reference. -/
theorem computed_of_compileComputed {spec : String} {role : FieldRole}
    (h : compileComputed message d fieldNames optionalNames spec = .ok role) :
    ∃ computed, role = .computed computed := by
  obtain ⟨⟨name, args⟩, -, h⟩ := ok_of_bind h
  dsimp only at h
  split at h
  · split at h
    · contradiction
    · obtain ⟨⟨⟩, -, h⟩ := ok_of_bind h
      obtain ⟨width, -, h⟩ := ok_of_bind h
      exact ⟨_, (ok.inj h).symm⟩
  · split at h
    · split at h
      · obtain ⟨⟨⟩, -, h⟩ := ok_of_bind h
        obtain ⟨width, -, h⟩ := ok_of_bind h
        exact ⟨_, (ok.inj h).symm⟩
      · contradiction
    · split at h
      · split at h
        · contradiction
        · obtain ⟨⟨⟩, -, h⟩ := ok_of_bind h
          exact ⟨_, (ok.inj h).symm⟩
      · contradiction

/-- The source of a compiled reference is the reference of the field. -/
theorem reference_of_compileField {field : CompiledField} {source : String} {width : IntWidth}
    {endian : Endian} (h : compileField message fieldNames optionalNames d = .ok field)
    (hrole : field.role = .ref source width endian) : d.reference = some source := by
  obtain ⟨role, hcompile, h⟩ := ok_of_bind h
  obtain ⟨seed, -, h⟩ := ok_of_bind h
  obtain ⟨⟩ := h
  obtain rfl : role = .ref source width endian := hrole
  rw [compileRole] at hcompile
  split at hcompile
  · obtain ⟨computed, heq⟩ := computed_of_compileComputed hcompile
    contradiction
  · next source' hcomputed href =>
    obtain ⟨width', -, hok⟩ := ok_of_bind hcompile
    obtain ⟨rfl, -, -⟩ := FieldRole.ref.inj (ok.inj hok)
    exact href
  · obtain ⟨spec, -, hok⟩ := ok_of_bind hcompile
    exact FieldRole.noConfusion (ok.inj hok)

/-- A compiled message with the declaration it comes from. -/
structure CompiledFrom (d : MessageDef) (compiled : CompiledMessage) : Prop where
  /-- The name is kept. -/
  name : compiled.name = d.name
  /-- References come from fields of the declaration. -/
  refers : ∀ field ∈ compiled.fields, ∀ source width endian,
    field.role = .ref source width endian → ∃ f ∈ d.fields, f.reference = some source
  /-- Captures are kept. -/
  captures : ∀ capture, d.hasCapture capture → ∃ c ∈ compiled.response, c.name = capture

theorem compiledFrom_of_compileMessage {d : MessageDef} {compiled : CompiledMessage}
    (h : compileMessage d = .ok compiled) : CompiledFrom d compiled := by
  obtain ⟨fields, hfields, h⟩ := ok_of_bind h
  obtain ⟨response, hresponse, h⟩ := ok_of_bind h
  obtain ⟨⟩ := h
  refine ⟨rfl, fun field hfield source width endian hrole ↦ ?_, fun capture hcapture ↦ ?_⟩
  · obtain ⟨f, hf, hcompile⟩ :=
      exists_mem_of_forall₂ (forall₂_of_mapM_eq_ok hfields).flip hfield
    exact ⟨f, hf, reference_of_compileField hcompile hrole⟩
  · obtain ⟨r, hr, hany⟩ := (Option.any_eq_true _ _).mp hcapture
    obtain ⟨c, hc, hname⟩ := List.any_eq_true.mp hany
    rw [hr] at hresponse
    obtain ⟨c', hc', hcompile⟩ := exists_mem_of_forall₂ (forall₂_of_mapM_eq_ok hresponse) hc
    obtain ⟨spec, -, hok⟩ := ok_of_bind hcompile
    obtain ⟨⟩ := hok
    exact ⟨_, hc', by simpa using hname⟩

/-- What a model owes to the checks on its profile. -/
structure Wired (model : ProtocolModel) : Prop where
  /-- Messages on edges exist. -/
  known : ∀ {s name t}, model.graph.nextState s name = some t →
    ∃ compiled, model.message name = some compiled
  /-- The first state has a name. -/
  initial_named : ∃ name, model.graph.stateName model.graph.initial = some name
  /-- So has every state reached. -/
  named : ∀ {s entry t}, model.graph.nextState s entry = some t →
    ∃ name, model.graph.stateName t = some name
  /-- A reference names a capture of a message. -/
  sourced : ∀ {name compiled field source width endian}, model.message name = some compiled →
    field ∈ compiled.fields → field.role = .ref source width endian →
      ∃ message capture producer, splitChar '.' source = [message, "response", capture] ∧
        model.message message = some producer ∧ ∃ c ∈ producer.response, c.name = capture

theorem wired_of_fromProfile {model : ProtocolModel} (haccepted : Accepted profile)
    (h : ProtocolModel.fromProfile profile = .ok model) : Wired model := by
  obtain ⟨messages, hmessages, h⟩ := ok_of_bind h
  obtain ⟨graph, hgraph, h⟩ := ok_of_bind h
  obtain ⟨⟩ := h
  obtain ⟨hgraph, hinitial⟩ : graph = fromMachine (protocolMachine profile) ∧
      graph.stateName graph.initial = some profile.startState := by
    simp only [buildStateGraph] at hgraph
    split at hgraph
    · contradiction
    split at hgraph
    · contradiction
    · next hstart =>
      obtain ⟨⟩ := hgraph
      exact ⟨rfl, not_not.mp hstart⟩
  have hcompiled : List.Forall₂ CompiledFrom profile.messages messages :=
    (forall₂_of_mapM_eq_ok hmessages).imp fun _ _ ↦ compiledFrom_of_compileMessage
  -- a message of the profile is found under its name among the compiled ones
  have hfind : ∀ {name d}, findMessage profile.messages name = some d →
      ∃ compiled, messages.find? (fun m ↦ m.name == name) = some compiled ∧
        CompiledFrom d compiled := fun hd ↦
    exists_find?_of_forall₂ hcompiled (fun _ _ hfrom ↦ by rw [hfrom.name]) hd
  refine ⟨fun hnext ↦ ?_, ⟨_, hinitial⟩, fun hnext ↦ ?_, fun hmessage hfield hrole ↦ ?_⟩
  · obtain ⟨edge, hedge, rfl, -⟩ := exists_edge_of_nextState hnext
    obtain ⟨-, t, ht, hentry⟩ := edge_fromMachine (hgraph ▸ hedge)
    obtain ⟨t', ht', rfl⟩ := List.mem_map.mp ht
    obtain ⟨d, hd, hname⟩ := List.mem_map.mp (haccepted.sends t' ht')
    have hsome : (findMessage profile.messages edge.entry).isSome :=
      List.find?_isSome.mpr ⟨d, hd, by simpa [hname] using hentry⟩
    obtain ⟨d', hd'⟩ := Option.isSome_iff_exists.mp hsome
    obtain ⟨compiled, hcompiled, -⟩ := hfind hd'
    exact ⟨compiled, hcompiled⟩
  · obtain ⟨edge, hedge, -, rfl⟩ := exists_edge_of_nextState hnext
    obtain ⟨hlt, -⟩ := edge_fromMachine (hgraph ▸ hedge)
    subst hgraph
    refine ⟨_, List.getElem?_eq_getElem ?_⟩
    simpa [fromMachine] using hlt
  · obtain ⟨d, hd, hfrom⟩ :=
      exists_mem_of_forall₂ hcompiled.flip (List.mem_of_find?_eq_some hmessage)
    obtain ⟨f, hf, href⟩ := hfrom.refers _ hfield _ _ _ hrole
    obtain ⟨message, capture, producer, hsplit, hproducer, hcapture⟩ :=
      haccepted.refers d hd f hf _ href
    obtain ⟨compiled, hcompiled', hfrom'⟩ := hfind hproducer
    exact ⟨message, capture, compiled, hsplit, hcompiled', hfrom'.captures capture hcapture⟩

end Bhf.ProtocolSession
