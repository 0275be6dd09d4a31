import Bhf.Lib.FileSystem

/-!
# Tenant authorization of the JSON-RPC daemon

The daemon serves tenants, each with a token, a role and a workspace root. A request is matched with
a tenant, the method with the tenant's role and every path of the request with the workspace, and
then the method runs. `dispatchJsonRpcMethod` here returns the call it is about to make, since what
the methods compute plays no part in authorization; deserializing the parameters is left to a
`Deserializer`.

An input path is authorised where it really leads: it is resolved and compared with the resolved
workspace root. **An output path that does not exist yet is authorised through its nearest existing
textual ancestor**, and the rest of the text is only interpreted later, when `write_static_scan`
creates the directories. The rest may hold `..`, so this is not the same. The directory the reports
are written to is where the path leads once its missing directories exist, and the request stays in
the workspace exactly when that place does.
-/

namespace Bhf.Daemon

open Except List

open StateExcept (Runs)

/-! ### Tenants and requests -/

inductive DaemonRole
  | viewer
  | operator
  | workspaceAdmin
  deriving DecidableEq

structure TenantConfig where
  tenant : String
  token : String
  workspaceRoot : Path
  role : DaemonRole

inductive DaemonSecurityConfig
  | localSingleUser
  | workspaceShared (tenant : TenantConfig)
  | multiTenant (tenants : List TenantConfig)

inductive AuthorizedIdentity
  | localUser
  | tenant (tenant : TenantConfig)

structure JsonRpcAuth where
  tenant : Option String
  token : String

structure JsonRpcRequest (Value : Type) where
  method : String
  auth : Option JsonRpcAuth
  params : Option Value

structure RpcFailure where
  code : Int32
  message : String

namespace RpcFailure

def methodNotFound : RpcFailure :=
  ⟨-32601, "method not found"⟩

def invalidParams (message : String) : RpcFailure :=
  ⟨-32602, message⟩

def authenticationRequired : RpcFailure :=
  ⟨-32001, "authentication required"⟩

def permissionDenied (message : String) : RpcFailure :=
  ⟨-32002, message⟩

def workspaceDenied (message : String) : RpcFailure :=
  ⟨-32003, message⟩

end RpcFailure

/-! ### Parameters and calls -/

structure PathParams where
  path : Path

structure ListTargetsRpcParams where
  path : Path
  top : Option ℕ

structure FindingsParams where
  findings : Path

structure RankAtParams where
  path : Path
  line : UInt32
  column : Option UInt32

inductive StaticScanFailOn
  | low
  | medium
  | high
  | critical

structure StaticScanParams where
  path : Path
  out : Option Path
  suppressions : Option Path
  baseline : Option Path
  policy : Option Path
  enabledRules : List String
  disabledRules : List String
  sarif : Bool
  failOn : Option StaticScanFailOn

/-- `serde_json` on the parameter types; the error is the message it gives. -/
structure Deserializer (Value : Type) where
  emptyObject : Value
  path : Value → Except String PathParams
  listTargets : Value → Except String ListTargetsRpcParams
  findings : Value → Except String FindingsParams
  rankAt : Value → Except String RankAtParams
  staticScan : Value → Except String StaticScanParams

/-- The method call that a request leads to. -/
inductive MethodCall
  | scan (path : Path)
  | listTargets (path : Path) (top : Option ℕ)
  | loadFindings (findings : Path)
  | rankAt (params : RankAtParams)
  | instrumentPreview (path : Path)
  | staticScan (params : StaticScanParams)

inductive MethodAccess
  | readWorkspace
  | operateWorkspace
  deriving DecidableEq

/-! ### Authorization -/

def authorizeTenant (tenants : List TenantConfig) (auth : Option JsonRpcAuth) :
    Except RpcFailure AuthorizedIdentity :=
  match auth with
  | none => .error .authenticationRequired
  | some auth =>
    match tenants.find? fun t ↦ auth.tenant.all (· == t.tenant) && auth.token == t.token with
    | some t => .ok (.tenant t)
    | none => .error .authenticationRequired

def authorizeRequest (security : DaemonSecurityConfig) (auth : Option JsonRpcAuth) :
    Except RpcFailure AuthorizedIdentity :=
  match security with
  | .localSingleUser => .ok .localUser
  | .workspaceShared tenant => authorizeTenant [tenant] auth
  | .multiTenant tenants => authorizeTenant tenants auth

def authorizeMethod (identity : AuthorizedIdentity) (access : MethodAccess) :
    Except RpcFailure Unit :=
  match identity with
  | .localUser => .ok ()
  | .tenant tenant =>
    match tenant.role, access with
    | .viewer, .operateWorkspace =>
      .error (.permissionDenied "role viewer cannot perform workspace operations")
    | _, _ => .ok ()

section Paths

variable (fs : FileSystem)

def canonicalizeForAuth (path : Path) : Except RpcFailure Location :=
  (fs.resolve path).mapError fun error ↦
    .workspaceDenied ("authorize path " ++ path.text ++ ": " ++ error.text)

variable (identity : AuthorizedIdentity)

def authorizePath (path : Path) : Except RpcFailure Unit :=
  match identity with
  | .localUser => .ok ()
  | .tenant tenant => do
    let root ← canonicalizeForAuth fs tenant.workspaceRoot
    let target ← canonicalizeForAuth fs path
    -- Locations are written from the inside out: `starts_with` is a suffix test.
    if root.isSuffixOf target then .ok ()
    else .error (.workspaceDenied ("path " ++ path.text ++ " is outside authorized workspace " ++
      tenant.workspaceRoot.text))

def authorizeOptionalPath (path : Option Path) : Except RpcFailure Unit :=
  match path with
  | none => .ok ()
  | some path => authorizePath fs identity path

/-- A path that exists is authorised itself, a missing one through its nearest existing parent. -/
def authorizeOutputPath (path : Path) : Except RpcFailure Unit :=
  match identity with
  | .localUser => .ok ()
  | .tenant _ =>
    if fs.pathExists path then authorizePath fs identity path
    else
      match path.ancestors.tail.find? fs.pathExists with
      | some parent => authorizePath fs identity parent
      | none => authorizePath fs identity path

def authorizeOptionalOutputPath (path : Option Path) : Except RpcFailure Unit :=
  match path with
  | none => .ok ()
  | some path => authorizeOutputPath fs identity path

/-- `bhf_work/static` -/
def defaultOut : List Segment :=
  [.name "bhf_work", .name "static"]

/-- The output directory of a scan: a tenant's default lies in the workspace. -/
def chooseOut (params : StaticScanParams) : StaticScanParams :=
  match params.out, identity with
  | none, .tenant tenant => { params with out := some (tenant.workspaceRoot.join defaultOut) }
  | _, _ => params

variable {Value : Type} (de : Deserializer Value)

def parseParams {P : Type} (fromValue : Value → Except String P) (params : Option Value) :
    Except RpcFailure P :=
  (fromValue (params.getD de.emptyObject)).mapError .invalidParams

def authorizeStaticScan (params : StaticScanParams) : Except RpcFailure StaticScanParams := do
  authorizeMethod identity .operateWorkspace
  authorizePath fs identity params.path
  authorizeOptionalPath fs identity params.suppressions
  authorizeOptionalPath fs identity params.baseline
  authorizeOptionalPath fs identity params.policy
  authorizeOptionalOutputPath fs identity (chooseOut identity params).out
  pure (chooseOut identity params)

def dispatchJsonRpcMethod (method : String) (params : Option Value)
    (identity : AuthorizedIdentity) : Except RpcFailure MethodCall :=
  match method with
  | "scan" => do
    let params ← parseParams de de.path params
    authorizeMethod identity .readWorkspace
    authorizePath fs identity params.path
    pure (.scan params.path)
  | "listTargets" => do
    let params ← parseParams de de.listTargets params
    authorizeMethod identity .readWorkspace
    authorizePath fs identity params.path
    pure (.listTargets params.path params.top)
  | "findings" => do
    let params ← parseParams de de.findings params
    authorizeMethod identity .readWorkspace
    authorizePath fs identity params.findings
    pure (.loadFindings params.findings)
  | "rankAt" => do
    let params ← parseParams de de.rankAt params
    authorizeMethod identity .readWorkspace
    authorizePath fs identity params.path
    pure (.rankAt params)
  | "instrumentPreview" => do
    let params ← parseParams de de.path params
    authorizeMethod identity .operateWorkspace
    authorizePath fs identity params.path
    pure (.instrumentPreview params.path)
  | "staticScan" => do
    let params ← parseParams de de.staticScan params
    let params ← authorizeStaticScan fs identity params
    pure (.staticScan params)
  | _ => .error .methodNotFound

/-- The identity under which a request runs and the call it makes. -/
def authorizedCall (security : DaemonSecurityConfig) (request : JsonRpcRequest Value) :
    Except RpcFailure (AuthorizedIdentity × MethodCall) := do
  let identity ← authorizeRequest security request.auth
  let call ← dispatchJsonRpcMethod fs de request.method request.params identity
  pure (identity, call)

end Paths

/-! ### The report directory of a static scan -/

/-- The directory `static_scan` hands to `write_static_scan`. -/
def StaticScanParams.outDir (params : StaticScanParams) : Path :=
  params.out.getD ⟨false, defaultOut⟩

/-- What `write_static_scan` does to the file system once the scan, which only reads, has produced a
report: it creates the directory and then writes the report files there. The result is the place of
that directory. -/
def writeStaticScan (outDir : Path) : StateExcept IoError FileSystem Location := do
  FileSystem.createDirAll outDir
  let fs ← get
  match fs.resolve outDir with
  | .ok l => pure l
  | .error e => throw e

/-! ### Isolation -/

/-- The path leads to a place inside `root`. -/
def ResolvesInside (fs : FileSystem) (root : Location) (path : Path) : Prop :=
  ∃ l, fs.resolve path = .ok l ∧ root <:+ l

namespace MethodCall

def access : MethodCall → MethodAccess
  | .scan _ | .listTargets .. | .loadFindings _ | .rankAt _ => .readWorkspace
  | .instrumentPreview _ | .staticScan _ => .operateWorkspace

/-- The paths a method reads. -/
def inputPaths : MethodCall → List Path
  | .scan path | .listTargets path _ | .loadFindings path | .instrumentPreview path => [path]
  | .rankAt params => [params.path]
  | .staticScan params =>
    params.path :: (params.suppressions.toList ++ params.baseline.toList ++ params.policy.toList)

theorem exists_mem_inputPaths (call : MethodCall) : ∃ path, path ∈ call.inputPaths := by
  cases call <;> exact ⟨_, mem_cons_self⟩

/-- The directory a method writes to. -/
def outputPath : MethodCall → Option Path
  | .staticScan params => some params.outDir
  | _ => none

end MethodCall

/-- What a tenant's request may do. -/
structure StaysIn (fs : FileSystem) (auth : Option JsonRpcAuth) (tenant : TenantConfig)
    (call : MethodCall) (root : Location) : Prop where
  /-- It proves who it is. -/
  authenticated : ∃ a, auth = some a ∧ a.token = tenant.token ∧
    ∀ name, a.tenant = some name → name = tenant.tenant
  /-- It keeps to its role. -/
  role : tenant.role = .viewer → call.access ≠ .operateWorkspace
  /-- It reads in the workspace. -/
  input : ∀ path ∈ call.inputPaths, ResolvesInside fs root path
  /-- It writes there. -/
  output : ∀ out, call.outputPath = some out →
    ∀ l fs', Runs (writeStaticScan out) fs l fs' → root <:+ l

/-- The tenant's workspace root resolves, and the request stays in it. -/
def Isolated (fs : FileSystem) (auth : Option JsonRpcAuth) (tenant : TenantConfig)
    (call : MethodCall) : Prop :=
  ∃ root, fs.resolve tenant.workspaceRoot = .ok root ∧ StaysIn fs auth tenant call root

/-- **Where the output path really leads.** If its directories can be created at all, then followed
as if they existed it leads to a place inside the workspace. -/
def OutputStays (fs : FileSystem) (tenant : TenantConfig) (call : MethodCall) : Prop :=
  ∀ root, fs.resolve tenant.workspaceRoot = .ok root → ∀ out, call.outputPath = some out →
    (∃ l fs', Runs (writeStaticScan out) fs l fs') → ResolvesInside fs.completed root out

/-! ### What the checks establish -/

theorem exists_of_authorizeTenant {tenants : List TenantConfig} {auth : Option JsonRpcAuth}
    {t : TenantConfig} (h : authorizeTenant tenants auth = .ok (.tenant t)) :
    t ∈ tenants ∧ ∃ a, auth = some a ∧ a.token = t.token ∧
      ∀ name, a.tenant = some name → name = t.tenant := by
  unfold authorizeTenant at h
  split at h
  · simp at h
  · next a =>
    split at h
    · next t' hfind =>
      obtain rfl : t' = t := by simpa using h
      have hmatch := find?_some hfind
      rw [Bool.and_eq_true, beq_iff_eq] at hmatch
      refine ⟨mem_of_find?_eq_some hfind, a, rfl, hmatch.2, fun name hname ↦ ?_⟩
      simpa [hname] using hmatch.1
    · simp at h

variable {fs : FileSystem} {t : TenantConfig} {path : Path} {identity : AuthorizedIdentity}

theorem resolve_of_canonicalizeForAuth {l : Location} (h : canonicalizeForAuth fs path = .ok l) :
    fs.resolve path = .ok l := by
  rw [canonicalizeForAuth] at h
  cases hresolve : fs.resolve path with
  | error e => simp [hresolve, Except.mapError] at h
  | ok l' => simpa [hresolve, Except.mapError] using h

/-- An authorised path leads into the workspace. -/
theorem resolvesInside_of_authorizePath (h : authorizePath fs (.tenant t) path = .ok ()) :
    ∃ root, fs.resolve t.workspaceRoot = .ok root ∧ ResolvesInside fs root path := by
  obtain ⟨root, hroot, h⟩ := ok_of_bind h
  obtain ⟨target, htarget, h⟩ := ok_of_bind h
  refine ⟨root, resolve_of_canonicalizeForAuth hroot, target,
    resolve_of_canonicalizeForAuth htarget, ?_⟩
  split at h
  · next hinside => exact isSuffixOf_iff_suffix.1 hinside
  · simp at h

/-- An output path that is authorised is a path. -/
theorem not_isEmpty_of_authorizeOutputPath (h : authorizeOutputPath fs (.tenant t) path = .ok ()) :
    path.isEmpty = false := by
  by_contra hempty
  rw [Bool.not_eq_false] at hempty
  have hresolve : fs.resolve path = .error .notFound := by rw [FileSystem.resolve, if_pos hempty]
  have hsegments : path = ⟨false, []⟩ := by
    obtain ⟨absolute, segments⟩ := path
    simpa [Path.isEmpty] using hempty
  have hdenied : authorizePath fs (.tenant t) path ≠ .ok () := fun hok ↦ by
    obtain ⟨_, _, l, hl, _⟩ := resolvesInside_of_authorizePath hok
    simp [hresolve] at hl
  have hexists : fs.pathExists path = false := by rw [FileSystem.pathExists, hresolve]
  rw [hsegments] at h
  rw [hsegments] at hdenied
  exact hdenied h

/-- What has been checked before a call is made. -/
structure Authorized (fs : FileSystem) (identity : AuthorizedIdentity) (call : MethodCall) :
    Prop where
  method : authorizeMethod identity call.access = .ok ()
  input : ∀ path ∈ call.inputPaths, authorizePath fs identity path = .ok ()
  output : ∀ out, call.outputPath = some out → ∀ t, identity = .tenant t →
    authorizeOutputPath fs identity out = .ok ()

/-- The five methods without an output path. -/
theorem authorized_of_no_output {call : MethodCall} (call' : MethodCall)
    (hinput : call'.inputPaths = [path]) (houtput : call'.outputPath = none) (h : (do
      authorizeMethod identity call'.access
      authorizePath fs identity path
      pure call' : Except RpcFailure MethodCall) = .ok call) : Authorized fs identity call := by
  obtain ⟨_, hmethod, h⟩ := ok_of_bind h
  obtain ⟨_, hpath, h⟩ := ok_of_bind h
  obtain rfl : call' = call := ok.inj h
  refine ⟨hmethod, ?_, ?_⟩
  · rw [hinput]
    simpa using hpath
  · simp [houtput]

theorem authorizePath_of_authorizeOptionalPath {path : Option Path}
    (h : authorizeOptionalPath fs identity path = .ok ()) :
    ∀ p ∈ path.toList, authorizePath fs identity p = .ok () := by
  cases path with
  | none => simp
  | some path => simpa [authorizeOptionalPath] using h

theorem authorized_of_authorizeStaticScan {params params' : StaticScanParams}
    (h : authorizeStaticScan fs identity params = .ok params') :
    Authorized fs identity (.staticScan params') := by
  obtain ⟨_, hmethod, h⟩ := ok_of_bind h
  obtain ⟨_, hpath, h⟩ := ok_of_bind h
  obtain ⟨_, hsuppressions, h⟩ := ok_of_bind h
  obtain ⟨_, hbaseline, h⟩ := ok_of_bind h
  obtain ⟨_, hpolicy, h⟩ := ok_of_bind h
  obtain ⟨_, hout, h⟩ := ok_of_bind h
  obtain rfl : chooseOut identity params = params' := ok.inj h
  -- Choosing the default changes nothing but the output path.
  have hinput : (MethodCall.staticScan (chooseOut identity params)).inputPaths =
      (MethodCall.staticScan params).inputPaths := by
    unfold chooseOut
    split <;> rfl
  refine ⟨hmethod, fun path hmem ↦ ?_, fun out hmem t ht ↦ ?_⟩
  · rw [hinput, MethodCall.inputPaths, mem_cons, mem_append, mem_append] at hmem
    rcases hmem with rfl | (hmem | hmem) | hmem
    · exact hpath
    · exact authorizePath_of_authorizeOptionalPath hsuppressions path hmem
    · exact authorizePath_of_authorizeOptionalPath hbaseline path hmem
    · exact authorizePath_of_authorizeOptionalPath hpolicy path hmem
  · obtain ⟨out', hout'⟩ : ∃ out', (chooseOut identity params).out = some out' := by
      cases hparams : params.out with
      | none => exact ⟨t.workspaceRoot.join defaultOut, by simp [chooseOut, hparams, ht]⟩
      | some out' => exact ⟨out', by simp [chooseOut, hparams]⟩
    obtain rfl : out' = out := by
      simpa [MethodCall.outputPath, StaticScanParams.outDir, hout'] using hmem
    rwa [hout'] at hout

theorem authorized_of_dispatch {Value : Type} {de : Deserializer Value} {method : String}
    {params : Option Value} {call : MethodCall}
    (h : dispatchJsonRpcMethod fs de method params identity = .ok call) :
    Authorized fs identity call := by
  unfold dispatchJsonRpcMethod at h
  split at h
  · obtain ⟨params, -, h⟩ := ok_of_bind h
    exact authorized_of_no_output (.scan params.path) rfl rfl h
  · obtain ⟨params, -, h⟩ := ok_of_bind h
    exact authorized_of_no_output (.listTargets params.path params.top) rfl rfl h
  · obtain ⟨params, -, h⟩ := ok_of_bind h
    exact authorized_of_no_output (.loadFindings params.findings) rfl rfl h
  · obtain ⟨params, -, h⟩ := ok_of_bind h
    exact authorized_of_no_output (.rankAt params) rfl rfl h
  · obtain ⟨params, -, h⟩ := ok_of_bind h
    exact authorized_of_no_output (.instrumentPreview params.path) rfl rfl h
  · obtain ⟨params, -, h⟩ := ok_of_bind h
    obtain ⟨params', hparams', h⟩ := ok_of_bind h
    obtain rfl : MethodCall.staticScan params' = call := ok.inj h
    exact authorized_of_authorizeStaticScan hparams'
  · simp at h

/-! ### Where the reports go -/

/-- The reports are written where the path leads once its missing directories exist. -/
theorem resolve_completed_of_writeStaticScan {out : Path} {l : Location} {fs' : FileSystem}
    (hout : out.isEmpty = false) (h : Runs (writeStaticScan out) fs l fs') :
    fs.completed.resolve out = .ok l := by
  obtain ⟨_, fs₁, hcreate, h⟩ := StateExcept.runs_bind_iff.1 h
  obtain ⟨l', hl', hcompleted⟩ := FileSystem.resolve_of_createDirAll hout hcreate
  rw [Runs, StateExcept.exec_get_bind, hl'] at h
  obtain rfl : l' = l := ok.inj (Prod.mk.inj h).1
  exact hcompleted

/-- **Tenant isolation.** A request that runs under a tenant identity is isolated in that tenant's
workspace exactly when its output path stays there. Authentication, roles and input paths never
fail. -/
theorem isolated_iff_outputStays {Value : Type} {de : Deserializer Value}
    {security : DaemonSecurityConfig} {request : JsonRpcRequest Value} {call : MethodCall}
    (h : authorizedCall fs de security request = .ok (.tenant t, call)) :
    Isolated fs request.auth t call ↔ OutputStays fs t call := by
  obtain ⟨identity, hidentity, h⟩ := ok_of_bind h
  obtain ⟨call', hdispatch, h⟩ := ok_of_bind h
  obtain ⟨rfl, rfl⟩ : identity = .tenant t ∧ call' = call := Prod.mk.inj (ok.inj h)
  have hauthorized := authorized_of_dispatch hdispatch
  have hnonempty : ∀ out, call'.outputPath = some out → out.isEmpty = false := fun out hout ↦
    not_isEmpty_of_authorizeOutputPath (hauthorized.output out hout t rfl)
  constructor
  · rintro ⟨root, hroot, hstays⟩ root' hroot' out hout ⟨l, fs', hrun⟩
    obtain rfl : root = root' := ok.inj (hroot.symm.trans hroot')
    exact ⟨l, resolve_completed_of_writeStaticScan (hnonempty out hout) hrun,
      hstays.output out hout l fs' hrun⟩
  · intro hstays
    -- Every method reads some path, so the workspace root has been resolved.
    obtain ⟨path, hpath⟩ := call'.exists_mem_inputPaths
    obtain ⟨root, hroot, -⟩ := resolvesInside_of_authorizePath (hauthorized.input path hpath)
    refine ⟨root, hroot, ?_, fun hviewer haccess ↦ ?_, fun path hpath ↦ ?_,
      fun out hout l fs' hrun ↦ ?_⟩
    · cases security with
      | localSingleUser => simp [authorizeRequest] at hidentity
      | workspaceShared tenant | multiTenant tenants =>
        exact (exists_of_authorizeTenant hidentity).2
    · have hmethod := hauthorized.method
      simp [authorizeMethod, hviewer, haccess] at hmethod
    · obtain ⟨root', hroot', hinside⟩ :=
        resolvesInside_of_authorizePath (hauthorized.input path hpath)
      obtain rfl : root' = root := ok.inj (hroot'.symm.trans hroot)
      exact hinside
    · obtain ⟨l', hl', hinside⟩ := hstays root hroot out hout ⟨l, fs', hrun⟩
      have hl := resolve_completed_of_writeStaticScan (hnonempty out hout) hrun
      obtain rfl : l' = l := ok.inj (hl'.symm.trans hl)
      exact hinside

/-! ### A request that leaves its workspace -/

/-- A file system that holds nothing but the workspace `/ws`. -/
def workspaceOnly : FileSystem :=
  FileSystem.bare.insertDir "ws" [] rfl rfl

def wsTenant : TenantConfig :=
  ⟨"ws", "secret", ⟨true, [.name "ws"]⟩, .operator⟩

/-- A static scan of the workspace with this output path. -/
def scanRequest (out : Option Path) : JsonRpcRequest StaticScanParams where
  method := "staticScan"
  auth := some ⟨some "ws", "secret"⟩
  params := some ⟨⟨true, [.name "ws"]⟩, out, none, none, none, [], [], false, none⟩

/-- Parameters that need no parsing. -/
def staticScanOnly : Deserializer StaticScanParams where
  emptyObject := ⟨⟨true, []⟩, none, none, none, none, [], [], false, none⟩
  path _ := .error "not a path"
  listTargets _ := .error "not a target list"
  findings _ := .error "not a findings directory"
  rankAt _ := .error "not a position"
  staticScan params := .ok params

theorem isolated_scan_of_default_out : ∃ call,
    authorizedCall workspaceOnly staticScanOnly (.multiTenant [wsTenant]) (scanRequest none) =
        .ok (.tenant wsTenant, call) ∧
      Isolated workspaceOnly (scanRequest none).auth wsTenant call := by
  refine ⟨_, rfl, (isolated_iff_outputStays (show authorizedCall workspaceOnly staticScanOnly
    (.multiTenant [wsTenant]) (scanRequest none) = .ok (.tenant wsTenant, _) from rfl)).2 ?_⟩
  intro root hroot out hout _
  obtain rfl : ["ws"] = root := ok.inj hroot
  obtain rfl : (⟨true, [.name "ws", .name "bhf_work", .name "static"]⟩ : Path) = out :=
    Option.some.inj hout
  exact ⟨["static", "bhf_work", "ws"], rfl, by decide⟩

/-- The output path `/ws/new/../../outside` is authorised through `/ws` and creates `/outside`. -/
theorem not_isolated_of_missing_then_up : ∃ call,
    authorizedCall workspaceOnly staticScanOnly (.multiTenant [wsTenant])
        (scanRequest (some ⟨true, [.name "ws", .name "new", .up, .up, .name "outside"]⟩)) =
      .ok (.tenant wsTenant, call) ∧
      ¬Isolated workspaceOnly (some ⟨some "ws", "secret"⟩) wsTenant call := by
  refine ⟨_, rfl, ?_⟩
  rintro ⟨root, hroot, hstays⟩
  obtain rfl : ["ws"] = root := ok.inj hroot
  have hinside := hstays.output _ rfl ["outside"] _ rfl
  exact absurd hinside (by decide)

end Bhf.Daemon
