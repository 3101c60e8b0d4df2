import Busbar.Admin.Rate
import Busbar.Auth.CredentialCache
import Busbar.Auth.Sigv4
import Busbar.Config.Mutations

/-!
# The gate of the admin plane

Who calls, what the caller may do, and whether there is budget for it, asked in this order before any handler runs. The chain
names a principal with the ceiling of the module that knows it, the bindings of that module turn the principal's roles into
scopes, and the limiter counts refusals and mutations.

* `Scope`, `Grants`: the scopes, and sets of them as bits.
* `runAdminChain`: the verdict of the chain, with the credential cache.
* `adminScopeFor`, `dryRunAdminScope`: the scopes of a verdict.
* `gate`: the middleware on an admin request.
* `putAuth`: the handler that replaces the chain.
-/

namespace Busbar.Admin

/-! ## Scopes -/

inductive Scope where
  | readOnly
  | full
  deriving DecidableEq, Repr

namespace Scope

def asStr : Scope → String
  | readOnly => "read-only"
  | full => "full"

def parse (token : String) : Option Scope :=
  if token = "read-only" then some readOnly else if token = "full" then some full else none

/-- Whether the holder of `held` may call what needs `needed`. -/
def allows (held needed : Scope) : Bool :=
  match needed with
  | readOnly => true
  | full => held = full

/-- `Scope::ALL`. -/
def all : List Scope := [readOnly, full]

def bit (s : Scope) : UInt8 := 1 <<< UInt8.ofNat (all.idxOf s)

/-- Whatever the other scope satisfies, this one does. -/
def dominates (s other : Scope) : Bool := all.all (fun n => !other.allows n || s.allows n)

def meet (s other : Scope) : Scope :=
  if s.dominates other then other else if other.dominates s then s else readOnly

end Scope

/-- A set of scopes. -/
structure Grants where
  bits : UInt8
  deriving DecidableEq, Repr

namespace Grants

/-- `Grants::default()`. -/
def empty : Grants := ⟨0⟩

def of (s : Scope) : Grants := ⟨s.bit⟩

/-- `Grants::with`. -/
def add (g : Grants) (s : Scope) : Grants := ⟨g.bits ||| s.bit⟩

def contains (g : Grants) (s : Scope) : Bool := g.bits &&& s.bit ≠ 0

def cappedBy (g : Grants) (cap : Scope) : Grants :=
  (Scope.all.filter g.contains).foldl (fun acc s => acc.add (s.meet cap)) empty

def allows (g : Grants) (needed : Scope) : Bool := Scope.all.any (fun s => g.contains s && s.allows needed)

end Grants

inductive Method where
  | get
  | head
  | post
  | put
  | patch
  | delete
  | other (name : String)
  deriving DecidableEq, Repr

/-- `ADMIN_PREFIX`. -/
def adminPrefix : String := "/api/v1/admin"

/-- The path under the mount point, or the path itself. -/
def relative (path : String) : String := (stripPrefix adminPrefix path).getD path

def requiredScope (method : Method) (path : String) : Scope :=
  if method = .get ∨ method = .head then .readOnly
  else if relative path = pathConfigValidate ∨ relative path = pathPluginsInspect then .readOnly
  else .full

/-! ## The chain -/

inductive ChainVerdict where
  | identified (module : String) (principal : Principal)
  | anyone
  | denied
  deriving DecidableEq, Repr

/-- `ADMIN_TOKENS_MODULE`. -/
def adminTokensModule : String := "admin-tokens"

/-- `ADMIN_TOKENS_PRINCIPAL_ID`. -/
def adminTokensPrincipalId : String := "admin"

/-- The credentials of a request, as a bearer token and in a header of their own. -/
structure Carriers where
  bearer : Option String
  header : Option String
  deriving DecidableEq, Repr

/-- What the gate reads of a snapshot. The plugins' answers are those of the moment. -/
structure AdminApp where
  adminChain : List String
  adminTokenHash : Option String
  adminModules : String → Option (Option String → AuthOutcome)
  authScopeCaps : Table String String
  -- the scope a role is bound to, by module and role
  roleBindings : Table String (Table String (Option String))

section Chain

variable (sha256Hex : String → String)

def authenticateAdminTokens (configuredHash : Option String) (c : Carriers) : AuthOutcome :=
  match configuredHash with
  | none => .pass
  | some configuredHash =>
    if c.bearer.isNone && c.header.isNone then .pass
    else
      let bearerMatch := (c.bearer.map (fun b => Sigv4.constantTimeEq (sha256Hex b) configuredHash)).getD false
      let headerMatch := (c.header.map (fun h => Sigv4.constantTimeEq (sha256Hex h) configuredHash)).getD false
      if bearerMatch || headerMatch then
        .identify { id := adminTokensPrincipalId, name := none, roles := [], ttlSecs := none }
      else .reject

/-- Both carriers in one text, the credential of the cache. -/
def composite (c : Carriers) : Option String :=
  match c.bearer, c.header with
  | none, none => none
  | b, h => some ("b:" ++ b.getD "" ++ "\nh:" ++ h.getD "")

/-- The ceiling of a module; the operator's own has none. -/
def moduleAdminScopeCap (app : AdminApp) (module : String) : Option Scope :=
  if module = adminTokensModule then none
  else some (((app.authScopeCaps.lookup module).bind Scope.parse).getD .readOnly)

/-- A module that no plugin stands for passes. -/
def consult (app : AdminApp) (name : String) (c : Carriers) : AuthOutcome :=
  if name = adminTokensModule then authenticateAdminTokens sha256Hex app.adminTokenHash c
  else
    match app.adminModules name with
    | some authenticate => authenticate (c.bearer.or c.header)
    | none => .pass

/-- Where an outcome ends the chain. -/
def settle (app : AdminApp) (name : String) : AuthOutcome → Option (ChainVerdict × Option Scope)
  | .identify principal => some (.identified name principal, moduleAdminScopeCap app name)
  | .reject => some (.denied, none)
  | .pass => none

/-- The modules from here on. The operator's own module is never cached; a verdict of another one is kept as of the
generation the chain began in. -/
def chainFrom (app : AdminApp) (c : Carriers) (now gen : Nat) :
    List String → CacheState → (ChainVerdict × Option Scope) × CacheState
  | [], cache => ((.denied, none), cache)
  | name :: rest, cache =>
    let credential := if name ≠ adminTokensModule then composite c else none
    match credential with
    | some cred =>
      let (hit, cache) := cache.get sha256Hex name cred now
      match hit with
      | some outcome =>
        match settle app name outcome with
        | some verdict => (verdict, cache)
        | none => chainFrom app c now gen rest cache
      | none =>
        let outcome := consult sha256Hex app name c
        let cache := cache.put sha256Hex name cred outcome now gen
        match settle app name outcome with
        | some verdict => (verdict, cache)
        | none => chainFrom app c now gen rest cache
    | none =>
      match settle app name (consult sha256Hex app name c) with
      | some verdict => (verdict, cache)
      | none => chainFrom app c now gen rest cache

def runAdminChain (app : AdminApp) (c : Carriers) (now : Nat) (cache : CacheState) :
    (ChainVerdict × Option Scope) × CacheState :=
  if app.adminChain = [] then ((.anyone, none), cache)
  else chainFrom sha256Hex app c now cache.generation app.adminChain cache

end Chain

/-! ## The scopes of a verdict -/

/-- The scopes that the roles are bound to, each token that is none left out. -/
def boundScopes (table : Table String (Option String)) (roles : List String) : List Scope :=
  ((roles.filterMap table.lookup).filterMap id).filterMap Scope.parse

def adminScopeFor (module : Option String) (principal : Option Principal)
    (roleBindings : Table String (Table String (Option String))) : Grants :=
  match principal with
  | none => .of .full
  | some p =>
    if p.roles = [] then
      if module = some adminTokensModule ∧ p.id = adminTokensPrincipalId then .of .full else .empty
    else
      match module.bind roleBindings.lookup with
      | none => .empty
      | some table => (boundScopes table p.roles).foldl Grants.add .empty

/-- The scopes of a verdict under its ceiling; none where the verdict is a denial. -/
def verdictGrants (app : AdminApp) (verdict : ChainVerdict × Option Scope) : Grants :=
  let under (g : Grants) : Grants :=
    match verdict.2 with
    | some cap => g.cappedBy cap
    | none => g
  match verdict.1 with
  | .identified module principal => under (adminScopeFor (some module) (some principal) app.roleBindings)
  | .anyone => under (adminScopeFor none none app.roleBindings)
  | .denied => .empty

def dryRunAdminScope (sha256Hex : String → String) (app : AdminApp) (c : Carriers) (now : Nat) (cache : CacheState) :
    Grants :=
  verdictGrants app (runAdminChain sha256Hex app c now cache).1

/-! ## The middleware -/

inductive Answer where
  | unauthorized
  | forbidden (needed : Scope)
  | rateLimited
  | passed (principal : Option Principal)
  deriving DecidableEq, Repr

/-- Status, code, message and the seconds after which to retry; none for a request that goes on to its handler. -/
def Answer.refusal : Answer → Option (Nat × String × String × Option Nat)
  | unauthorized => some (401, "unauthorized", "missing or invalid admin credential (Bearer or x-admin-token)", none)
  | forbidden needed =>
    some (403, "forbidden", "this endpoint requires the `" ++ needed.asStr ++ "` admin scope", none)
  | rateLimited => some (429, "rate_limited", "admin mutation rate limit exceeded; retry next minute", some mutationRateWindowSecs)
  | passed _ => none

/-- A call of the audit log's `record_by`. -/
structure AuditCall where
  action : String
  resource : String
  outcome : String
  actor : String
  deriving DecidableEq, Repr

/-- `OUTCOME_REJECTED`. -/
def outcomeRejected : String := "rejected"

def isMutation (method : Method) : Bool := method = .post || method = .put || method = .patch || method = .delete

/-- The name that attempts and audit records go by. -/
def actorOf (principal : Option Principal) : String := (principal.map Principal.id).getD "anonymous"

def principalOf : ChainVerdict → Option Principal
  | .identified _ principal => some principal
  | _ => none

/-- A request on the admin plane, with the snapshot it was dispatched to, what its chain said and the clock of its check. -/
structure AdminRequest where
  method : Method
  path : String
  app : AdminApp
  verdict : ChainVerdict × Option Scope
  now : Nat

namespace AdminRequest

def principal (r : AdminRequest) : Option Principal := principalOf r.verdict.1

def actor (r : AdminRequest) : String := actorOf r.principal

def required (r : AdminRequest) : Scope := requiredScope r.method r.path

/-- The caller holds a scope that satisfies the endpoint. -/
def authorized (r : AdminRequest) : Bool := (verdictGrants r.app r.verdict).allows r.required

end AdminRequest

/-- The middleware up to the handler: the answer, what it has the audit log record, and the limiter. -/
def gate (l : MutationLimiter) (r : AdminRequest) : Answer × Option AuditCall × MutationLimiter :=
  if r.verdict.1 = .denied then (.unauthorized, none, l)
  else if ¬ r.authorized then
    let (check, l) := l.check r.actor .forbidden r.now
    -- recorded once in a window, since a record is a write to the store
    if check = .denied true then
      (.forbidden r.required, some ⟨"admin.forbidden", r.path, outcomeRejected, r.actor⟩, l)
    else (.forbidden r.required, none, l)
  else if isMutation r.method then
    let class' := classifyMutation (relative r.path)
    let (check, l) := l.check r.actor class' r.now
    match check with
    | .denied first =>
      (.rateLimited,
        if first then some ⟨"admin.rate_limited", class'.label ++ ":" ++ r.path, outcomeRejected, r.actor⟩ else none, l)
    | .admitted => (.passed r.principal, none, l)
  else (.passed r.principal, none, l)

/-! ## Replacing the chain -/

/-- What the handler of the chain reads and writes of a snapshot. -/
structure LiveApp extends AdminApp where
  configVersion : Nat
  overlayPath : Option String

def putAuth (sha256Hex : String → String) (ifMatch : Option Nat) (adminAuth : List String) (c : Carriers) (now : Nat)
    (cache : CacheState) (current : LiveApp) : Except AdminError LiveApp :=
  match staleIfMatch ifMatch current.configVersion with
  | some e => .error e
  | none =>
    if current.overlayPath.isNone then .error (.validation noWritableOverlayMsg)
    else
      match adminAuth.find? (fun name => name ≠ adminTokensModule) with
      | some name =>
        .error (.validation ("admin_auth names unknown module '" ++ name ++ "'; the built-in admin module is "
          ++ "`admin-tokens` (external admin modules are registered at compile time)"))
      | none =>
        let next := { current with configVersion := wrapInc64 current.configVersion, adminChain := adminAuth }
        if (dryRunAdminScope sha256Hex next.toAdminApp c now cache).contains .full then .ok next
        else
          .error (.conflict ("the new admin_auth chain would not grant THIS caller full scope — refusing to lock "
            ++ "you out. Authenticate with a credential the new chain accepts (at full scope) and "
            ++ "retry, or change the chain in config.yaml and restart"))

end Busbar.Admin
