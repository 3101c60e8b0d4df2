import Busbar.Config.Migrate.Governance

/-!
# Authentication

The flat role map becomes bindings under the module that asserts the roles, with a generated group for the caps of a
role. The static-token module becomes the signed-key verifier.

* `migrateAuth`: the chain, the per-module caps, the mode and the role map.
* `migrateAdminAuth`: the administration chain moves under `auth`.
* `migrateDroppedScopes`: retired scopes become `full`.
-/

namespace Busbar.Migrate

open Logged

/-- The module that an entry of a chain names. -/
def entryModuleName : Yaml → Option String
  | .string s => some s
  | .mapping m => m.head?.bind fun e => e.1.asStr
  | _ => none

/-- The scope on the entry of a module; an entry that is a name becomes a mapping. -/
def setMaxAdminScope (module : String) (scope : Yaml) : List Yaml → Option (List Yaml)
  | [] => none
  | e :: seq =>
    if entryModuleName e = some module then
      let outer : Mapping := match e with
        | .mapping m => m
        | _ => [(str module, .mapping [])]
      let outer := Mapping.modify module (fun body => match body with
        | .mapping body => .mapping (Mapping.insert "max_admin_scope" scope body)
        | body => body) outer
      some (.mapping outer :: seq)
    else (setMaxAdminScope module scope seq).map (e :: ·)

/-! ## The chain -/

def isStaticTokens (v : Yaml) : Bool := v.asStr = some "tokens" || v.asStr = some "static-tokens"

/-- The static-token entries become `keys`; a name that stands twice is dropped. -/
def rewriteChain (seen : List String) : List Yaml → List Yaml
  | [] => []
  | e :: chain =>
    let mapped := if isStaticTokens e then str "keys" else e
    match mapped.asStr with
    | some k => if k ∈ seen then rewriteChain seen chain else mapped :: rewriteChain (k :: seen) chain
    | none => mapped :: rewriteChain seen chain

def migrateChain (auth : Mapping) : Logged Mapping := do
  let auth' ← atSequence "chain" (fun chain => pure (rewriteChain [] chain)) auth
  match (auth.get "chain").bind Yaml.sequence? with
  | some chain =>
    if chain.any isStaticTokens then do
      change "auth.chain: tokens -> keys (static tokens removed; mint signed keys)"
      todo [str "auth", str "chain"] (": the static-token module is GONE in 1.5.0; every caller needs a minted signed key "
        ++ "(POST /api/v1/admin/keys) - 1.x bearer tokens stop working")
      if auth.containsKey "signing_key" then pure auth'
      else do
        todo [str "auth", str "signing_key"] (": required now that the chain uses `keys` (busbar no longer auto-generates "
          ++ "one); run `busbar --generate-signing-key` and set auth.signing_key to a secret reference for it (\x7bfile: "
          ++ "/path\x7d or \x7benv: VAR\x7d, shared across a fleet)")
        pure auth'
    else pure auth'
  | none => pure auth'

/-! ## Per-module caps -/

/-- The chain that has an entry for the module gets its scope. -/
def applyScope (module : String) (scope : Yaml) (auth : Mapping) : List String → Option Mapping
  | [] => none
  | list :: lists =>
    match ((auth.get list).bind Yaml.sequence?).bind (setMaxAdminScope module scope) with
    | some seq => some (Mapping.insert list (.sequence seq) auth)
    | none => applyScope module scope auth lists

def migrateModuleCaps (name caps : Yaml) (auth : Mapping) : Logged Mapping := do
  let module := keyText name
  let caps := asMap caps
  let auth ← match caps.get "max_admin_scope" with
    | some scope =>
      match applyScope module scope auth ["chain", "admin_auth"] with
      | some auth => do
        change ("auth.modules." ++ module ++ ".max_admin_scope -> auth chain entry \x7b " ++ module
          ++ ": \x7b max_admin_scope \x7d \x7d")
        pure auth
      | none => do
        todo [str "auth", str "modules", name, str "max_admin_scope"] (": module '" ++ module ++ "' is in no chain; set "
          ++ "max_admin_scope on its chain/admin_auth entry once you add it")
        pure auth
    | none => pure auth
  if caps.containsKey "allowed_groups" then
    todo [str "auth", str "modules", name, str "allowed_groups"] (": the per-module group-assertion allowlist was REMOVED "
      ++ "in 1.5.0 (bindings are nested by module in role_bindings); re-express that trust boundary in role_bindings."
      ++ module ++ " or the module's own plugin config")
    pure auth
  else pure auth

def migrateModulesLoop : Mapping → Mapping → Logged Mapping
  | [], auth => pure auth
  | (name, caps) :: modules, auth => do
    let auth ← migrateModuleCaps name caps auth
    migrateModulesLoop modules auth

/-- The caps of modules move to the entries of the chains; a value that is no mapping is dropped. -/
def migrateModules (auth : Mapping) : Logged Mapping :=
  match take auth "modules" with
  | (some (.mapping modules), auth) => do
    let auth ← migrateModulesLoop modules auth
    change "auth.modules removed (max_admin_scope folded into the chain entry; allowed_groups dropped with a TODO)"
    pure auth
  | (_, auth) => pure auth

/-- The mode becomes a chain or the credentials of the upstream; a mode that is no string is dropped. -/
def migrateMode (auth : Mapping) : Logged Mapping :=
  match take auth "mode" with
  | (mode, auth) =>
    match mode.bind Yaml.asStr with
    | none => pure auth
    | some "passthrough" => do
      change "auth.mode: passthrough -> auth.upstream_credentials: passthrough"
      pure (Mapping.insert "upstream_credentials" (str "passthrough") auth)
    | some "none" => do
      change "auth.mode: none removed (an omitted chain is the open front door)"
      pure auth
    | some other => do
      change ("auth.mode: " ++ other ++ " -> auth.chain: [keys] (static tokens are removed; mint signed keys)")
      todo [str "auth", str "chain"] (": the static-token allowlist is GONE in 1.5.0; every caller needs a minted signed "
        ++ "key (POST /api/v1/admin/keys) - 1.x bearer tokens stop working")
      pure (Mapping.insert "chain" (.sequence [str "keys"]) auth)

def migrateClientTokens (auth : Mapping) : Logged Mapping :=
  match take auth "client_tokens" with
  | (none, auth) => pure auth
  | (some _, auth) => do
    record (.todo ⟨[str "auth", str "client_tokens"], [], "auth.client_tokens removed: static tokens are gone in 1.5.0; mint "
      ++ "signed keys for each caller (POST /api/v1/admin/keys)"⟩)
    change "auth.client_tokens removed (static tokens are gone)"
    pure auth

/-! ## The role map -/

/-- The module the flat bindings go under: the one external module of the chain. -/
def bindingModule (auth : Mapping) : Logged String :=
  let modules := ((((auth.get "chain").bind Yaml.asSequence).getD []).filterMap entryModuleName).filter
    fun m => m ≠ "keys" ∧ m ≠ "tokens" ∧ m ≠ "admin-tokens"
  match modules with
  | [one] => pure one
  | _ => do
    todo [str "auth", str "role_bindings"] (": could not determine WHICH auth module the old group_map roles belong to; "
      ++ "replace the '<module>' placeholder with the asserting module's name (bindings are nested by module in 1.5.0)")
    pure "<module>"

/-- The caps of a role. -/
structure RoleCaps where
  rpm : Option Yaml
  tpm : Option Yaml
  budget : Option Yaml
  period : String

def roleCaps (b : Mapping) : RoleCaps × Mapping :=
  let (rpm, b) := take b "rpm_limit"
  let (tpm, b) := take b "tpm_limit"
  let (budget, b) := take b "max_budget_cents"
  let (period, b) := take b "budget_period"
  (⟨rpm, tpm, budget, periodOf period⟩, b)

/-- The limits of the group generated for a role. -/
def RoleCaps.limits (c : RoleCaps) (group : Yaml) : Logged (List Yaml) := do
  let minute (metric : String) (v : Yaml) : Yaml := .mapping [(str metric, v), (str "per", str "minute")]
  let budget ← match c.budget with
    | some bu => do
      let (window, divisor) ← windowNoun c.period [str "groups", group]
      pure [.mapping [(str "budget", rescaleAmount bu divisor), (str "per", str window)]]
    | none => pure []
  pure ((c.rpm.toList.map (minute "requests")) ++ (c.tpm.toList.map (minute "tokens")) ++ budget)

def groupName (role : Yaml) : String := "migrated-" ++ keyText role

/-- The binding of a role without its caps. -/
def roleBinding (module : String) (role : Yaml) (b : Mapping) : Logged (Mapping × Mapping) := do
  let (pools, b) := take b "allowed_pools"
  recordIf ((pools.bind Yaml.asSequence).any (·.isEmpty))
    (.warning ("auth.role_bindings." ++ module ++ "." ++ keyText role ++ ".allowed_pools: [] - the MEANING of an empty list "
      ++ "FLIPPED in 1.5.0: it used to mean ALL pools, it now means NO pools. If this role should reach every pool, DELETE the "
      ++ "allowed_pools line (omitted = all); if it should reach none, keep []."))
  let (budgetGroup, b) := take b "budget_group"
  let (group, b) := match budgetGroup with
    | some g => (some g, b)
    | none => take b "group"
  let (scope, b) := take b "admin_scope"
  pure ((pools.toList.map fun v => (str "allowed_pools", v)) ++ (group.toList.map fun v => (str "group", v))
    ++ (scope.toList.map fun v => (str "admin_scope", v)), b)

/-- A role: its binding, and the groups with the one generated for it. -/
def migrateRole (module : String) (role b : Yaml) (generated : Mapping) : Logged (Yaml × Mapping) := do
  let (binding, b) ← roleBinding module role (asMap b)
  let (caps, _) := roleCaps b
  if caps.rpm.isSome || caps.tpm.isSome || caps.budget.isSome then do
    let gname := groupName role
    let limits ← caps.limits (str gname)
    todo [str "groups", str gname] (": generated from the old group_map role '" ++ keyText role ++ "' inline caps; review the "
      ++ "limits and consider merging it into your real group tree")
    change ("auth.group_map." ++ keyText role ++ " caps -> generated groups." ++ gname)
    pure (.mapping (if binding.containsKey "group" then binding else Mapping.insert "group" (str gname) binding),
      Mapping.insert gname (.mapping [(str "limits", .sequence limits)]) generated)
  else pure (.mapping binding, generated)

/-- The roles of the map are distinct keys, and so are those of the bindings. -/
def migrateRoles (module : String) : Mapping → Mapping → Logged (Mapping × Mapping)
  | [], generated => pure ([], generated)
  | (role, b) :: roles, generated => do
    let (binding, generated) ← migrateRole module role b generated
    let (bindings, generated) ← migrateRoles module roles generated
    pure ((role, binding) :: bindings, generated)

/-- The generated groups join the groups that are there. -/
def addGroups : Mapping → Mapping → Mapping
  | [], groups => groups
  | (k, v) :: generated, groups => addGroups generated (Mapping.insertKey k v groups)

def migrateGroupMap (gm : Yaml) (root : Mapping) : Logged Mapping := do
  let module ← bindingModule (((root.get "auth").bind Yaml.mapping?).getD [])
  match gm with
  | .mapping gm => do
    let (bindings, generated) ← migrateRoles module gm []
    let root ← atMapping "auth" (fun auth =>
      pure (Mapping.insert "role_bindings" (.mapping [(str module, .mapping bindings)]) auth)) root
    change ("auth.group_map -> auth.role_bindings." ++ module ++ " (nested by module)")
    if generated.isEmpty then pure root
    else atMapping "groups" (fun groups => pure (addGroups generated groups)) (orEmpty "groups" root)
  | gm => do
    todoKept [str "group_map"] [[str "group_map"]] (": could not migrate to auth.role_bindings because `group_map:` itself is not "
      ++ "a mapping (malformed 1.4.x config); group_map was left at the top level UNCHANGED - fix `group_map:` by hand, "
      ++ "then re-run the migrator so it can nest these bindings under auth.role_bindings")
    pure (Mapping.insert "group_map" gm root)

/-- The block itself, without the role map. -/
def migrateAuthBlock (auth : Mapping) : Logged Mapping := do
  let auth ← migrateChain auth
  let auth ← migrateModules auth
  let auth ← migrateMode auth
  migrateClientTokens auth

def migrateAuth (root : Mapping) : Logged Mapping := do
  -- the role map of 1.4 is a key of the document; one under `auth` counts if there is no other
  let (top, root) := take root "group_map"
  if ((root.get "auth").bind Yaml.mapping?).isNone && top.isNone then pure root
  else
    let root := orEmpty "auth" root
    match (root.get "auth").bind Yaml.mapping? with
    | none =>
      match top with
      | some gm => do
        todoKept [str "group_map"] [[str "group_map"]] (": could not migrate to auth.role_bindings because `auth:` is present but "
          ++ "is not a mapping (malformed 1.4.x config); group_map was left at the top level UNCHANGED - fix `auth:` by hand, "
          ++ "then re-run the migrator so it can nest these bindings under auth.role_bindings")
        pure (Mapping.insert "group_map" gm root)
      | none => pure root
    | some auth => do
      let (groupMap, auth) := match top with
        | some gm => (some gm, auth)
        | none => take auth "group_map"
      let auth ← migrateAuthBlock auth
      let root := Mapping.insert "auth" (.mapping auth) root
      match groupMap with
      | some gm => migrateGroupMap gm root
      | none => pure root

/-! ## The administration chain -/

/-- The names that are not in the chain yet; what names no module is added as it is. -/
def addNames (present : List String) : List Yaml → List Yaml
  | [] => []
  | name :: names =>
    match entryModuleName name with
    | some m => if m ∈ present then addNames present names else name :: addNames (m :: present) names
    | none => name :: addNames present names

def migrateAdminAuth (root : Mapping) : Logged Mapping :=
  match take root "admin_auth" with
  | (none, root) => pure root
  | (some top, root) =>
    let names := match top with
      | .sequence s => s
      | other => [other]
    let root := orEmpty "auth" root
    match (root.get "auth").bind Yaml.mapping? with
    | none => pure root
    | some auth =>
      let (old, auth) := take auth "admin_auth"
      let old := (old.bind Yaml.asSequence).getD []
      let list := old ++ addNames (old.filterMap entryModuleName) names
      let auth := if list.isEmpty then auth else Mapping.insert "admin_auth" (.sequence list) auth
      do
        change "top-level admin_auth -> auth.admin_auth (1.5.0 nests the admin chain under auth)"
        pure (Mapping.insert "auth" (.mapping auth) root)

/-! ## Retired scopes -/

def collapsed (v : Yaml) : Bool := v.asStr = some "hooks-register" || v.asStr = some "mint"

/-- A retired scope becomes `full`. -/
def collapse (what : String) (v : Yaml) : Logged Yaml :=
  if collapsed v then do
    warn (what ++ (v.asStr.getD "") ++ " -> full (the delegated " ++ (v.asStr.getD "")
      ++ " scope is retired in 1.5.2; tighten to read-only if full is too broad)")
    pure (str "full")
  else pure v

def collapseEntry (list : String) : Yaml → Logged Yaml :=
  onMapping fun outer =>
    match outer.head?.bind fun e => e.1.asStr with
    | none => pure outer
    | some module =>
      atMapping module (atKey "max_admin_scope"
        (collapse ("auth." ++ list ++ " entry '" ++ module ++ "' max_admin_scope: "))) outer

def migrateDroppedScopes (root : Mapping) : Logged Mapping :=
  atMapping "auth" (fun auth => do
    let auth ← atSequence "chain" (mapItems (collapseEntry "chain")) auth
    let auth ← atSequence "admin_auth" (mapItems (collapseEntry "admin_auth")) auth
    atMapping "role_bindings" (mapValues fun module => onMapping (mapValues fun role =>
      onMapping (atKey "admin_scope" (collapse ("role_bindings." ++ (module.asStr.getD "") ++ "." ++ (role.asStr.getD "")
        ++ ".admin_scope: "))))) auth) root

end Busbar.Migrate
