import Busbar.Config.Migrate.Export

/-!
# Identity providers, and the whole run

Inline entries of the chains and the hosted-login methods become named definitions; a chain is left with names. A run of
the migrator is its passes in their order.

* `lift`: a definition for an inline entry, shared by the entries of one module as long as their settings agree.
* `migrateIdentityProviders`: the pass.
* `migrateConfig`: the run.
-/

namespace Busbar.Migrate

open Logged

/-- The flag is inverted; what is not `true` is read as the guard being on. -/
def migrateAdminRequireMtls (root : Mapping) : Logged Mapping :=
  match take root "admin_insecure" with
  | (none, root) => pure root
  | (some old, root) => do
    let insecure := old.asBool.getD false
    change ("admin_insecure: " ++ toString insecure ++ " -> admin_require_mtls: " ++ toString (!insecure) ++ " (INVERTED in 1.5.3 so "
      ++ "the safe posture is the default)")
    pure (Mapping.insert "admin_require_mtls" (.bool (!insecure)) root)

/-- The mode of the credentials goes to the pools, where an existing one wins. -/
def migratePoolsUpstreamCredentials (root : Mapping) : Logged Mapping :=
  match (root.get "auth").bind Yaml.mapping? with
  | none => pure root
  | some auth =>
    match take auth "upstream_credentials" with
    | (none, _) => pure root
    | (some mode, auth) =>
      let root := Mapping.insert "auth" (.mapping auth) root
      let pm := asMap ((root.get "pools").getD .null)
      if pm.containsKey "upstream_credentials" then do
        change ("auth.upstream_credentials dropped: pools.upstream_credentials is already set (the 1.5.3 home) and wins")
        pure (Mapping.insert "pools" (.mapping pm) root)
      else do
        change ("auth.upstream_credentials -> pools.upstream_credentials (the all-pools SCALAR default; override it per pool "
          ++ "with `pools.<p>.upstream_credentials`)")
        pure (Mapping.insert "pools" (.mapping (Mapping.insert "upstream_credentials" mode pm)) root)

/-! ## Definitions -/

def splitSuffix (site : String) : String := if site = "admin_auth" then "admin" else site

/-- The definitions made so far, and each with its module in the order they were made. -/
structure Providers where
  defs : Mapping
  byModule : List (String × String)

def settingsOf (defs : Mapping) (name : String) : Option Yaml :=
  ((defs.get name).bind Yaml.asMapping).bind fun d => d.get "settings"

def sameSettings : Option Yaml → Option Yaml → Bool
  | none, none => true
  | some a, some b => a.eq b
  | _, _ => false

/-- The definition to use again: one that agrees, or else one without settings. A method takes the first there is. -/
def reusable (p : Providers) (candidates : List String) (want : Option Yaml) (site : String) : Option String :=
  if site = "methods" then candidates.head?
  else
    match candidates.find? fun n => want.isNone || sameSettings (settingsOf p.defs n) want with
    | some n => some n
    | none => candidates.find? fun n => (settingsOf p.defs n).isNone

def typedKeys : List String := ["max_admin_scope", "token", "settings"]

/-- The typed keys that a definition does not have yet. -/
def mergeTyped (body : Mapping) : List String → Mapping → Mapping
  | [], existing => existing
  | key :: keys, existing =>
    mergeTyped body keys
      (if existing.containsKey key then existing
        else match body.get key with
          | some v => Mapping.insert key v existing
          | none => existing)

/-- The name the site refers to, and the definitions with the one lifted. -/
def lift (module : String) (body : Mapping) (site : String) (p : Providers) : Logged (String × Providers) := do
  let want := body.get "settings"
  let candidates := (p.byModule.filter fun e => e.1 = module).map Prod.snd
  match reusable p candidates want site with
  | some name => do
    change ("auth chain entry `" ++ module ++ "` -> the EXISTING identity-providers." ++ name ++ " definition (define once, "
      ++ "reference by name)")
    let defs := Mapping.modify name (fun d => match d with
      | .mapping existing => .mapping (mergeTyped body typedKeys existing)
      | d => d) p.defs
    pure (name, ⟨defs, p.byModule⟩)
  | none => do
    let split := !candidates.isEmpty
    let base := if split then module ++ "-" ++ splitSuffix site else module
    let name := uniqName p.defs base
    let def_ : Mapping := [(str "module", str module)] ++ (typedKeys.filterMap fun key => (body.get key).map fun v => (str key, v))
    let p : Providers := ⟨Mapping.insert name (.mapping def_) p.defs, p.byModule ++ [(module, name)]⟩
    if split then do
      change ("auth." ++ site ++ " entry `" ++ module ++ ": \x7b … \x7d` -> a SECOND identity-providers." ++ name ++ " definition (its "
        ++ "`settings:` differ from the existing `" ++ module ++ "` definition, so the two were NOT deduped)")
      todo [str "identity-providers", str name] (": `" ++ module ++ "` was configured on more than one auth plane with DIFFERENT "
        ++ "`settings:`, so the migrator kept BOTH — `" ++ name ++ "` carries the `auth." ++ site ++ "` settings and is referenced "
        ++ "from there; the other definition keeps the settings of the site that declared it first. Nothing was lost; rename "
        ++ "them to whatever your `role_bindings:` should key off, or collapse them if the difference was accidental.")
      pure (name, p)
    else do
      change ("auth chain entry `" ++ module ++ ": \x7b … \x7d` -> identity-providers." ++ name ++ " + a bare-name reference (1.5.3: "
        ++ "define once, reference by name)")
      pure (name, p)

/-! ## The pass -/

/-- The names of a chain. An entry without a module is dropped. -/
def liftChain (plane : String) : List Yaml → Providers → Logged (List Yaml × Providers)
  | [], p => pure ([], p)
  | .mapping m :: seq, p =>
    match m.head?.bind fun e => e.1.asStr.map fun module => (module, asMap e.2) with
    | none => liftChain plane seq p
    | some (module, body) => do
      let (name, p) ← lift module body plane p
      let (names, p) ← liftChain plane seq p
      pure (str name :: names, p)
  | e :: seq, p => do
    let (names, p) ← liftChain plane seq p
    pure (e :: names, p)

/-- The block as far as it is lifted. -/
structure Lifting where
  auth : Mapping
  providers : Providers

def liftPlane (plane : String) (s : Lifting) : Logged Lifting :=
  match (s.auth.get plane).bind Yaml.sequence? with
  | none => pure s
  | some seq => do
    let (names, p) ← liftChain plane seq s.providers
    pure ⟨Mapping.insert plane (.sequence names) s.auth, p⟩

def insertAll : Mapping → Mapping → Mapping
  | [], m => m
  | (k, v) :: entries, m => insertAll entries (Mapping.insertKey k v m)

/-- The login key and the settings of a method, in its definition. -/
def mergeMethod (browserLogin : Option Yaml) (settings : Mapping) (d : Yaml) : Yaml :=
  match d with
  | .mapping d =>
    let d := match browserLogin with
      | some bl => Mapping.insert "browser_login" bl d
      | none => d
    let merged := insertAll settings (asMap ((Mapping.get d "settings").getD .null))
    .mapping (if merged.isEmpty then d else Mapping.insert "settings" (.mapping merged) d)
  | d => d

def liftMethods : Mapping → Providers → Logged Providers
  | [], p => pure p
  | (k, v) :: methods, p =>
    match k.asStr with
    | none => liftMethods methods p
    | some module => do
      let (browserLogin, body) := take (asMap v) "browser_login"
      let (name, p) ← lift module [(str "settings", .mapping body)] "methods" p
      change ("auth.methods." ++ module ++ " -> identity-providers." ++ name ++ " (browser_login + settings are PER-PROVIDER in "
        ++ "1.5.3; the parallel methods map is gone)")
      liftMethods methods ⟨Mapping.modify name (mergeMethod browserLogin body) p.defs, p.byModule⟩

/-- The definitions of a document, with their modules. -/
def Providers.ofDefs (defs : Mapping) : Providers where
  defs := defs
  byModule := defs.filterMap fun e => do
    let name ← e.1.asStr
    let m ← e.2.asMapping
    let v ← m.get "module"
    let module ← v.asStr
    pure (module, name)

/-- Methods that are no mapping are dropped. -/
def liftAuth (s : Lifting) : Logged Lifting := do
  let s ← liftPlane "chain" s
  let s ← liftPlane "admin_auth" s
  let p ← liftMethods (((s.auth.get "methods").bind Yaml.mapping?).getD []) s.providers
  pure ⟨s.auth.swapRemove "methods", p⟩

/-- The block goes back, and the definitions if there are any. -/
def writeProviders (s : Lifting) (root : Mapping) : Mapping :=
  let root := Mapping.insert "auth" (.mapping s.auth) root
  if s.providers.defs.isEmpty then root else Mapping.insert "identity-providers" (.mapping s.providers.defs) root

def migrateProviderDefs (auth defs root : Mapping) : Logged Mapping := do
  let s ← liftAuth ⟨auth, .ofDefs defs⟩
  recordIf (s.auth.containsKey "role_bindings" && !s.providers.defs.isEmpty)
    (.todo ⟨[str "auth", str "role_bindings"], [], "auth.role_bindings is nested by the IDENTITY-PROVIDER NAME in 1.5.3. The "
      ++ "migrator named each new definition after its module, so existing bindings still resolve — but if you RENAME a "
      ++ "definition in `identity-providers:`, rename its `role_bindings:` table to match."⟩)
  pure (writeProviders s root)

def migrateIdentityProviders (lib : YamlLib) (root : Mapping) : Logged Mapping :=
  match take root "auth" with
  | (none, root) => pure root
  | (some (.mapping auth), root) =>
    match take root "identity-providers" with
    | (none, root) => migrateProviderDefs auth [] root
    | (some (.mapping defs), root) => migrateProviderDefs auth defs root
    | (some other, root) => do
      todoKept [str "identity-providers"] [[str "identity-providers"]] (": is not a mapping (`" ++ lib.oneLine other ++ "`) — it was left "
        ++ "EXACTLY as written and no `auth.chain:`/`auth.admin_auth:`/`auth.methods:` entry was lifted into it. 1.5.3 "
        ++ "expects `identity-providers: \x7b <name>: \x7b module: … \x7d \x7d`; fix the block by hand, then re-run the migration.")
      pure (Mapping.insert "identity-providers" other (Mapping.insert "auth" (.mapping auth) root))
  | (some other, root) => do
    todoKept [str "auth"] [[str "auth"]] (": is not a mapping (`" ++ lib.oneLine other ++ "`) — it was left EXACTLY as written and NOTHING "
      ++ "was lifted out of it. 1.5.3 expects `auth: \x7b chain: [...], admin_auth: [...] \x7d` with the providers defined under "
      ++ "the top-level `identity-providers:` map; fix the block by hand, then re-run the migration.")
    pure (Mapping.insert "auth" other root)

/-! ## The store -/

def retiredStoreModules : List String := ["redis", "busbar-store-redis", "busbar-store-redis-plugin"]
def storeModuleValkey : String := "valkey"
def storeModuleValkeyName : String := "busbar-store-valkey-plugin"
def storeModuleValkeyAssetStem : String := "busbar-store-valkey"

def migrateStoreModule (lib : YamlLib) (root : Mapping) : Logged Mapping := do
  match ← takeMapping lib.oneLine root "store" [] with
  | .absent | .malformed => pure root
  | .got store root =>
    match ((store.get "module").bind Yaml.asStr).filter (· ∈ retiredStoreModules) with
    | none => pure (Mapping.insert "store" (.mapping store) root)
    | some old => do
      change ("store.module: " ++ old ++ " -> " ++ storeModuleValkey ++ " (the first-party store plugin for this backend was RENAMED "
        ++ "in 1.5.3: artifact `" ++ storeModuleValkeyAssetStem ++ "-<ver>-<target>.tar.gz`, manifest name `"
        ++ storeModuleValkeyName ++ "`. Install the renamed tarball — the old one no longer answers to any name in this config. "
        ++ "Your `settings.url` is UNCHANGED: `redis://` is the driver's own URL scheme, not a busbar name.)")
      pure (Mapping.insert "store" (.mapping (Mapping.insert "module" (str storeModuleValkey) store)) root)

/-! ## The run -/

def migratePasses (lib : YamlLib) (root : Mapping) : Logged Mapping := do
  let root ← migrateGovernance lib root
  let root ← migrateAuth root
  let root ← migrateAdminAuth root
  let root ← migrateDroppedScopes root
  let root ← migrateProviders root
  let root ← migrateHooksBlock lib root
  let root ← migratePools lib root
  let root ← migrateHookStages root
  let root ← migrateObservability root
  let root ← migrateResponseHeaders lib root
  let root ← migrateObservabilityExport lib root
  let root ← migrateExportNamedMap root
  let root ← migrateObservabilityBlock lib root
  let root ← migrateExportProjection lib root
  let root ← migrateAdminRequireMtls root
  let root ← migratePoolsUpstreamCredentials root
  let root ← migrateIdentityProviders lib root
  migrateStoreModule lib root

structure MigrateOutput where
  doc : Mapping
  changes : List String
  todos : List Todo
  warnings : List String

/-- A run that panics has no output. -/
def migrateConfig (lib : YamlLib) (root : Mapping) : Option MigrateOutput :=
  let run := migratePasses lib root
  if run.ledger.any (fun | .panicked _ => true | _ => false) then none
  else some {
    doc := run.value
    changes := run.ledger.filterMap fun | .change t => some t | _ => none
    todos := run.ledger.filterMap fun | .todo t => some t | _ => none
    warnings := run.ledger.filterMap fun | .warning t => some t | _ => none }

end Busbar.Migrate
