import Busbar.Admin.Mint
import Busbar.Config.Overlay

/-!
# Changing the configuration through the API

The snapshots that the handlers build, what each of them is checked against, and how it is made durable before it is live.
The plugins that a registry names are opened in a build; what comes of that is an input, and so are the acknowledgement of
a hook and the number of the keys that are bound to a group.

* `buildWithHook`, `buildWithoutHook`, `buildWithRegistry`, `buildWithGroup`, `buildWithoutGroup`: the next snapshot.
* `ConfigServer.handle`: the handlers, each with the tombstones it asks for.
* `ConfigServer.step`: a request, persisted and then live, or a restart.
-/

namespace Busbar

/-- The part of a snapshot that the configuration plane changes. -/
structure AppConfig where
  hookRegistry : HookTable
  globalHooks : List String
  groupsRegistry : GroupTable
  baseHookNames : List String
  baseGroupNames : List String
  pools : List String
  configVersion : Nat
  overlayPath : Option String
  maxAutoProvisionedGroups : Nat

/-- A recorded version of the hooks. -/
structure ConfigVersion where
  version : Nat
  hookRegistry : HookTable
  globalHooks : List String

def maxVersions : Nat := 100

/-- A version recorded again is replaced; the oldest ones make room. -/
def VersionLog.record (entries : List ConfigVersion) (v : ConfigVersion) : List ConfigVersion :=
  let entries := entries.filter (fun e => e.version ≠ v.version)
  entries.drop (entries.length - (maxVersions - 1)) ++ [v]

def VersionLog.get (entries : List ConfigVersion) (version : Nat) : Option ConfigVersion :=
  entries.find? (fun e => e.version = version)

/-! ## The next snapshot -/

def reservedHookNames : List String :=
  ["weighted", "reject", "first", "nothing", "cheapest", "fastest", "least_busy", "usage", "tokens", "admin-tokens"]

def maxSettingsBytes : Nat := 64 * 1024

def maxSettingsKeys : Nat := 256

def maxHookNameLen : Nat := 256

def maxGroupNameLen : Nat := 256

section Builders

variable (lib : JsonLib)

def validateHookSettingsSize (settings : List (String × Json)) : Option AdminError :=
  let bytes := (lib.toVec (.object settings)).length
  if settings.length > maxSettingsKeys then
    some (.validation ("settings has too many keys (" ++ toString settings.length ++ ", max " ++ toString maxSettingsKeys
      ++ ")"))
  else if bytes > maxSettingsBytes then
    some (.validation ("settings too large (" ++ toString bytes ++ " bytes, max " ++ toString maxSettingsBytes ++ ")"))
  else none

/-- What is wrong with a definition by itself. -/
def hookError (name : String) (cfg : HookCfg) : Option AdminError :=
  if trim name = "" then some (.validation "hook name must not be empty")
  else if name.utf8ByteSize > maxHookNameLen then
    some (.validation ("hook name is " ++ toString name.utf8ByteSize ++ " chars; must be <= " ++ toString maxHookNameLen))
  else if name ∈ reservedHookNames then
    some (.validation ("hook name `" ++ name ++ "` is reserved (a built-in ranking strategy, auth module, or on_error "
      ++ "terminal); pick another name"))
  else
    (validateHookSettingsSize lib cfg.settings).or <|
      if trim cfg.plugin = "" then some (.validation "a hook must name a `kind: hook` plugin via `module:`")
      else if cfg.kind = .tap ∧ cfg.prompt = .rw then
        some (.validation "`prompt: rw` is invalid on a `kind: tap` hook (a tap cannot rewrite)")
      else none

/-- The grants of a hook that is there already cannot be changed. -/
def grantError (registry : HookTable) (name : String) (cfg : HookCfg) : Option AdminError :=
  match registry.lookup name with
  | some existing =>
    if existing.kind ≠ cfg.kind ∨ existing.prompt ≠ cfg.prompt ∨ existing.user ≠ cfg.user then
      some (.conflict ("hook `" ++ name ++ "` already exists with different kind/prompt/user grants; grants are immutable "
        ++ "— delete and re-register to change them"))
    else none
  | none => none

/-- `unopened` is the error of a plugin of the new registry that does not open. -/
def buildWithHook (unopened : Option String) (current : AppConfig) (name : String) (cfg : HookCfg) :
    Except AdminError AppConfig :=
  match (hookError lib name cfg).or (grantError current.hookRegistry name cfg) with
  | some e => .error e
  | none =>
    match unopened with
    | some e => .error (.validation e)
    | none =>
      .ok { current with
        configVersion := wrapInc64 current.configVersion
        hookRegistry := current.hookRegistry.insert name cfg
        globalHooks :=
          if cfg.global then
            if name ∈ current.globalHooks then current.globalHooks else current.globalHooks ++ [name]
          else current.globalHooks.filter (fun n => n ≠ name) }

end Builders

def buildWithoutHook (current : AppConfig) (name : String) : Except AdminError AppConfig :=
  match current.hookRegistry.lookup name with
  | none => .error (.notFound ("hook `" ++ name ++ "`"))
  | some _ =>
    .ok { current with
      configVersion := wrapInc64 current.configVersion
      hookRegistry := Registry.erase name current.hookRegistry
      globalHooks := current.globalHooks.filter (fun n => n ≠ name) }

/-- What is wrong with a registry that is to replace the live one; the first hook of the map decides. -/
def registryError (registry : HookTable) (globalHooks : List String) : Option AdminError :=
  let bad := registry.rows.findSome? fun r =>
    if trim r.2.plugin = "" then
      some (.validation ("hook `" ++ r.1 ++ "` must name a `kind: hook` plugin via `module:`"))
    else if r.2.kind = .tap ∧ r.2.prompt = .rw then
      some (.validation ("hook `" ++ r.1 ++ "` sets `prompt: rw` on a `kind: tap` (a tap cannot rewrite)"))
    else none
  let defaults := (registry.rows.filter (fun r => r.2.default)).map Prod.fst
  let unknown := globalHooks.find? (fun g => (registry.lookup g).isNone)
  bad.or <|
    if defaults.length > 1 then
      some (.validation ("snapshot has more than one `default: true` hook: " ++ String.intercalate ", " defaults))
    else unknown.map fun g => .validation ("snapshot wires unknown global hook `" ++ g ++ "`")

def buildWithRegistry (unopened : Option String) (current : AppConfig) (registry : HookTable)
    (globalHooks : List String) : Except AdminError AppConfig :=
  match registryError registry globalHooks with
  | some e => .error e
  | none =>
    match unopened with
    | some e => .error (.validation e)
    | none =>
      .ok { current with
        configVersion := wrapInc64 current.configVersion
        hookRegistry := registry
        globalHooks := globalHooks }

def AppConfig.treeErrors (current : AppConfig) (groups : GroupTable) : List String :=
  validateGroups groups (fun p => current.pools.contains p)

def buildWithGroup (current : AppConfig) (name : String) (cfg : GroupEntry) : Except AdminError AppConfig :=
  if trim name = "" then .error (.validation "group name must not be empty")
  else if name.utf8ByteSize > maxGroupNameLen then
    .error (.validation ("group name is " ++ toString name.utf8ByteSize ++ " chars; must be <= " ++ toString maxGroupNameLen))
  else
    let groups := current.groupsRegistry.insert name cfg
    match current.treeErrors groups with
    | [] => .ok { current with configVersion := wrapInc64 current.configVersion, groupsRegistry := groups }
    | errors => .error (.validation ("invalid group `" ++ name ++ "`: " ++ String.intercalate "; " errors))

def buildWithoutGroup (current : AppConfig) (name : String) (boundKeys : Nat) : Except AdminError AppConfig :=
  match current.groupsRegistry.lookup name with
  | none => .error (.notFound ("group `" ++ name ++ "`"))
  | some _ =>
    if boundKeys > 0 then
      .error (.conflict ("cannot delete group `" ++ name ++ "`: " ++ toString boundKeys ++ " key(s) are still bound to it; "
        ++ "rebind those keys to another group (PATCH /api/v1/admin/keys/\x7bid\x7d with `group`) or delete them first"))
    else
      let groups := Registry.erase name current.groupsRegistry
      match current.treeErrors groups with
      | [] => .ok { current with configVersion := wrapInc64 current.configVersion, groupsRegistry := groups }
      | errors =>
        .error (.conflict ("cannot delete group `" ++ name ++ "`: " ++ String.intercalate "; " errors
          ++ " (re-parent or remove the referencing group first)"))

/-! ## The handlers -/

/-- The section a handler persists, with the name it tombstones and the name it clears. -/
inductive Persist where
  | hooks (deletedAdd deletedRemove : Option String)
  | groups (deletedAdd deletedRemove : Option String)
  deriving DecidableEq, Repr

/-- A snapshot that is to be persisted and then installed. -/
structure Commit where
  installed : AppConfig
  persist : Persist

/-- The fields of a `PATCH` of a group; one that is absent is preserved. -/
structure GroupPatch where
  parent : Option String
  enabled : Option Bool
  limits : Option (List LimitEntry)
  childDefault : Option ChildDefault
  deriving DecidableEq, Repr

def mergeGroupPatch (base : GroupEntry) (patch : GroupPatch) : GroupEntry :=
  { parent := patch.parent.or base.parent
    enabled := patch.enabled.getD base.enabled
    limits := patch.limits.getD base.limits
    childDefault := patch.childDefault.or base.childDefault }

def staleIfMatch (expected : Option Nat) (current : Nat) : Option AdminError :=
  match expected with
  | some v =>
    if v ≠ current then
      some (.versionConflict ("If-Match version " ++ toString v ++ " is stale (current is " ++ toString current ++ ")"))
    else none
  | none => none

/-- A name of the base configuration is not the API's to change. -/
def baseError (what : String) (baseNames : List String) (name : String) : Option AdminError :=
  if name ∈ baseNames then
    some (.conflict (what ++ " `" ++ name ++ "` is defined in the base config file; edit config.yaml (the API cannot "
      ++ "silently shadow operator file config)"))
  else none

def absentError {β : Type} (what : String) (table : Table String β) (name : String) : Option AdminError :=
  match table.lookup name with
  | none => some (.notFound (what ++ " `" ++ name ++ "`"))
  | some _ => none

namespace AppConfig

/-- Checks, then a build, then the commit of what is built. -/
def attempt (refused : Option AdminError) (build : Except AdminError AppConfig) (persist : Persist) :
    Except AdminError Commit :=
  match refused with
  | some e => .error e
  | none => build.map fun installed => ⟨installed, persist⟩

variable (lib : JsonLib) (current : AppConfig) (ifMatch : Option Nat) (name : String)

def registerHook (cfg : HookCfg) (unopened : Option String) : Except AdminError Commit :=
  attempt ((baseError "hook" current.baseHookNames name).or (staleIfMatch ifMatch current.configVersion))
    (buildWithHook lib unopened current name cfg) (.hooks none (some name))

def putHook (cfg : HookCfg) (unopened : Option String) : Except AdminError Commit :=
  attempt (((absentError "hook" current.hookRegistry name).or (baseError "hook" current.baseHookNames name)).or
      (staleIfMatch ifMatch current.configVersion))
    (buildWithHook lib unopened current name cfg) (.hooks none (some name))

def deleteHook : Except AdminError Commit :=
  attempt (((absentError "hook" current.hookRegistry name).or (baseError "hook" current.baseHookNames name)).or
      (staleIfMatch ifMatch current.configVersion))
    (buildWithoutHook current name) (.hooks (some name) none)

/-- The settings are pushed to the hook first; `nack` is why it did not take them. -/
def patchHookSettings (settings : List (String × Json)) (nack unopened : Option String) : Except AdminError Commit :=
  match validateHookSettingsSize lib settings with
  | some e => .error e
  | none =>
    match current.hookRegistry.lookup name with
    | none => .error (.notFound ("hook `" ++ name ++ "`"))
    | some existing =>
      if name ∈ current.baseHookNames then
        .error (.conflict ("hook `" ++ name ++ "` is defined in the base config file; edit config.yaml"))
      else
        attempt ((staleIfMatch ifMatch current.configVersion).or
            (nack.map fun e => .validation ("hook did not acknowledge the settings push: " ++ e)))
          (buildWithHook lib unopened current name { existing with settings := settings }) (.hooks none (some name))

def rollbackConfig (versions : List ConfigVersion) (want : Nat) (unopened : Option String) : Except AdminError Commit :=
  match staleIfMatch ifMatch current.configVersion with
  | some e => .error e
  | none =>
    match VersionLog.get versions want with
    | none => .error (.notFound ("config version " ++ toString want ++ " (pruned or never recorded)"))
    | some target =>
      attempt none (buildWithRegistry unopened current target.hookRegistry target.globalHooks) (.hooks none none)

def registerGroup (cfg : GroupEntry) : Except AdminError Commit :=
  attempt ((baseError "group" current.baseGroupNames name).or (staleIfMatch ifMatch current.configVersion))
    (buildWithGroup current name cfg) (.groups none (some name))

def putGroup (cfg : GroupEntry) : Except AdminError Commit :=
  attempt (((absentError "group" current.groupsRegistry name).or (baseError "group" current.baseGroupNames name)).or
      (staleIfMatch ifMatch current.configVersion))
    (buildWithGroup current name cfg) (.groups none (some name))

def patchGroup (patch : GroupPatch) : Except AdminError Commit :=
  match current.groupsRegistry.lookup name with
  | none => .error (.notFound ("group `" ++ name ++ "`"))
  | some existing =>
    attempt ((baseError "group" current.baseGroupNames name).or (staleIfMatch ifMatch current.configVersion))
      (buildWithGroup current name (mergeGroupPatch existing patch)) (.groups none (some name))

/-- `bound` is the number of the keys bound to the group, unless the store could not tell. -/
def deleteGroup (bound : Option Nat) : Except AdminError Commit :=
  attempt (((absentError "group" current.groupsRegistry name).or (baseError "group" current.baseGroupNames name)).or
      (staleIfMatch ifMatch current.configVersion))
    (match bound with
      | none => .error .internal
      | some n => buildWithoutGroup current name n)
    (.groups (some name) none)

def parentWord : Option String → String
  | some p => "`" ++ p ++ "`"
  | none => "<root>"

/-- The leaf that a mint provisions, if its group is not there yet. -/
def planMintGroup (parent : Option String) : Except AdminError (Option AppConfig) :=
  match current.groupsRegistry.lookup name with
  | some existing =>
    match parent with
    | none => .ok none
    | some want =>
      if existing.parent ≠ some want then
        .error (.conflict ("group `" ++ name ++ "` already exists with parent " ++ parentWord existing.parent
          ++ "; the mint named parent `" ++ want ++ "` — a mint cannot re-home an existing group (PATCH the group to "
          ++ "re-parent it, or drop `parent` to bind as-is)"))
      else .ok none
  | none =>
    match parent with
    | none =>
      .error (.validation ("group '" ++ name ++ "' does not exist in the top-level groups block; either configure it first, "
        ++ "or pass `parent: <existing-group>` to auto-provision it as a leaf (e.g. `parent: team-payments` creates " ++ name
        ++ " under team-payments and binds the key)"))
    | some parent =>
      if parent.utf8ByteSize > maxGroupNameLen then
        .error (.validation ("parent name is " ++ toString parent.utf8ByteSize ++ " chars; must be <= "
          ++ toString maxGroupNameLen))
      else if (current.groupsRegistry.lookup parent).isNone then
        .error (.validation ("cannot auto-provision `" ++ name ++ "`: its `parent: " ++ parent ++ "` does not exist in the "
          ++ "top-level groups block; name an existing team/org group"))
      else if name ∈ current.baseGroupNames then
        .error (.conflict ("group `" ++ name ++ "` is defined in the base config file; edit config.yaml (the API cannot "
          ++ "silently shadow operator file config)"))
      else if current.maxAutoProvisionedGroups > 0 ∧
          current.groupsRegistry.rows.length ≥ current.maxAutoProvisionedGroups then
        .error (.conflict ("cannot auto-provision `" ++ name ++ "`: this server already has "
          ++ toString current.groupsRegistry.rows.length ++ " group(s), at the `limits.max_auto_provisioned_groups` ceiling of "
          ++ toString current.maxAutoProvisionedGroups ++ ". Delete an unused group, raise the ceiling, or bind the key to an "
          ++ "existing group"))
      else (buildWithGroup current name (provisionChild current.groupsRegistry parent)).map some

end AppConfig

/-! ## The server -/

structure ConfigServer where
  base : RootCfg
  overlay : OverlayReadState
  app : AppConfig
  versions : List ConfigVersion

inductive ConfigOp where
  | registerHook (ifMatch : Option Nat) (name : String) (cfg : HookCfg) (unopened : Option String)
  | putHook (ifMatch : Option Nat) (name : String) (cfg : HookCfg) (unopened : Option String)
  | deleteHook (ifMatch : Option Nat) (name : String)
  | patchHookSettings (ifMatch : Option Nat) (name : String) (settings : List (String × Json))
      (nack unopened : Option String)
  | rollback (ifMatch : Option Nat) (version : Nat) (unopened : Option String)
  | registerGroup (ifMatch : Option Nat) (name : String) (cfg : GroupEntry)
  | putGroup (ifMatch : Option Nat) (name : String) (cfg : GroupEntry)
  | patchGroup (ifMatch : Option Nat) (name : String) (patch : GroupPatch)
  | deleteGroup (ifMatch : Option Nat) (name : String) (bound : Option Nat)
  | provisionGroup (name : String) (parent : Option String)
  | restart

/-- The configuration a boot makes of the base and the overlay. -/
def bootMerge (path : Option String) (base : RootCfg) (overlay : OverlayReadState) : Except String RootCfg :=
  match path with
  | none => .ok base
  | some p =>
    match overlay with
    | .versionTooNew v =>
      .error ("config overlay '" ++ p ++ "' was written by a newer busbar (overlay version " ++ toString v
        ++ "; this                  binary understands " ++ toString overlayVersion
        ++ "). Starting without it would silently drop API-registered                  hooks and groups. Upgrade busbar, or "
        ++ "boot with --safe-mode to run on config.yaml                  alone (the overlay is left untouched).")
    | .loaded doc => .ok (mergeInto base doc)
    | .absent => .ok base
    | .unreadable => .ok base

namespace ConfigServer

/-- The first version recorded is that of the boot. -/
def boot (path : Option String) (base : RootCfg) (overlay : OverlayReadState) : Except String ConfigServer :=
  (bootMerge path base overlay).map fun cfg =>
    { base := base
      overlay := overlay
      app :=
        { hookRegistry := cfg.hooks
          globalHooks := cfg.globalHooks
          groupsRegistry := cfg.groups
          baseHookNames := base.hooks.rows.map Prod.fst
          baseGroupNames := base.groups.rows.map Prod.fst
          pools := cfg.pools
          configVersion := 0
          overlayPath := path
          maxAutoProvisionedGroups := cfg.maxAutoProvisionedGroups }
      versions := VersionLog.record [] ⟨0, cfg.hooks, cfg.globalHooks⟩ }

variable (lib : JsonLib) (s : ConfigServer)

/-- What a request commits, if anything. -/
def handle : ConfigOp → Except AdminError (Option Commit)
  | .registerHook ifMatch name cfg unopened => (s.app.registerHook lib ifMatch name cfg unopened).map some
  | .putHook ifMatch name cfg unopened => (s.app.putHook lib ifMatch name cfg unopened).map some
  | .deleteHook ifMatch name => (s.app.deleteHook ifMatch name).map some
  | .patchHookSettings ifMatch name settings nack unopened =>
    (s.app.patchHookSettings lib ifMatch name settings nack unopened).map some
  | .rollback ifMatch version unopened => (s.app.rollbackConfig ifMatch s.versions version unopened).map some
  | .registerGroup ifMatch name cfg => (s.app.registerGroup ifMatch name cfg).map some
  | .putGroup ifMatch name cfg => (s.app.putGroup ifMatch name cfg).map some
  | .patchGroup ifMatch name patch => (s.app.patchGroup ifMatch name patch).map some
  | .deleteGroup ifMatch name bound => (s.app.deleteGroup ifMatch name bound).map some
  | .provisionGroup name parent =>
    (s.app.planMintGroup name parent).map fun plan => plan.map fun installed => ⟨installed, .groups none (some name)⟩
  | .restart => .ok none

def Persist.document (file : OverlayReadState) (app : AppConfig) : Persist → Except String OverlayDoc
  | .hooks deletedAdd deletedRemove =>
    persist app.overlayPath file app.hookRegistry app.globalHooks deletedAdd deletedRemove app.baseHookNames
  | .groups deletedAdd deletedRemove =>
    persistGroups app.overlayPath file app.groupsRegistry deletedAdd deletedRemove app.baseGroupNames

/-- The file is written first; what cannot be persisted is not installed. -/
def commit (c : Commit) : ConfigServer :=
  match Persist.document s.overlay c.installed c.persist with
  | .error _ => s
  | .ok doc =>
    { s with
      overlay := .loaded doc
      app := c.installed
      versions := VersionLog.record s.versions ⟨c.installed.configVersion, c.installed.hookRegistry, c.installed.globalHooks⟩ }

/-- A request that is refused changes nothing. -/
def step (op : ConfigOp) : ConfigServer :=
  match op with
  | .restart =>
    match boot s.app.overlayPath s.base s.overlay with
    | .error _ => s
    | .ok s' => s'
  | op =>
    match s.handle lib op with
    | .ok (some c) => s.commit c
    | _ => s

def after (ops : List ConfigOp) : ConfigServer := Run.exec (step lib) s ops

end ConfigServer

end Busbar
