import Busbar.Config.Migrate.Auth

/-!
# Hooks, pools and providers

Hooks that are registered, attached to all pools or written inline become named definitions and references to them. The
keys of pools, their members, breakers and failover are renamed.

* `hookEntryToDef`, `isNewHookDefs`: a definition from an old entry, and the test for definitions.
* `migrateHooksBlock`, `migratePools`, `migrateHookStages`: the passes.
-/

namespace Busbar.Migrate

open Logged

/-- `api_key_env: VAR` becomes a reference. -/
def migrateProviders (root : Mapping) : Logged Mapping :=
  atMapping "providers" (mapValues fun name => onMapping fun p =>
    match take p "api_key_env" with
    | (none, p) => pure p
    | (some var, p) => do
      change ("providers." ++ keyText name ++ ".api_key_env -> api_key: \x7b env: ... \x7d")
      pure (Mapping.insert "api_key" (.mapping [(str "env", var)]) p)) root

/-! ## Hook definitions -/

def renamedHookStages : List (String × String) :=
  [("route", "candidate"), ("attempt", "routing"), ("completion", "response")]

def atToPhase (v : Yaml) : Option Yaml :=
  v.asStr.map fun s => .sequence [str ((renamedHookStages.lookup s).getD s)]

/-- The transport of an old entry: the module, and a setting it brings. -/
def hookTransport (m : Mapping) : Option (String × Option (String × String)) :=
  match (m.get "webhook").bind Yaml.asStr with
  | some url => some ("webhook", some ("url", url))
  | none =>
    match (m.get "socket").bind Yaml.asStr with
    | some path => some ("socket", some ("path", path))
    | none =>
      match (m.get "module").bind Yaml.asStr with
      | some module => some (module, none)
      | none => ((m.get "plugin").bind Yaml.asStr).map fun plugin => (plugin, none)

/-- The keys of a definition that stay as they are. -/
def hookKeys : List String := ["kind", "timeout_ms", "on_error", "on_empty", "prompt", "user", "priority", "groups"]

/-- The stages of an old entry. A tap without one fired on requests only. -/
def hookPhase (m : Mapping) : Option Yaml :=
  match (m.get "at").bind atToPhase with
  | some phase => some phase
  | none =>
    match m.get "phase" with
    | some phase => some phase
    | none => if (m.get "kind").bind Yaml.asStr = some "tap" then some (.sequence [str "request"]) else none

def hookEntryToDef (name : String) (entry : Yaml) : Logged Yaml := do
  let m := entry.asMapping.getD []
  let settings := asMap ((m.get "settings").getD .null)
  let (module, settings) ← match hookTransport m with
    | some (module, some (k, v)) => pure (module, Mapping.insert k (str v) settings)
    | some (module, none) => pure (module, settings)
    | none => do
      record (.todo ⟨[str "hooks", str name], [], "hook '" ++ name ++ "': no module/socket/webhook/plugin transport found; set "
        ++ "`module:` to a `kind: hook` plugin"⟩)
      pure ("webhook", settings)
  recordIf ((m.get "default").bind Yaml.asBool = some true)
    (.todo ⟨[str "hooks", str name], [], "hook '" ++ name ++ "': the retired `default: true` flag is gone; name the base "
      ++ "ordering strategy in each pool's `hooks:` list explicitly"⟩)
  recordIf (m.containsKey "signals")
    (.todo ⟨[str "hooks", str name], [], "hook '" ++ name ++ "': the `signals:` declaration did not carry over automatically; "
      ++ "re-add it under the named `hooks:` entry if the hook still needs it"⟩)
  pure (.mapping ([(str "module", str module)]
    ++ (if settings.isEmpty then [] else [(str "settings", .mapping settings)])
    ++ (hookKeys.filterMap fun k => (m.get k).map fun v => (str k, v))
    ++ ((hookPhase m).toList.map fun phase => (str "phase", phase))))

/-- Every entry names a module and no transport of old. -/
def isNewHookDefs (hooks : Mapping) : Bool :=
  !hooks.isEmpty && hooks.all fun e =>
    e.2.asMapping.any fun em =>
      ((em.get "module").bind Yaml.asStr).any (fun s => trim s ≠ "") && !em.containsKey "socket" && !em.containsKey "webhook"

/-- A name that is free: the base, or the base with the first number from two on. -/
def uniqName (defs : Mapping) (base : String) : String :=
  if defs.containsKey base then numbered defs base 2 (defs.length + 1) else base
where
  numbered (defs : Mapping) (base : String) (n : Nat) : Nat → String
    | 0 => base
    | fuel + 1 =>
      let candidate := base ++ "-" ++ toString n
      if defs.containsKey candidate then numbered defs base (n + 1) fuel else candidate

/-! ## The hooks pass -/

/-- The entries of a registry as definitions, and the names of the global ones. -/
def registryDefs : Mapping → Logged (Mapping × List Yaml)
  | [] => pure ([], [])
  | (k, entry) :: src =>
    match k.asStr with
    | none => registryDefs src
    | some name => do
      let def_ ← hookEntryToDef name entry
      let (defs, all) ← registryDefs src
      let isGlobal := (entry.asMapping.bind fun m => m.get "global").bind Yaml.asBool = some true
      pure ((k, def_) :: defs, if isGlobal then str name :: all else all)

/-- An inline instance becomes a definition under a free name. -/
def liftHook (m : Mapping) (defs : Mapping) (note : String → Todo) : Logged (String × Mapping) := do
  let base := ((m.get "module").bind Yaml.asStr).getD "hook"
  let nm := uniqName defs base
  let def_ ← hookEntryToDef nm (.mapping m)
  record (.todo (note nm))
  pure (nm, Mapping.insert nm def_ defs)

/-- The hooks of all pools, one after the other. -/
def migrateGlobalHooks : List Yaml → Mapping → List Yaml → Logged (Mapping × List Yaml)
  | [], defs, all => pure (defs, all)
  | .string name :: src, defs, all => do
    change ("global_hooks '" ++ name ++ "' -> pools.hooks all-pools attach (1.5.3)")
    migrateGlobalHooks src defs (if all.any (fun v => v.asStr = some name) then all else all ++ [str name])
  | .mapping m :: src, defs, all => do
    let (nm, defs) ← liftHook m defs fun nm => ⟨[str "global_hooks"], [], "global_hooks inline instance lifted to a named hook '"
      ++ nm ++ "' + a pools.hooks all-pools reference; review the auto-generated name"⟩
    migrateGlobalHooks src defs (all ++ [str nm])
  | other :: src, defs, all => migrateGlobalHooks src defs (all ++ [other])

/-- The hooks of one pool; an inline instance leaves its name. -/
def migratePoolHooks (pool : Yaml) : List Yaml → Mapping → Logged (List Yaml × Mapping)
  | [], defs => pure ([], defs)
  | .mapping m :: src, defs => do
    let (nm, defs) ← liftHook m defs fun nm => ⟨[str "pools", pool, str "hooks"], [], "pools." ++ keyText pool
      ++ ".hooks inline instance lifted to a named hook '" ++ nm ++ "' + a bare-name reference"⟩
    let (list, defs) ← migratePoolHooks pool src defs
    pure (str nm :: list, defs)
  | other :: src, defs => do
    let (list, defs) ← migratePoolHooks pool src defs
    pure (other :: list, defs)

def migrateInlineHooks (lib : YamlLib) (pool p : Yaml) (defs : Mapping) : Logged (Yaml × Mapping) :=
  if pool.asStr = some "hooks" then pure (p, defs)
  else
    match p with
    | .mapping m => do
      match ← takeSequence lib.oneLine m "hooks" [str "pools", pool] with
      | .got existing rest =>
        let (list, defs) ← migratePoolHooks pool existing defs
        pure (.mapping (if list.isEmpty then rest else Mapping.insert "hooks" (.sequence list) rest), defs)
      | .absent | .malformed => pure (p, defs)
    | p => pure (p, defs)

/-- The pools in their order; the definitions lifted so far are carried along. -/
def migrateInlinePools (lib : YamlLib) : Mapping → Mapping → Logged (Mapping × Mapping)
  | [], defs => pure ([], defs)
  | (pool, p) :: pools, defs => do
    let (p, defs) ← migrateInlineHooks lib pool p defs
    let (pools, defs) ← migrateInlinePools lib pools defs
    pure ((pool, p) :: pools, defs)

/-- The definitions go under `hooks`, unless it stands there in another shape. -/
def writeDefs (defs root : Mapping) : Logged Mapping :=
  if defs.isEmpty then pure root
  else if root.containsKey "hooks" then do
    todoKept [str "hooks"] [[str "hooks"]] (": " ++ toString defs.length ++ " hook definition(s) lifted from `global_hooks:`/inline pool "
      ++ "hooks could NOT be written, because the top-level `hooks:` key is present in a shape this migrator cannot merge "
      ++ "into and was left as you wrote it. Fix `hooks:` (a mapping of NAME -> \x7b module: … \x7d) and re-run "
      ++ "`--migrate-config`.")
    pure root
  else pure (Mapping.insert "hooks" (.mapping defs) root)

/-- Names that are not in the list yet; what is no name is added again. -/
def mergeNames : List Yaml → List Yaml → List Yaml
  | [], merged => merged
  | n :: names, merged =>
    mergeNames names (if n.asStr.isSome && merged.any (fun v => v.asStr = n.asStr) then merged else merged ++ [n])

/-- The attachments to all pools go under `pools.hooks`. -/
def attachAll (lib : YamlLib) (all : List Yaml) (root : Mapping) : Logged Mapping :=
  if all.isEmpty then pure root
  else atMapping "pools" (fun pm => do
    match ← takeSequence lib.oneLine pm "hooks" [str "pools"] with
    | .got s rest => pure (Mapping.insert "hooks" (.sequence (mergeNames all s)) rest)
    | .absent => pure (Mapping.insert "hooks" (.sequence (mergeNames all [])) pm)
    | .malformed =>
      todoKept [str "pools", str "hooks"] [[str "pools", str "hooks"]] (": the all-pools hook attaches derived from this config could "
        ++ "NOT be merged in, because `pools.hooks:` is present in a shape this migrator cannot merge into and was left as "
        ++ "you wrote it. Fix it (a list of hook names) and re-run `--migrate-config`.")
      pure pm) (orEmpty "pools" root)

/-- The definitions of the `hooks` block, and what it attaches to all pools. -/
def migrateRegistry (lib : YamlLib) (root : Mapping) : Logged (Mapping × Mapping × List Yaml) := do
  match ← takeMapping lib.oneLine root "hooks" [] with
  | .got src root =>
    if isNewHookDefs src then pure (root, src, [])
    else do
      let (defs, all) ← registryDefs src
      change "top-level 1.x hooks: registry -> named hooks: definition map (1.5.3)"
      pure (root, defs, all)
  | .absent | .malformed => pure (root, [], [])

def takeGlobalHooks (lib : YamlLib) (root : Mapping) : Logged (Mapping × List Yaml) := do
  match ← takeSequence lib.oneLine root "global_hooks" [] with
  | .got s rest => pure (rest, s)
  | .absent | .malformed => pure (root, [])

/-- The inline instances of all pools. -/
def liftInlineHooks (lib : YamlLib) (root defs : Mapping) : Logged (Mapping × Mapping) :=
  match (root.get "pools").bind Yaml.mapping? with
  | some pools => do
    let (pools, defs) ← migrateInlinePools lib pools defs
    pure (Mapping.insert "pools" (.mapping pools) root, defs)
  | none => pure (root, defs)

def migrateHooksBlock (lib : YamlLib) (root : Mapping) : Logged Mapping := do
  let (root, defs, all) ← migrateRegistry lib root
  let (root, globals) ← takeGlobalHooks lib root
  let (defs, all) ← migrateGlobalHooks globals defs all
  let (root, defs) ← liftInlineHooks lib root defs
  let root ← writeDefs defs root
  attachAll lib all root

/-! ## Pools -/

/-- A key under a new name. -/
def rename (old new text : String) (m : Mapping) : Logged Mapping :=
  match take m old with
  | (none, m) => pure m
  | (some v, m) => do
    change text
    pure (Mapping.insert new v m)

/-- The policy goes in front of the hooks of the pool. -/
def migratePolicy (lib : YamlLib) (pname : Yaml) (p : Mapping) : Logged Mapping :=
  match (p.get "policy").bind Yaml.asStr with
  | none => pure p
  | some policy => do
    let loc := "pools." ++ keyText pname
    match ← takeSequence lib.oneLine p "hooks" [str "pools", pname] with
    | .got list rest =>
      change (loc ++ ".policy -> hooks: [" ++ policy ++ ", ...]")
      pure (Mapping.insert "hooks" (.sequence (str policy :: list)) (rest.swapRemove "policy"))
    | .absent =>
      change (loc ++ ".policy -> hooks: [" ++ policy ++ "]")
      pure (Mapping.insert "hooks" (.sequence [str policy]) (p.swapRemove "policy"))
    | .malformed =>
      todoKept [str "pools", pname, str "policy"] [[str "pools", pname, str "policy"], [str "pools", pname, str "hooks"]]
        (": could not be folded into `hooks:` (see the `hooks:` todo above); BOTH keys were left EXACTLY as written. The "
        ++ "retired `policy:` key is rejected by 1.5.3, so fix `hooks:` and re-run `--migrate-config`.")
      pure p

def migrateMember (pname : Yaml) (mem : Mapping) : Logged Mapping := do
  let loc := "pools." ++ keyText pname
  let mem ← rename "target" "model" (loc ++ ".members[].target -> model") mem
  match take mem "cost_per_mtok" with
  | (none, mem) => pure mem
  | (some _, mem) => do
    record (.todo ⟨[str "pools", pname, str "members"], [], loc ++ ".members[].cost_per_mtok removed: rate_card is the ONLY cost "
      ++ "source in 1.5.0; price the member's model there"⟩)
    change (loc ++ ".members[].cost_per_mtok removed (rate_card is the cost source)")
    pure mem

/-- The value of an old action. -/
def exhaustedAction (pname : Yaml) (action : String) : Logged Yaml :=
  let say (text : String) : Logged Yaml := do
    todo [str "pools", pname, str "on_exhausted"] text
    pure (str "reject")
  match stripPrefix "fallback_pool:" action with
  | some pool =>
    let pool := trim pool
    if pool = "" then
      say (": the 1.4.x `fallback_pool:` action named NO pool; set `on_exhausted: \x7b fallback_pool: <pool> \x7d` to a real "
        ++ "pool (left as `reject`)")
    else pure (.mapping [(str "fallback_pool", str pool)])
  | none =>
    if action ∈ ["reject", "503", "status_503", "status503"] then pure (str "reject")
    else if action ∈ ["least_bad", "least-bad", "leastbad"] then pure (str "least_bad")
    else if action ∈ ["fallback_pool", "fallback", "failover"] then
      say (": the 1.4.x `" ++ action ++ "` action needs a target pool; set `on_exhausted: \x7b fallback_pool: <pool> \x7d` (left "
        ++ "as `reject`)")
    else
      say (": unrecognized 1.4.x action `" ++ action ++ "`; the 1.5.0 options are `reject` | `least_bad` | \x7b fallback_pool: "
        ++ "<pool> \x7d (left as `reject`)")

/-- An action in a mapping becomes a keyword or a fallback pool; an action that is no string stays. -/
def migrateOnExhausted (pname : Yaml) (p : Mapping) : Logged Mapping :=
  match (((p.get "on_exhausted").bind Yaml.asMapping).bind (fun m => m.get "action")).bind Yaml.asStr with
  | none => pure p
  | some action => do
    let action := trim action
    let v ← exhaustedAction pname action
    change ("pools." ++ keyText pname ++ ".on_exhausted: \x7b action: " ++ action ++ " \x7d -> 1.5.0 bare keyword / \x7b "
      ++ "fallback_pool \x7d")
    pure (Mapping.insert "on_exhausted" v p)

def migratePool (lib : YamlLib) (pname : Yaml) (p : Mapping) : Logged Mapping := do
  let loc := "pools." ++ keyText pname
  let p ← migratePolicy lib pname p
  let p ← atSequence "members" (mapItems (onMapping (migrateMember pname))) p
  let p ← atMapping "breaker" (atMapping "trip" fun trip => do
    let trip ← rename "window_s" "window_secs" (loc ++ ".breaker.trip.window_s -> window_secs") trip
    rename "n" "consecutive_n" (loc ++ ".breaker.trip.n -> consecutive_n") trip) p
  let p ← atMapping "failover" (fun failover => do
    let failover ← rename "deadline_secs" "timeout_secs" (loc ++ ".failover.deadline_secs -> timeout_secs") failover
    rename "cap" "max_hops" (loc ++ ".failover.cap -> max_hops") failover) p
  migrateOnExhausted pname p

def migratePools (lib : YamlLib) (root : Mapping) : Logged Mapping :=
  atMapping "pools" (mapValues fun pname => onMapping (migratePool lib pname)) root

/-! ## Stages -/

/-- The old stage of an inline reference. -/
def rewriteStage (location : String) : Yaml → Logged Yaml :=
  onMapping fun m =>
    match ((m.get "at").bind Yaml.asStr).bind fun old => (renamedHookStages.lookup old).map fun new => (old, new) with
    | none => pure m
    | some (old, new) => do
      change (location ++ ": hook stage `at: " ++ old ++ "` -> `at: " ++ new ++ "`")
      pure (Mapping.insert "at" (str new) m)

def migrateHookStages (root : Mapping) : Logged Mapping := do
  let root ← atSequence "global_hooks" (mapItems (rewriteStage "global_hooks")) root
  atMapping "pools" (mapValues fun pname => onMapping
    (atSequence "hooks" (mapItems (rewriteStage ("pools." ++ keyText pname ++ ".hooks"))))) root

end Busbar.Migrate
