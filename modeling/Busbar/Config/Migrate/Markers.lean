import Busbar.Config.Migrate.Identity

/-!
# Markers of the old formats

What a start refuses: the keys and shapes of earlier formats, each with the places where it was seen.

* `authMarkers`, `hooksMarkers` and so on: the markers of a section.
* `detectLegacyMarkers`: the markers of a document.
-/

namespace Busbar.Migrate

/-- A marker, and where it was seen. -/
structure Marker where
  places : List (List Yaml)
  text : String

def marker (c : Bool) (places : List (List Yaml)) (text : String) : List Marker := if c then [⟨places, text⟩] else []

/-- A key that is there at all. -/
def keyMarker (m : Mapping) (path : List Yaml) (k text : String) : List Marker :=
  marker (m.get k).isSome [path ++ [str k]] text

/-- Keys that were retired, with their new homes. -/
def retiredConfigKeys153 : List (String × String) :=
  [("observability", "the `export:` NAMED map — a `module: prometheus` / `module: request-log-webhook` / `module: otlp` "
      ++ "instance (all telemetry egress is now the single `export:` surface)"),
    ("admin_insecure", "admin_require_mtls (INVERTED: `admin_insecure: true` ⇒ `admin_require_mtls: false`)"),
    ("upstream_credentials", "pools.upstream_credentials (the all-pools default) + a per-pool "
      ++ "`pools.<p>.upstream_credentials` override"),
    ("methods", "the matching `identity-providers:` definition (browser_login + settings are per-provider)"),
    ("otlp_url", "an `export:` instance with `module: otlp` and `settings.url`"),
    ("otlp_endpoint", "an `export:` instance with `module: otlp` and `settings.url`")]

def retiredObservabilityKeys : List (String × String) :=
  [("request_log_webhook_url", "export.request-log-webhook.settings.url"),
    ("max_inflight_webhook_deliveries", "export.request-log-webhook.settings.max_inflight_deliveries"),
    ("webhook_delivery_timeout_secs", "export.request-log-webhook.settings.delivery_timeout_secs"),
    ("metrics", "export.prometheus.settings (buffer_seconds / key_gauge_limit)")]

def retiredHome (key : String) : String := (retiredConfigKeys153.lookup key).getD "its 1.5.3 replacement"

/-! ## The parts of a document -/

/-- The chain has a static-token module. -/
def hasStaticTokens (auth : Mapping) : Bool :=
  ((auth.get "chain").bind Yaml.asSequence).any fun seq => seq.any isStaticTokens

/-- The list has an entry that is a mapping. -/
def hasInline (auth : Mapping) (plane : String) : Bool :=
  ((auth.get plane).bind Yaml.asSequence).any fun seq => seq.any Yaml.isMapping

def authMarkers (auth : Mapping) : List Marker :=
  keyMarker auth [str "auth"] "mode" "`auth.mode:` (replaced by auth.chain / auth.upstream_credentials)"
  ++ keyMarker auth [str "auth"] "group_map" ("`auth.group_map:` (replaced by auth.role_bindings, NESTED BY MODULE; its "
    ++ "rate/budget caps move to a groups: entry)")
  ++ keyMarker auth [str "auth"] "client_tokens" "`auth.client_tokens:` (static tokens removed; mint signed keys)"
  ++ keyMarker auth [str "auth"] "modules" ("`auth.modules:` (per-module trust caps removed; max_admin_scope moves onto the chain "
    ++ "entry, allowed_groups is gone)")
  ++ keyMarker auth [str "auth"] "group_map" "`auth.group_map:` (replaced by auth.role_bindings, NESTED BY MODULE)"
  ++ marker (hasStaticTokens auth) [[str "auth", str "chain"]] ("`auth.chain: [tokens]` (the static-token module was removed; the "
    ++ "1.5.0 signed-key verifier is `keys`)")

/-- The retirements of the block in the last format. -/
def authLockMarkers (auth : Mapping) : List Marker :=
  keyMarker auth [str "auth"] "upstream_credentials"
    ("`auth.upstream_credentials:` (retired 1.5.3 → " ++ retiredHome "upstream_credentials" ++ ")")
  ++ keyMarker auth [str "auth"] "methods" ("`auth.methods:` (retired 1.5.3 → " ++ retiredHome "methods" ++ ")")
  ++ ["chain", "admin_auth"].flatMap fun plane => marker (hasInline auth plane) [[str "auth", str plane]]
    ("`auth." ++ plane ++ ":` carries INLINE module entries (retired 1.5.3 → define the provider once under "
      ++ "`identity-providers:` and reference it by bare name)")

/-- A block of hooks that are not all definitions; the entries that are none. -/
def hooksMarkers (root : Mapping) : List Marker :=
  match (root.get "hooks").bind Yaml.mapping? with
  | none => []
  | some hooks =>
    marker (!isNewHookDefs hooks)
      (if hooks.isEmpty then [[str "hooks"]]
        else (hooks.filter fun e => !isNewHookDefs [e]).map fun e => [str "hooks", e.1])
      ("top-level `hooks:` REGISTRY block with legacy socket:/webhook: entries (1.x transports removed; a 1.5.3 `hooks:` "
        ++ "DEFINITION entry names a `module:` — a `kind: hook` plugin — and carries `groups:`/`phase:` scope)")

def observabilityMarkers (root : Mapping) : List Marker :=
  match (root.get "observability").bind Yaml.asMapping with
  | none => []
  | some obs => retiredObservabilityKeys.flatMap fun e =>
    if e.1 = "metrics" then []
    else keyMarker obs [str "observability"] e.1 ("`observability." ++ e.1 ++ ":` (retired 1.5.3 → " ++ e.2 ++ ")")

/-- An entry of `export` that is a mapping without a module. -/
def typeKeyed (v : Yaml) : Bool := v.asMapping.any fun m => !m.containsKey "module"

def exportMarkers (root : Mapping) : List Marker :=
  match (root.get "export").bind Yaml.mapping? with
  | none => []
  | some «export» =>
    marker («export».any fun e => typeKeyed e.2)
      ((«export».filter fun e => typeKeyed e.2).map fun e => [str "export", e.1])
      ("top-level `export:` is TYPE-KEYED (retired 1.5.3 → a NAMED map `<name>: \x7b module, settings \x7d`, so the same module "
        ++ "can back several instances)")

def storeMarkers (root : Mapping) : List Marker :=
  match (((root.get "store").bind Yaml.asMapping).bind fun store => store.get "module").bind Yaml.asStr with
  | none => []
  | some module => marker (module ∈ retiredStoreModules) [[str "store", str "module"]]
    ("`store.module: " ++ module ++ "` (RENAMED 1.5.3 → `" ++ storeModuleValkey ++ "`; the first-party store plugin is Valkey — "
      ++ "artifact `" ++ storeModuleValkeyAssetStem ++ "-<ver>-<target>.tar.gz`, manifest name `" ++ storeModuleValkeyName
      ++ "`. The old name/alias resolve against NOTHING, so this would fail at boot with a generic unresolved-plugin error; "
      ++ "run `busbar --migrate-config`)")

/-- A provider with a key of old. -/
def hasKeyEnv (p : Yaml) : Bool := p.asMapping.any fun m => m.containsKey "api_key_env"

def providerMarkers (root : Mapping) : List Marker :=
  (((root.get "providers").bind Yaml.asMapping).getD []).flatMap fun e =>
    marker (hasKeyEnv e.2) [[str "providers", e.1, str "api_key_env"]]
      ("`providers." ++ keyText e.1 ++ ".api_key_env:` (secret fields are now secret references: api_key: \x7b env: VAR \x7d)")

/-- A pool with a member that has a target. -/
def hasTarget (p : Yaml) : Bool :=
  (((p.asMapping.bind fun m => m.get "members").bind Yaml.asSequence).getD []).any fun mem =>
    mem.asMapping.any fun m => m.containsKey "target"

/-- A pool whose exhaustion has an action. -/
def hasAction (p : Yaml) : Bool :=
  ((p.asMapping.bind fun m => m.get "on_exhausted").bind Yaml.asMapping).any fun m => m.containsKey "action"

def poolMarkers (root : Mapping) : List Marker :=
  (((root.get "pools").bind Yaml.asMapping).getD []).flatMap fun e =>
    marker (hasTarget e.2) [[str "pools", e.1, str "members"]]
      ("`pools." ++ keyText e.1 ++ ".members[].target:` (renamed to model)")
    ++ marker (hasAction e.2) [[str "pools", e.1, str "on_exhausted"]]
      ("`pools." ++ keyText e.1 ++ ".on_exhausted.action:` (the action wrapper is gone; use a bare `reject`/`least_bad` or "
        ++ "`\x7b fallback_pool: <pool> \x7d`)")

/-- The markers of a document, in the order of the scan. -/
def detectLegacyMarkers (root : Mapping) : List Marker :=
  let auth := (root.get "auth").bind Yaml.asMapping
  keyMarker root [] "governance" ("`governance:` block (dissolved into store / rate_card / per_request_fee / groups / advanced "
    ++ "/ auth)")
  ++ auth.elim [] authMarkers
  ++ keyMarker root [] "group_map" "top-level `group_map:` (moved under auth as auth.role_bindings, nested by module)"
  ++ keyMarker root [] "admin_auth" "top-level `admin_auth:` (moved under auth as auth.admin_auth)"
  ++ hooksMarkers root
  ++ keyMarker root [] "global_hooks" ("top-level `global_hooks:` (removed 1.5.3 → the reserved `pools.hooks:` all-pools attach "
    ++ "list; run `busbar --migrate-config`)")
  ++ keyMarker root [] "metrics" ("top-level `metrics:` block (retired 1.5.3 → export.prometheus.settings.\x7bbuffer_seconds, "
    ++ "key_gauge_limit\x7d)")
  ++ observabilityMarkers root
  ++ keyMarker root [] "observability" ("top-level `observability:` block (DELETED 1.5.3 → " ++ retiredHome "otlp_url"
    ++ "); all telemetry egress is now the single `export:` surface")
  ++ keyMarker root [] "admin_insecure" ("top-level `admin_insecure:` (retired 1.5.3 → " ++ retiredHome "admin_insecure" ++ ")")
  ++ auth.elim [] authLockMarkers
  ++ exportMarkers root
  ++ storeMarkers root
  ++ providerMarkers root
  ++ poolMarkers root

end Busbar.Migrate
