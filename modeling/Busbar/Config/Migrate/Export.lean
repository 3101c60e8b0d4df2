import Busbar.Config.Migrate.Hooks

/-!
# Observability and export

The keys of the observability block move to the advanced settings or become exporters, and the block goes. The exporters
become named instances with the streams of their module.

* `migrateObservability`, `migrateResponseHeaders`, `migrateObservabilityExport`, `migrateObservabilityBlock`: the block.
* `migrateExportNamedMap`, `migrateExportProjection`: the exporters.
-/

namespace Busbar.Migrate

open Logged

def migrateObservability (root : Mapping) : Logged Mapping :=
  atMapping "observability" (rename "otlp_endpoint" "otlp_url" "observability.otlp_endpoint -> otlp_url") root

/-- The header flag crosses over to the advanced settings. -/
def migrateResponseHeaders (lib : YamlLib) (root : Mapping) : Logged Mapping :=
  match ((root.get "observability").bind Yaml.mapping?).bind fun obs => obs.get "emit_server_timing" with
  | none => pure root
  | some timing => do
    let move (advanced root : Mapping) : Logged Mapping := do
      let root ← atMapping "observability" (fun obs => pure (obs.swapRemove "emit_server_timing")) root
      let (headers, advanced) := take advanced "response_headers"
      let headers := asMap (headers.getD (.mapping []))
      change "observability.emit_server_timing -> advanced.response_headers.server_timing"
      pure (Mapping.insert "advanced" (.mapping (Mapping.insert "response_headers"
        (.mapping (Mapping.insert "server_timing" timing headers)) advanced)) root)
    match ← takeMapping lib.oneLine root "advanced" [] with
    | .got advanced root => move advanced root
    | .absent => move [] root
    | .malformed =>
      todoKept [str "observability", str "emit_server_timing"] [[str "observability", str "emit_server_timing"], [str "advanced"]]
        (": could not be folded into `advanced.response_headers.server_timing` (see the `advanced:` todo above); BOTH keys "
        ++ "were left EXACTLY as written. Fix `advanced:` and re-run `--migrate-config`.")
      pure root

/-- `export` as a mapping: what is none is replaced by an empty one. -/
def exportMap (root : Mapping) : Mapping :=
  let root := orEmpty "export" root
  Mapping.modify "export" (fun v => match v with
    | .mapping m => .mapping m
    | _ => .mapping []) root

def insertExport (name : String) (v : Yaml) (root : Mapping) : Mapping :=
  Mapping.modify "export" (fun e => .mapping (Mapping.insert name v (asMap e))) (exportMap root)

/-- The settings of the webhook, in the order they are taken. -/
def webhookKeys : List (String × String) :=
  [("request_log_webhook_url", "url"), ("max_inflight_webhook_deliveries", "max_inflight_deliveries"),
    ("webhook_delivery_timeout_secs", "delivery_timeout_secs")]

def takeKeys : List (String × String) → Mapping → Mapping × Mapping
  | [], m => ([], m)
  | (old, new) :: keys, m =>
    let (v, m) := take m old
    let (taken, m) := takeKeys keys m
    ((v.toList.map fun v => (str new, v)) ++ taken, m)

/-- The webhook: its settings are taken whether or not it has a URL. -/
def migrateWebhook (root : Mapping) : Logged Mapping :=
  match (root.get "observability").bind Yaml.mapping? with
  | none => pure root
  | some obs =>
    let (settings, obs) := takeKeys webhookKeys obs
    let root := if obs.isEmpty then root.swapRemove "observability" else Mapping.insert "observability" (.mapping obs) root
    if settings.containsKey "url" then do
      change ("observability.request_log_webhook_url (+ webhook limits) -> export.request-log-webhook.settings (built-in "
        ++ "exporter)")
      pure (insertExport "request-log-webhook" (.mapping [(str "settings", .mapping settings)]) root)
    else pure root

def migrateMetrics (lib : YamlLib) (root : Mapping) : Logged Mapping :=
  match take root "metrics" with
  | (none, root) => pure root
  | (some (.mapping metrics), root) => do
    let (settings, rest) := takeKeys [("buffer_seconds", "buffer_seconds"), ("key_gauge_limit", "key_gauge_limit")] metrics
    change "metrics: block -> export.prometheus.settings (built-in exporter)"
    pure (insertExport "prometheus" (.mapping [(str "settings", .mapping (settings ++ rest))]) root)
  | (some other, root) => do
    change ("metrics: block removed (RETIRED in 1.5.3; it was not a mapping — the value `" ++ lib.oneLine other
      ++ "` carried no settings foldable into export.prometheus)")
    pure root

def migrateObservabilityExport (lib : YamlLib) (root : Mapping) : Logged Mapping := do
  let root ← migrateWebhook root
  migrateMetrics lib root

/-! ## The named map -/

/-- A retired type key, the name of its instance, and the module. -/
def exportTypeKeyToInstanceName : List (String × String × String) :=
  [("prometheus", "metrics", "prometheus"), ("request-log-webhook", "req-log", "request-log-webhook"),
    ("request-log-file", "req-log-file", "request-log-file"), ("generic-webhook", "req-log-audit", "request-log-webhook")]

/-- The type key of an entry that is no instance yet. -/
def retiredExport (e : Yaml × Yaml) : Option (String × String × String) :=
  if e.2.asMapping.any fun m => m.containsKey "module" then none
  else exportTypeKeyToInstanceName.find? fun t => t.1 = e.1.asStr.getD ""

/-- A retired entry as an instance under a free name. -/
def renameExport (t : String × String × String) (body : Yaml) (kept : Mapping) : Logged Mapping := do
  let name := uniqName kept t.2.1
  let settings := (body.asMapping.bind fun m => m.get "settings")
  change ("export." ++ t.1 ++ " (type-keyed) -> export." ++ name ++ ": \x7b module: " ++ t.2.2 ++ " \x7d (1.5.3 named export map "
    ++ "— the same module can now back several named instances)")
  pure (Mapping.insert name (.mapping ([(str "module", str t.2.2)] ++ settings.toList.map fun s => (str "settings", s))) kept)

def renameExports : Mapping → Mapping → Logged Mapping
  | [], kept => pure kept
  | e :: entries, kept =>
    match retiredExport e with
    | none => renameExports entries kept
    | some t => do
      let kept ← renameExport t e.2 kept
      renameExports entries kept

def migrateExportNamedMap (root : Mapping) : Logged Mapping :=
  match (root.get "export").bind Yaml.mapping? with
  | none => pure root
  | some entries =>
    if entries.all fun e => (retiredExport e).isNone then pure root
    else do
      let kept ← renameExports entries (entries.filter fun e => (retiredExport e).isNone)
      pure (Mapping.insert "export" (.mapping kept) root)

/-! ## The block -/

/-- The block goes; an address of traces becomes an instance. -/
def migrateObservabilityBlock (lib : YamlLib) (root : Mapping) : Logged Mapping :=
  match take root "observability" with
  | (none, root) => pure root
  | (some (.mapping obs), root) =>
    let (url, obs) := take obs "otlp_url"
    let url := match url with
      | some url => some url
      | none => (take obs "otlp_endpoint").1
    match url.filter (fun v => !v.isNull) with
    | some url => do
      let name := uniqName (asMap (((exportMap root).get "export").getD .null)) "traces"
      change ("observability.otlp_url -> export." ++ name ++ ": \x7b module: otlp \x7d (the `observability:` block is DELETED in "
        ++ "1.5.3; `export:` is the single telemetry-egress surface)")
      pure (insertExport name (.mapping [(str "module", str "otlp"), (str "settings", .mapping [(str "url", url)])]) root)
    | none => do
      change "observability: block removed (DELETED in 1.5.3; it carried no otlp_url to fold)"
      pure root
  | (some other, root) => do
    change ("observability: block removed (DELETED in 1.5.3; it was not a mapping — the value `" ++ lib.oneLine other
      ++ "` carried nothing foldable into an `export:` instance)")
    pure root

/-! ## Projections -/

/-- The streams a module carries. -/
def moduleStreams : List (String × List String) :=
  [("prometheus", ["metrics"]), ("request-log-webhook", ["logs"]), ("request-log-file", ["logs"]), ("otlp", ["traces"])]

/-- An instance gets the streams of its module, unless it has some. -/
def migrateOneExportProjection (name : String) (inst : Mapping) : Logged Mapping := do
  let path := [str "export", str name]
  match inst.get "streams" with
  | some existing =>
    if existing.asSequence.any fun s => s.any fun v => v.asStr = some "audit" then
      todoKept (path ++ [str "streams"]) [path ++ [str "streams"]] (": names `audit`, which is NOT a stream in 1.5.3 — it was a use case,"
        ++ "                  not a data type, and an auditor is a SINK whose projection includes the right                  "
        ++ "streams (e.g. `streams: [logs, identity, decisions, events, costs]`). WHICH                  streams replace it "
        ++ "is a disclosure decision, so it was left EXACTLY as written                  rather than rewritten for you. Edit "
        ++ "it by hand; the config will not boot until you                  do.")
    pure inst
  | none =>
    match (inst.get "module").bind Yaml.asStr with
    | none => do
      todo path (": has no `module:`, so its `streams:` projection could not be inferred. Add              `module:` and re-run "
        ++ "`--migrate-config`.")
      pure inst
    | some module =>
      let module := trim module
      match moduleStreams.lookup module with
      | none => do
        todo path (": `module: " ++ module ++ "` is not a built-in export module in this build, so its              `streams:` "
          ++ "projection could not be inferred and was NOT guessed. Add `streams:` by              hand naming what this sink "
          ++ "subscribes to.")
        pure inst
      | some streams => do
        change (pathText path ++ ": added `streams: [" ++ ", ".intercalate streams ++ "]` (1.5.3 projection grammar — each export "
          ++ "instance is a          PROJECTION of the engine's data, and the streams a sink subscribes to are now declared"
          ++ "          rather than implied by `module:`. This is what the deployment already meant; narrow it          further "
          ++ "with `fields:`).")
        pure (Mapping.insert "streams" (.sequence (streams.map str)) inst)

/-- The entries of the map, each taken by the name of its key; a key that is no string has none. -/
def projectExports (lib : YamlLib) : List Yaml → Mapping → Logged Mapping
  | [], _ => pure []
  | key :: keys, «export» => do
    let name := key.asStr.getD ""
    match ← takeMapping lib.oneLine «export» name [str "export"] with
    | .malformed =>
      let out ← projectExports lib keys «export»
      -- the value of the key itself, not that of its name
      match «export».find? fun e => key.eq e.1 with
      | some e => pure ((key, e.2) :: out)
      | none => pure out
    | .absent => projectExports lib keys «export»
    | .got inst rest =>
      let inst ← migrateOneExportProjection name inst
      let out ← projectExports lib keys rest
      pure ((key, .mapping inst) :: out)

def migrateExportProjection (lib : YamlLib) (root : Mapping) : Logged Mapping :=
  match (root.get "export").bind Yaml.mapping? with
  | none => pure root
  | some entries => do
    let out ← projectExports lib (entries.map Prod.fst) entries
    pure (Mapping.insert "export" (.mapping out) root)

end Busbar.Migrate
