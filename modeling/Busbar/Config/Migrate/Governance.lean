import Busbar.Config.Migrate.Ledger

/-!
# The governance block

The block of the 1.4 format is taken apart: the database becomes the store, prices become the rate card, budget groups
become groups with limits, and the administration token becomes an entry of the administration chain.

* `windowNoun`, `rescaleAmount`: the window a period is carried to, and the amount in it.
* `migrateGovernance`: the pass.
-/

namespace Busbar.Migrate

open Logged

/-- The YAML printer, cut to a line, and the arithmetic of prices. -/
structure YamlLib where
  oneLine : Yaml → String
  /-- Ten times the number of cents; zero for a value that is no number. -/
  perTier : Option YamlNumber → YamlNumber

def defaultGovernanceDb14 : String := "busbar-governance.db"

def take (m : Mapping) (k : String) : Option Yaml × Mapping := (m.get k, m.swapRemove k)

def asMap : Yaml → Mapping
  | .mapping m => m
  | _ => []

/-- The longest window that rolls. -/
def approxWindow : String := "month"

/-- What the operator is told of a period that has no window. -/
def approximation (period : String) (divisor : Nat) : String :=
  let shorter := period ∈ ["week", "weekly", "per_week"]
  let longer := period ∈ ["year", "yearly", "annual", "annually", "per_year"]
  let why :=
    if shorter ∨ longer then "1.5.3 has no `" ++ period ++ "` window"
    else "`" ++ period ++ "` is not a period this migrator recognizes"
  let effect :=
    if divisor > 1 then
      "The AMOUNT was DIVIDED BY " ++ toString divisor ++ " (rounded DOWN, floor 1) so the cap still spends at the same rate "
        ++ "per unit time: a `" ++ period ++ "` amount left unchanged on a " ++ approxWindow ++ " window would be "
        ++ toString divisor ++ "x the budget you wrote, in force from the first boot. Check the rescaled number"
    else
      "The AMOUNT was carried over UNCHANGED, so the cap now spends over a " ++ approxWindow ++ " instead of a `" ++ period
        ++ "` (tighter, never looser). Re-scale it by hand"
  ": budget_period `" ++ period ++ "` -> per: " ++ approxWindow ++ " (" ++ why ++ "). " ++ effect ++ ", or split the group's "
    ++ "limits across the windows 1.5.3 does have (minute | hour | day | month | total)."

/-- The window of a period, and by how much an amount is divided. -/
def windowNoun (period : String) (ctx : List Yaml) : Logged (String × Nat) :=
  if period ∈ ["minute", "minutely", "per_minute"] then pure ("minute", 1)
  else if period ∈ ["hour", "hourly", "per_hour"] then pure ("hour", 1)
  else if period ∈ ["day", "daily", "per_day"] then pure ("day", 1)
  else if period ∈ ["month", "monthly", "per_month"] then pure ("month", 1)
  else if period ∈ ["total", "lifetime", "all_time", "alltime", "never"] then pure ("total", 1)
  else do
    let divisor := if period ∈ ["year", "yearly", "annual", "annually", "per_year"] then 12 else 1
    todo ctx (approximation period divisor)
    pure (approxWindow, divisor)

/-- Rounded down, but not to zero; an amount that is no unsigned integer stays. -/
def rescaleAmount (amount : Yaml) (divisor : Nat) : Yaml :=
  if divisor ≤ 1 then amount
  else
    match amount.asU64 with
    | some n => .number (.posInt (max (n / divisor) 1))
    | none => amount

/-- The period of a cap. -/
def periodOf (v : Option Yaml) : String := (v.bind Yaml.asStr).getD "total"

def str (s : String) : Yaml := .string s

/-- The document, and what is left of the block. -/
structure Block where
  root : Mapping
  gov : Mapping

/-- The store of a governance database. -/
def storeOf (module : String) (dbPath : Option String) (busy : Option Yaml) : Mapping :=
  let settings : Mapping :=
    match module, dbPath with
    | "memory", _ => []
    | "sqlite", some p => [(str "db_path", str p)]
    | "sqlite", none => [(str "db_path", str defaultGovernanceDb14)]
    | _, some p => [(str "url", str p)]
    | _, none => []
  let settings := match busy with
    | some busy => Mapping.insert "busy_timeout_ms" busy settings
    | none => settings
  [(str "module", str module)] ++ (if settings.isEmpty then [] else [(str "settings", .mapping settings)])

def migrateStore (b : Block) : Logged Block := do
  let (stray, gov) := take b.gov "store"
  let (dbPath, gov) := take gov "db_path"
  let module := (stray.bind Yaml.asStr).getD "sqlite"
  -- the setting of the busy timeout is taken whatever the module
  let (busy, gov) := take gov "sqlite_busy_timeout_ms"
  change ("governance.db_path -> store: \x7b module: sqlite, settings: \x7b db_path \x7d \x7d (1.4.x's only durable "
    ++ "backend was SQLite)")
  pure ⟨Mapping.insert "store" (.mapping (storeOf module (dbPath.bind Yaml.asStr) busy)) b.root, gov⟩

/-- A key of the block that becomes a key of the document. -/
def liftKey (k home text : String) (b : Block) : Logged Block :=
  match take b.gov k with
  | (some v, gov) => do
    change text
    pure ⟨Mapping.insert home v b.root, gov⟩
  | (none, gov) => pure ⟨b.root, gov⟩

def tiers : List String := ["input_utok", "output_utok", "cache_read_utok", "cache_write_utok"]

/-- An entry of the rate card for every model that has none. -/
def synthesize (perTier : YamlNumber) : List String → Mapping → Mapping
  | [], card => card
  | m :: models, card =>
    synthesize perTier models
      (if card.containsKey m then card
        else Mapping.insert m (.mapping (tiers.map fun tier => (str tier, .number perTier))) card)

/-- One price for all models becomes an entry for each model. -/
def migratePrice (lib : YamlLib) (b : Block) : Logged Block :=
  match take b.gov "price_per_1k_tokens_cents" with
  | (none, gov) => pure ⟨b.root, gov⟩
  | (some p1k, gov) => do
    let perTier := lib.perTier p1k.asNumber
    let (old, rest) := take b.root "rate_card"
    match old with
    | some (.mapping _) | none =>
      let card := (old.bind Yaml.mapping?).getD []
      let models := (((rest.get "models").bind Yaml.asMapping).getD []).filterMap fun e => e.1.asStr
      change ("governance.price_per_1k_tokens_cents -> a rate_card entry per model (N cents/1k = 10N micro-units/token "
        ++ "on every tier)")
      todo [str "rate_card"] (": entries were synthesized from the flat price_per_1k_tokens_cents; replace the uniform "
        ++ "per-tier rates with each model's real prices")
      pure ⟨Mapping.insert "rate_card" (.mapping (synthesize perTier models card)) rest, gov⟩
    | some other =>
      todoKept [str "rate_card"] [[str "rate_card"]] (": is not a mapping (`" ++ lib.oneLine other ++ "`) — it was left "
        ++ "EXACTLY as written, so `governance.price_per_1k_tokens_cents` was NOT folded into it. Fix the block by hand "
        ++ "(`rate_card: \x7b <model>: \x7b input_utok: … \x7d \x7d`) and price each model, or delete it and re-run the "
        ++ "migration.")
      pure ⟨Mapping.insert "rate_card" other rest, gov⟩

/-- A budget group as a group with one limit. -/
def budgetGroup (name g : Yaml) : Logged Yaml := do
  let g := asMap g
  let (parent, g) := take g "parent"
  let (amount, g) := take g "max_budget_cents"
  let (period, _) := take g "budget_period"
  let (window, divisor) ← windowNoun (periodOf period) [str "groups", name]
  let limit : Mapping := [(str "budget", rescaleAmount (amount.getD (.number (.posInt 0))) divisor), (str "per", str window)]
  pure (.mapping ((parent.toList.map fun p => (str "parent", p)) ++ [(str "limits", .sequence [.mapping limit])]))

def migrateBudgetGroups (lib : YamlLib) (b : Block) : Logged Block := do
  match ← takeMapping lib.oneLine b.gov "budget_groups" [str "governance"] with
  | .got gm gov =>
    let out ← mapValues budgetGroup gm
    change "governance.budget_groups -> top-level groups (budget caps became generic limits)"
    pure ⟨Mapping.insert "groups" (.mapping out) b.root, gov⟩
  | .absent | .malformed => pure b

def migrateAdvanced (b : Block) : Logged Block :=
  let (sweep, gov) := take b.gov "rate_sweep_interval"
  let (flush, gov) := take gov "usage_flush_interval_ms"
  let advanced : Mapping := (sweep.toList.map fun v => (str "rate_sweep_interval", v))
    ++ (flush.toList.map fun v => (str "usage_flush_interval_ms", v))
  if advanced.isEmpty then pure ⟨b.root, gov⟩
  else do
    change "governance.rate_sweep_interval / usage_flush_interval_ms -> advanced"
    pure ⟨Mapping.insert "advanced" (.mapping advanced) b.root, gov⟩

/-- `entry(k).or_insert_with(Mapping::new)`. -/
def orEmpty (k : String) (m : Mapping) : Mapping := if m.containsKey k then m else Mapping.insert k (.mapping []) m

/-- A reference to a variable is kept, a literal token is not. -/
def secretRef (token : Yaml) : Logged Yaml :=
  match token.asStr.filter (fun s => "$\x7b".toList.isPrefixOf s.toList ∧ s.toList.getLast? = some '\x7d') with
  | some s => pure (.mapping [(str "env", str (String.ofList ((s.toList.drop 2).dropLast)))])
  | none => do
    record (.todo ⟨[str "auth", str "admin_auth"], [], "auth.admin_auth[admin-tokens].token: governance.admin_token held a "
      ++ "literal value; move it into an env var or file and reference it (token: \x7b env: VAR \x7d or \x7b file: /path "
      ++ "\x7d)"⟩)
    pure (.mapping [(str "env", str "BUSBAR_ADMIN_TOKEN")])

def migrateAdminToken (b : Block) : Logged Block :=
  match take b.gov "admin_token" with
  | (none, gov) => pure ⟨b.root, gov⟩
  | (some token, gov) => do
    let root ← atMapping "auth" (fun auth => do
      let ref ← secretRef token
      let entry : Yaml := .mapping [(str "admin-tokens", .mapping [(str "token", ref)])]
      pure (Mapping.insert "admin_auth" (.sequence [entry]) auth)) (orEmpty "auth" b.root)
    change "governance.admin_token -> auth.admin_auth: [ admin-tokens: \x7b token: <secret-ref> \x7d ]"
    pure ⟨root, gov⟩

def migrateEnabled (b : Block) : Logged Block :=
  match take b.gov "enabled" with
  | (none, gov) => pure ⟨b.root, gov⟩
  | (some _, gov) => do
    change "governance.enabled removed (governance is presence-driven)"
    pure ⟨b.root, gov⟩

/-- The keys of the block that have no home. -/
def leftOver : Mapping → Logged Unit
  | [] => pure ()
  | (k, _) :: gov => do
    todo [str "governance", k] ": no mechanical 1.5.0 equivalent; consult the 1.5.0 CHANGELOG"
    leftOver gov

/-- The steps before the budget groups. -/
def migrateMoney (lib : YamlLib) (b : Block) : Logged Block := do
  let b ← migrateStore b
  let b ← liftKey "rate_card" "rate_card" "governance.rate_card -> top-level rate_card" b
  let b ← liftKey "price_per_request_cents" "per_request_fee" "governance.price_per_request_cents -> per_request_fee" b
  migratePrice lib b

/-- `governance:` becomes store, rate card, fee, groups, advanced settings and the administration chain. -/
def migrateGovernance (lib : YamlLib) (root : Mapping) : Logged Mapping := do
  match ← takeMapping lib.oneLine root "governance" [] with
  | .absent | .malformed => pure root
  | .got gov root =>
    let b ← migrateMoney lib ⟨root, gov⟩
    let b ← migrateBudgetGroups lib b
    let b ← migrateAdvanced b
    let b ← migrateAdminToken b
    let b ← migrateEnabled b
    leftOver b.gov
    pure b.root

end Busbar.Migrate
