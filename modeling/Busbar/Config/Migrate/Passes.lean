import Busbar.Config.Migrate.Frames

/-!
# The passes of a run

A pass carries the keys it may change. What a key holds after a run is what the last pass with that key left.

* `rootAt`: the document before each pass.
* `get_rootAt`: between two passes, the other keys stay.
* `ledger_at`: what a pass records stands in the ledger of the run.
-/

namespace Busbar.Migrate

open Logged

structure Pass where
  run : Mapping → Logged Mapping
  keys : List String
  changes : ∀ root, Changes keys root (run root).value

def passes (lib : YamlLib) : List Pass :=
  [⟨migrateGovernance lib, governanceKeys, fun _ => migrateGovernance_changes⟩,
    ⟨migrateAuth, ["auth", "groups", "group_map"], fun _ => migrateAuth_changes⟩,
    ⟨migrateAdminAuth, ["admin_auth", "auth"], fun _ => migrateAdminAuth_changes⟩,
    ⟨migrateDroppedScopes, ["auth"], fun _ => migrateDroppedScopes_changes⟩,
    ⟨migrateProviders, ["providers"], fun _ => migrateProviders_changes⟩,
    ⟨migrateHooksBlock lib, hookSections, fun _ => migrateHooksBlock_changes⟩,
    ⟨migratePools lib, ["pools"], fun _ => migratePools_changes⟩,
    ⟨migrateHookStages, ["global_hooks", "pools"], fun _ => migrateHookStages_changes⟩,
    ⟨migrateObservability, ["observability"], fun _ => migrateObservability_changes⟩,
    ⟨migrateResponseHeaders lib, ["observability", "advanced"], fun _ => migrateResponseHeaders_changes⟩,
    ⟨migrateObservabilityExport lib, ["observability", "export", "metrics"], fun _ => migrateObservabilityExport_changes⟩,
    ⟨migrateExportNamedMap, ["export"], fun _ => migrateExportNamedMap_changes⟩,
    ⟨migrateObservabilityBlock lib, ["observability", "export"], fun _ => migrateObservabilityBlock_changes⟩,
    ⟨migrateExportProjection lib, ["export"], fun _ => migrateExportProjection_changes⟩,
    ⟨migrateAdminRequireMtls, ["admin_insecure", "admin_require_mtls"], fun _ => migrateAdminRequireMtls_changes⟩,
    ⟨migratePoolsUpstreamCredentials, ["auth", "pools"], fun _ => migratePoolsUpstreamCredentials_changes⟩,
    ⟨migrateIdentityProviders lib, ["auth", "identity-providers"], fun _ => migrateIdentityProviders_changes⟩,
    ⟨migrateStoreModule lib, ["store"], fun _ => migrateStoreModule_changes⟩]

/-- The keys of the passes, which do not depend on the library. -/
def passKeys : List (List String) :=
  [governanceKeys, ["auth", "groups", "group_map"], ["admin_auth", "auth"], ["auth"], ["providers"], hookSections, ["pools"],
    ["global_hooks", "pools"], ["observability"], ["observability", "advanced"], ["observability", "export", "metrics"],
    ["export"], ["observability", "export"], ["export"], ["admin_insecure", "admin_require_mtls"], ["auth", "pools"],
    ["auth", "identity-providers"], ["store"]]

theorem keys_passes (lib : YamlLib) : (passes lib).map Pass.keys = passKeys := rfl

def runPasses : List Pass → Mapping → Logged Mapping
  | [], root => pure root
  | p :: ps, root => do
    let root ← p.run root
    runPasses ps root

variable {lib : YamlLib} {root : Mapping} {ps : List Pass} {i j : Nat} {k : String}

theorem runPasses_cons (p : Pass) (ps : List Pass) (root : Mapping) :
    runPasses (p :: ps) root = p.run root >>= runPasses ps := rfl

theorem runPasses_append (ps qs : List Pass) (root : Mapping) :
    (runPasses (ps ++ qs) root).value = (runPasses qs (runPasses ps root).value).value ∧
    (runPasses (ps ++ qs) root).ledger = (runPasses ps root).ledger ++ (runPasses qs (runPasses ps root).value).ledger := by
  induction ps generalizing root with
  | nil => exact ⟨rfl, rfl⟩
  | cons p ps ih =>
    obtain ⟨hvalue, hledger⟩ := ih (p.run root).value
    rw [List.cons_append, runPasses_cons, runPasses_cons]
    rw [value_bind, value_bind, ledger_bind, ledger_bind, hvalue, hledger, List.append_assoc]
    exact ⟨rfl, rfl⟩

/-- A run of the migrator is the run of its passes. -/
theorem migratePasses_eq_runPasses (lib : YamlLib) (root : Mapping) :
    (migratePasses lib root).value = (runPasses (passes lib) root).value ∧
    (migratePasses lib root).ledger = (runPasses (passes lib) root).ledger := by
  unfold migratePasses passes
  simp only [runPasses, value_bind, ledger_bind, ledger_pure, List.append_nil, value_pure]
  exact ⟨trivial, trivial⟩

theorem runPasses_changes (ps : List Pass) (root : Mapping) :
    Changes (ps.map Pass.keys).flatten root (runPasses ps root).value := by
  induction ps generalizing root with
  | nil => exact Changes.refl _ _
  | cons p ps ih =>
    rw [runPasses_cons, value_bind, List.map_cons, List.flatten_cons]
    refine ((p.changes root).mono fun k hk => List.mem_append_left _ hk).trans ?_
    exact (ih _).mono fun k hk => List.mem_append_right _ hk

/-- The document before the pass of this number. -/
def rootAt (lib : YamlLib) (root : Mapping) (i : Nat) : Mapping := (runPasses ((passes lib).take i) root).value

theorem rootAt_zero (lib : YamlLib) (root : Mapping) : rootAt lib root 0 = root := rfl

theorem rootAt_succ (lib : YamlLib) (root : Mapping) {p : Pass} (hp : (passes lib)[i]? = some p) :
    rootAt lib root (i + 1) = (p.run (rootAt lib root i)).value := by
  unfold rootAt
  rw [List.take_add_one, hp, Option.toList_some, (runPasses_append _ _ _).1]
  rfl

theorem rootAt_length (lib : YamlLib) (root : Mapping) : rootAt lib root 18 = (migratePasses lib root).value := by
  rw [(migratePasses_eq_runPasses lib root).1]
  rfl

/-- The passes from one document to a later one change only their keys. -/
theorem rootAt_changes (lib : YamlLib) (root : Mapping) (hij : i ≤ j) :
    Changes ((passKeys.take j).drop i).flatten (rootAt lib root i) (rootAt lib root j) := by
  have hsplit : (passes lib).take j = (passes lib).take i ++ ((passes lib).take j).drop i := by
    conv_lhs => rw [← List.take_append_drop i ((passes lib).take j)]
    rw [List.take_take, min_eq_left hij]
  have hkeys : (((passes lib).take j).drop i).map Pass.keys = (passKeys.take j).drop i := by
    rw [List.map_drop, List.map_take, keys_passes]
  unfold rootAt
  rw [hsplit, (runPasses_append _ _ _).1, ← hkeys]
  exact runPasses_changes _ _

theorem distinct_rootAt (lib : YamlLib) (hroot : Mapping.Distinct root) (i : Nat) : Mapping.Distinct (rootAt lib root i) :=
  (rootAt_changes lib root (Nat.zero_le i) hroot).1

theorem get_rootAt (lib : YamlLib) (hroot : Mapping.Distinct root) (hij : i ≤ j)
    (hk : k ∉ ((passKeys.take j).drop i).flatten) : (rootAt lib root j).get k = (rootAt lib root i).get k :=
  (rootAt_changes lib root hij (distinct_rootAt lib hroot i)).2 k hk

/-- What a pass records is in the ledger. -/
theorem ledger_at {p : Pass} (hp : (passes lib)[i]? = some p) {e : Entry} (he : e ∈ (p.run (rootAt lib root i)).ledger) :
    e ∈ (migratePasses lib root).ledger := by
  have hsplit : passes lib = (passes lib).take i ++ p :: (passes lib).drop (i + 1) := by
    obtain ⟨hi, hget⟩ := List.getElem?_eq_some_iff.1 hp
    rw [← hget, List.getElem_cons_drop, List.take_append_drop]
  rw [(migratePasses_eq_runPasses lib root).2, hsplit, (runPasses_append _ _ _).2]
  refine List.mem_append_right _ ?_
  rw [runPasses_cons, ledger_bind]
  exact List.mem_append_left _ he

end Busbar.Migrate
