import Busbar.Config.Migrate.Markers
import Busbar.Config.Migrate.Passes

/-!
# What each pass clears

After its pass a key of old is gone, or there is an item for it, or the run has stopped.

* `Says`, `Panics`: what stands in a ledger.
* `governance_cleared`, `groupMap_cleared`, `globalHooks_cleared` and so on: the keys of the document.
* `hookDefs_cleared`, `providers_cleared`: the shapes inside of two sections.
-/

namespace Busbar.Migrate

open Logged

variable {lib : YamlLib} {root : Mapping} {l l' : List Entry} {path : List Yaml} {k : String}

/-- There is an item of this path. -/
def Says (l : List Entry) (path : List Yaml) : Prop := ∃ t : Todo, .todo t ∈ l ∧ t.path = path

def Panics (l : List Entry) : Prop := ∃ text, .panicked text ∈ l

theorem Says.mono (h : Says l path) (hl : ∀ e ∈ l, e ∈ l') : Says l' path := by
  obtain ⟨t, ht, hpath⟩ := h
  exact ⟨t, hl _ ht, hpath⟩

theorem Panics.mono (h : Panics l) (hl : ∀ e ∈ l, e ∈ l') : Panics l' := by
  obtain ⟨text, ht⟩ := h
  exact ⟨text, hl _ ht⟩

theorem says_todoKept (path : List Yaml) (kept : List (List Yaml)) (text : String) :
    Says (todoKept path kept text).ledger path := ⟨_, List.mem_singleton_self _, rfl⟩

theorem says_todo (path : List Yaml) (text : String) : Says (todo path text).ledger path :=
  ⟨_, List.mem_singleton_self _, rfl⟩

section

variable {α β : Type} {m : Logged α} {f : α → Logged β}

theorem says_bind_left (h : Says m.ledger path) : Says (m >>= f).ledger path :=
  h.mono fun _ he => List.mem_append_left _ he

theorem says_bind_right (h : Says (f m.value).ledger path) : Says (m >>= f).ledger path :=
  h.mono fun _ he => List.mem_append_right _ he

theorem panics_bind_left (h : Panics m.ledger) : Panics (m >>= f).ledger :=
  h.mono fun _ he => List.mem_append_left _ he

theorem panics_bind_right (h : Panics (f m.value).ledger) : Panics (m >>= f).ledger :=
  h.mono fun _ he => List.mem_append_right _ he

end

/-- A value that has another shape has an item, unless it has the shape under a tag. -/
theorem takeMapping_malformed {oneLine : Yaml → String} {m : Mapping} {v : Yaml} {ctx : List Yaml} (hget : m.get k = some v)
    (hshape : v.mapping? = none) : Says (takeMapping oneLine m k ctx).ledger (ctx ++ [str k]) ∧ v.isMapping = false ∨
      Panics (takeMapping oneLine m k ctx).ledger := by
  unfold takeMapping takeShaped
  rw [hget]
  dsimp only
  by_cases h : v.isMapping = true
  · rw [if_pos h]
    refine Or.inr (panics_bind_right ?_)
    cases v with
    | mapping mm => cases hshape
    | _ => exact panics_bind_left ⟨_, List.mem_singleton_self _⟩
  · rw [if_neg h]
    refine Or.inl ⟨says_bind_left (says_bind_left (says_todoKept _ _ _)), Bool.eq_false_iff.2 h⟩

theorem takeSequence_malformed {oneLine : Yaml → String} {m : Mapping} {v : Yaml} {ctx : List Yaml} (hget : m.get k = some v)
    (hshape : v.sequence? = none) : Says (takeSequence oneLine m k ctx).ledger (ctx ++ [str k]) ∨
      Panics (takeSequence oneLine m k ctx).ledger := by
  unfold takeSequence takeShaped
  rw [hget]
  dsimp only
  by_cases h : v.isSequence = true
  · rw [if_pos h]
    refine Or.inr (panics_bind_right ?_)
    cases v with
    | sequence s => cases hshape
    | _ => exact panics_bind_left ⟨_, List.mem_singleton_self _⟩
  · rw [if_neg h]
    exact Or.inl (says_bind_left (says_bind_left (says_todoKept _ _ _)))

/-! ## Keys of the document -/

theorem governance_cleared (hroot : Mapping.Distinct root) :
    (migrateGovernance lib root).value.get "governance" = none ∨ Says (migrateGovernance lib root).ledger [str "governance"] ∨
      Panics (migrateGovernance lib root).ledger := by
  cases hget : root.get "governance" with
  | none =>
    refine Or.inl ?_
    unfold migrateGovernance
    rw [value_bind, value_takeMapping, hget]
    exact hget
  | some v =>
    cases hv : v.mapping? with
    | some gov =>
      rw [Yaml.mapping?_eq_some] at hv
      subst hv
      have hremoved := Mapping.distinct_swapRemove hroot "governance"
      refine Or.inl (((migrateGovernance_homes hget) hremoved).2 _ (by decide) |>.trans ?_)
      rw [Mapping.get_swapRemove hroot, if_pos rfl]
    | none =>
      refine Or.inr ?_
      unfold migrateGovernance
      rcases @takeMapping_malformed _ lib.oneLine _ _ [] hget hv with h | h
      · exact Or.inl (says_bind_left h.1)
      · exact Or.inr (panics_bind_left h)

/-- A role map that cannot be migrated stays, with an item. -/
theorem groupMap_cleared (hroot : Mapping.Distinct root) :
    (migrateAuth root).value.get "group_map" = none ∨ Says (migrateAuth root).ledger [str "group_map"] := by
  have hremoved : (root.swapRemove "group_map").get "group_map" = none := by
    rw [Mapping.get_swapRemove hroot, if_pos rfl]
  have hempty : (orEmpty "auth" (root.swapRemove "group_map")).get "group_map" = none := by
    rw [get_orEmpty, if_neg (by decide), hremoved]
  have hdistinct : Mapping.Distinct (orEmpty "auth" (root.swapRemove "group_map")) :=
    (orEmpty_changes (k := "auth") (List.mem_singleton_self _) _ (Mapping.distinct_swapRemove hroot _)).1
  unfold migrateAuth take
  dsimp only
  generalize root.swapRemove "group_map" = root1 at hremoved hempty hdistinct ⊢
  split
  · exact Or.inl hremoved
  generalize orEmpty "auth" root1 = root2 at hempty hdistinct ⊢
  cases (root2.get "auth").bind Yaml.mapping? with
  | none =>
    cases root.get "group_map" with
    | none => exact Or.inl hempty
    | some gm => exact Or.inr (says_bind_left (says_todoKept _ _ _))
  | some auth =>
    -- from here on the role map is only put back if it is no mapping
    have hput : ∀ (gm : Yaml) (v : Yaml), (migrateGroupMap gm (Mapping.insert "auth" v root2)).value.get "group_map" = none ∨
        Says (migrateGroupMap gm (Mapping.insert "auth" v root2)).ledger [str "group_map"] := by
      intro gm v
      have hnone : (Mapping.insert "auth" v root2).get "group_map" = none := by
        rw [Mapping.get_insert, if_neg (by decide), hempty]
      have hdistinct' := Mapping.distinct_insert hdistinct "auth" v
      cases hgm : gm.mapping? with
      | some m =>
        rw [Yaml.mapping?_eq_some] at hgm
        subst hgm
        exact Or.inl (((migrateGroupMap_groups hdistinct').2 _ (by decide)).trans hnone)
      | none =>
        refine Or.inr ?_
        unfold migrateGroupMap
        cases gm with
        | mapping m => cases hgm
        | _ => exact says_bind_right (says_bind_left (says_todoKept _ _ _))
    have hkept : ∀ v, (Mapping.insert "auth" v root2).get "group_map" = none := by
      intro v
      rw [Mapping.get_insert, if_neg (by decide), hempty]
    cases root.get "group_map" with
    | some gm =>
      rw [value_bind, ledger_bind]
      exact (hput gm _).imp id fun h => h.mono fun e he => List.mem_append_right _ he
    | none =>
      rw [value_bind, ledger_bind]
      dsimp only
      cases auth.get "group_map" with
      | none => exact Or.inl (hkept _)
      | some gm => exact (hput gm _).imp id fun h => h.mono fun e he => List.mem_append_right _ he

theorem adminAuth_cleared (hroot : Mapping.Distinct root) : (migrateAdminAuth root).value.get "admin_auth" = none := by
  have hremoved : (root.swapRemove "admin_auth").get "admin_auth" = none := by
    rw [Mapping.get_swapRemove hroot, if_pos rfl]
  unfold migrateAdminAuth take
  cases root.get "admin_auth" with
  | none => exact hremoved
  | some top =>
    have hempty : (orEmpty "auth" (root.swapRemove "admin_auth")).get "admin_auth" = none := by
      rw [get_orEmpty, if_neg (by decide), hremoved]
    dsimp only
    split
    · exact hempty
    · exact (Mapping.get_insert ..).trans ((if_neg (by decide)).trans hempty)

/-- Global hooks that are no list stay, with an item. -/
theorem globalHooks_cleared (hroot : Mapping.Distinct root) :
    (migrateHooksBlock lib root).value.get "global_hooks" = none ∨ Says (migrateHooksBlock lib root).ledger [str "global_hooks"] ∨
      Panics (migrateHooksBlock lib root).ledger := by
  obtain ⟨hdistinct, hget⟩ := @migrateRegistry_changes lib _ hroot
  unfold migrateHooksBlock
  rw [value_bind, ledger_bind]
  generalize migrateRegistry lib root = registry at hdistinct hget ⊢
  obtain ⟨⟨root1, defs, all⟩, l1⟩ := registry
  dsimp only at hdistinct hget ⊢
  have htaken := @takeGlobalHooks_changes lib _ hdistinct
  have hcleared : (takeGlobalHooks lib root1).value.1.get "global_hooks" = none ∨
      Says (takeGlobalHooks lib root1).ledger [str "global_hooks"] ∨ Panics (takeGlobalHooks lib root1).ledger := by
    unfold takeGlobalHooks
    rw [value_bind, value_takeSequence]
    cases hv : root1.get "global_hooks" with
    | none => exact Or.inl hv
    | some v =>
      cases hs : v.sequence? with
      | some s =>
        rw [Yaml.sequence?_eq_some] at hs
        subst hs
        exact Or.inl ((Mapping.get_swapRemove hdistinct ..).trans (if_pos rfl))
      | none =>
        exact Or.inr ((takeSequence_malformed hv hs).imp says_bind_left panics_bind_left)
  rw [value_bind, ledger_bind]
  generalize takeGlobalHooks lib root1 = taken at htaken hcleared ⊢
  obtain ⟨⟨root2, globals⟩, l2⟩ := taken
  dsimp only at htaken hcleared ⊢
  rcases hcleared with hnone | hsaid | hpanic
  · refine Or.inl ?_
    rw [value_bind]
    generalize (migrateGlobalHooks globals defs all).value = attached
    obtain ⟨defs', all'⟩ := attached
    have hinline := @liftInlineHooks_changes lib _ defs' htaken.1
    dsimp only
    rw [value_bind]
    generalize (liftInlineHooks lib root2 defs').value = lifted at hinline ⊢
    obtain ⟨root3, defs''⟩ := lifted
    dsimp only at hinline ⊢
    rw [value_bind]
    have hwritten := @writeDefs_changes _ defs'' hinline.1
    have hattached := @attachAll_changes lib _ all' hwritten.1
    rw [hattached.2 _ (by decide), hwritten.2 _ (by decide), hinline.2 _ (by decide), hnone]
  · exact Or.inr (Or.inl (hsaid.mono fun e he => List.mem_append_right _ (List.mem_append_left _ he)))
  · exact Or.inr (Or.inr (hpanic.mono fun e he => List.mem_append_right _ (List.mem_append_left _ he)))

theorem hookStages_globalHooks : ((migrateHookStages root).value.get "global_hooks").isSome = (root.get "global_hooks").isSome := by
  unfold migrateHookStages
  rw [value_bind, get_atMapping, if_neg (by decide)]
  have hget := get_atKey "global_hooks" "global_hooks" (onSequence (mapItems (rewriteStage "global_hooks"))) root
  rw [if_pos rfl] at hget
  exact (congrArg Option.isSome hget).trans (by rw [Option.isSome_map])

theorem metrics_cleared (hroot : Mapping.Distinct root) : (migrateObservabilityExport lib root).value.get "metrics" = none := by
  have hwebhook := migrateWebhook_changes hroot
  unfold migrateObservabilityExport
  rw [value_bind]
  generalize (migrateWebhook root).value = root1 at hwebhook ⊢
  have hremoved : (root1.swapRemove "metrics").get "metrics" = none := by
    rw [Mapping.get_swapRemove hwebhook.1, if_pos rfl]
  have hdistinct := Mapping.distinct_swapRemove hwebhook.1 "metrics"
  unfold migrateMetrics take
  cases root1.get "metrics" with
  | none => exact hremoved
  | some v =>
    cases v with
    | mapping metrics =>
      have hexport : ∀ v, Changes ["export"] (root1.swapRemove "metrics") (insertExport "prometheus" v (root1.swapRemove "metrics")) :=
        fun v => insertExport_changes (by decide) _ _
      exact ((hexport _ hdistinct).2 _ (by decide)).trans hremoved
    | _ => exact hremoved

theorem observability_cleared (hroot : Mapping.Distinct root) :
    (migrateObservabilityBlock lib root).value.get "observability" = none := by
  have hremoved : (root.swapRemove "observability").get "observability" = none := by
    rw [Mapping.get_swapRemove hroot, if_pos rfl]
  have hexport : ∀ name v, Changes ["export"] (root.swapRemove "observability") (insertExport name v (root.swapRemove "observability")) :=
    fun name v => insertExport_changes (by decide) _ _
  have hdistinct := Mapping.distinct_swapRemove hroot "observability"
  unfold migrateObservabilityBlock take
  cases root.get "observability" with
  | none => exact hremoved
  | some v =>
    cases v with
    | mapping obs =>
      dsimp only
      split
      · exact ((hexport _ _ hdistinct).2 _ (by decide)).trans hremoved
      · exact hremoved
    | _ => exact hremoved

theorem adminInsecure_cleared (hroot : Mapping.Distinct root) :
    (migrateAdminRequireMtls root).value.get "admin_insecure" = none := by
  have hremoved : (root.swapRemove "admin_insecure").get "admin_insecure" = none := by
    rw [Mapping.get_swapRemove hroot, if_pos rfl]
  unfold migrateAdminRequireMtls take
  cases root.get "admin_insecure" with
  | none => exact hremoved
  | some v => exact (Mapping.get_insert ..).trans ((if_neg (by decide)).trans hremoved)

theorem store_cleared :
    storeMarkers (migrateStoreModule lib root).value = [] ∨ Panics (migrateStoreModule lib root).ledger := by
  have hwritten : ∀ store m : Mapping, (∀ s, (store.get "module").bind Yaml.asStr = some s → s ∉ retiredStoreModules) →
      storeMarkers (Mapping.insert "store" (.mapping store) m) = [] := by
    intro store m hmodule
    have hget : ((Mapping.insert "store" (.mapping store) m).get "store").bind Yaml.asMapping = some store := by
      rw [Mapping.get_insert, if_pos rfl]
      rfl
    unfold storeMarkers
    rw [hget, Option.bind_some]
    cases hs : (store.get "module").bind Yaml.asStr with
    | none => rfl
    | some s =>
      dsimp only
      unfold marker
      rw [if_neg (by rw [decide_eq_true_eq]; exact hmodule s hs)]
  unfold migrateStoreModule
  rw [value_bind, value_takeMapping]
  cases hget : root.get "store" with
  | none =>
    refine Or.inl ?_
    unfold storeMarkers
    simp only [value_pure, hget]
    rfl
  | some v =>
    cases hv : v.mapping? with
    | some store =>
      rw [Yaml.mapping?_eq_some] at hv
      subst hv
      refine Or.inl ?_
      dsimp only
      split
      · next hold =>
        refine hwritten store _ fun s hs hretired => ?_
        rw [hs, Option.filter_some, if_pos (by rwa [decide_eq_true_eq])] at hold
        cases hold
      · refine hwritten _ _ fun s hs => ?_
        rw [Mapping.get_insert, if_pos rfl] at hs
        obtain rfl := Option.some.inj hs
        decide
    | none =>
      rcases @takeMapping_malformed _ lib.oneLine _ _ [] hget hv with h | h
      · refine Or.inl ?_
        have hno : v.asMapping = none := Option.not_isSome_iff_eq_none.1 (Bool.eq_false_iff.1 h.2)
        unfold storeMarkers
        cases v with
        | mapping store => cases hv
        | _ => simp only [value_pure, hget, Option.bind_some, hno, Option.bind_none]
      · exact Or.inr (panics_bind_left h)

/-! ## Hook definitions -/

/-- What a start takes for a definition. -/
def isHookDef (v : Yaml) : Bool :=
  v.asMapping.any fun em =>
    ((em.get "module").bind Yaml.asStr).any (fun s => trim s ≠ "") && !em.containsKey "socket" && !em.containsKey "webhook"

theorem isNewHookDefs_eq (hooks : Mapping) : isNewHookDefs hooks = (!hooks.isEmpty && hooks.all fun e => isHookDef e.2) := rfl

def AllDefs (defs : Mapping) : Prop := ∀ e ∈ defs, isHookDef e.2 = true

/-- The module that an entry of old gets has a name. -/
def NamesModule (m : Mapping) : Prop := ∀ t, hookTransport m = some t → trim t.1 ≠ ""

theorem isHookDef_entry {module : String} {rest : Mapping} (hmodule : trim module ≠ "")
    (hrest : ∀ e ∈ rest, ∃ k, e.1 = str k ∧ k ≠ "socket" ∧ k ≠ "webhook") :
    isHookDef (.mapping ([(str "module", str module)] ++ rest)) = true := by
  have hno : ∀ k, k = "socket" ∨ k = "webhook" → Mapping.containsKey ([(str "module", str module)] ++ rest) k = false := by
    intro k hk
    unfold Mapping.containsKey
    rw [List.any_eq_false]
    intro e he
    rw [Mapping.isKey_iff]
    rcases List.mem_append.1 he with he | he
    · rw [List.mem_singleton.1 he]
      rcases hk with rfl | rfl
      · exact fun h => absurd (Yaml.string.inj h) (by decide)
      · exact fun h => absurd (Yaml.string.inj h) (by decide)
    · obtain ⟨k', hkey, hsocket, hwebhook⟩ := hrest e he
      rw [hkey, str, Yaml.string.injEq]
      rcases hk with rfl | rfl
      · exact hsocket
      · exact hwebhook
  have hget : Mapping.get ([(str "module", str module)] ++ rest) "module" = some (str module) := rfl
  change (((Mapping.get ([(str "module", str module)] ++ rest) "module").bind Yaml.asStr).any (fun s => decide (trim s ≠ "")) &&
    !Mapping.containsKey ([(str "module", str module)] ++ rest) "socket" &&
    !Mapping.containsKey ([(str "module", str module)] ++ rest) "webhook") = true
  rw [hno _ (Or.inl rfl), hno _ (Or.inr rfl), hget]
  change (decide (trim module ≠ "") && true && true) = true
  rw [decide_eq_true hmodule]
  rfl

theorem isHookDef_hookEntryToDef (entry : Yaml) (name : String) (h : NamesModule (entry.asMapping.getD [])) :
    isHookDef (hookEntryToDef name entry).value = true := by
  have hrest : ∀ (settings m : Mapping), ∀ e ∈ (if settings.isEmpty then [] else [(str "settings", Yaml.mapping settings)])
      ++ ((hookKeys.filterMap fun k => (m.get k).map fun v => (str k, v))
        ++ ((hookPhase m).toList.map fun phase => (str "phase", phase))), ∃ k, e.1 = str k ∧ k ≠ "socket" ∧ k ≠ "webhook" := by
    intro settings m e he
    rcases List.mem_append.1 he with he | he
    · split at he
      · cases he
      · rw [List.mem_singleton.1 he]
        exact ⟨"settings", rfl, by decide, by decide⟩
    rcases List.mem_append.1 he with he | he
    · obtain ⟨k, hk, hkey⟩ := List.mem_filterMap.1 he
      obtain ⟨v, -, rfl⟩ := Option.map_eq_some_iff.1 hkey
      have hkeys : ∀ k ∈ hookKeys, k ≠ "socket" ∧ k ≠ "webhook" := by decide
      exact ⟨k, rfl, hkeys k hk⟩
    · obtain ⟨phase, -, rfl⟩ := List.mem_map.1 he
      exact ⟨"phase", rfl, by decide, by decide⟩
  unfold hookEntryToDef
  generalize entry.asMapping.getD [] = m at h
  unfold NamesModule at h
  dsimp only
  cases htransport : hookTransport m with
  | none =>
    simp only [value_bind, value_pure, List.append_assoc]
    have hfallback : trim "webhook" ≠ "" := by decide +kernel
    exact isHookDef_entry hfallback (hrest _ m)
  | some t =>
    obtain ⟨module, setting⟩ := t
    have hmodule := h _ htransport
    dsimp only at hmodule
    cases setting with
    | none =>
      simp only [value_bind, value_pure, List.append_assoc]
      exact isHookDef_entry hmodule (hrest _ m)
    | some kv =>
      simp only [value_bind, value_pure, List.append_assoc]
      exact isHookDef_entry hmodule (hrest _ m)

theorem allDefs_insert {defs : Mapping} {v : Yaml} (hdefs : AllDefs defs) (hv : isHookDef v = true) (k : String) :
    AllDefs (Mapping.insert k v defs) := by
  intro e he
  rcases Mapping.mem_insert he with he | he
  · exact hdefs e he
  · rw [he]
    exact hv

theorem allDefs_lifted {m defs : Mapping} (hm : NamesModule m) (hdefs : AllDefs defs) (name : String) :
    AllDefs (Mapping.insert name (hookEntryToDef name (.mapping m)).value defs) :=
  allDefs_insert hdefs (isHookDef_hookEntryToDef (.mapping m) name hm) name

theorem allDefs_registryDefs {src : Mapping}
    (hsrc : ∀ e ∈ src, e.1.asStr ≠ none → NamesModule (e.2.asMapping.getD [])) : AllDefs (registryDefs src).value.1 := by
  induction src with
  | nil => exact fun e he => absurd he List.not_mem_nil
  | cons e src ih =>
    obtain ⟨k, entry⟩ := e
    have htail := ih fun e he => hsrc e (List.mem_cons_of_mem _ he)
    unfold registryDefs
    cases hk : k.asStr with
    | none => exact htail
    | some name =>
      have hhead : NamesModule (entry.asMapping.getD []) := hsrc _ List.mem_cons_self (by rw [hk]; exact nofun)
      intro x hx
      rcases List.mem_cons.1 hx with rfl | hx
      · exact isHookDef_hookEntryToDef entry name hhead
      · exact htail x hx

theorem allDefs_migrateGlobalHooks {src : List Yaml} (hsrc : ∀ m, .mapping m ∈ src → NamesModule m) (defs : Mapping)
    (all : List Yaml) (hdefs : AllDefs defs) : AllDefs (migrateGlobalHooks src defs all).value.1 := by
  induction src generalizing defs all with
  | nil => exact hdefs
  | cons v src ih =>
    have htail : ∀ m, .mapping m ∈ src → NamesModule m := fun m hm => hsrc m (List.mem_cons_of_mem _ hm)
    cases v with
    | mapping m =>
      unfold migrateGlobalHooks
      rw [value_bind]
      exact ih htail _ _ (allDefs_lifted (hsrc m List.mem_cons_self) hdefs _)
    | string name => exact ih htail _ _ hdefs
    | _ => exact ih htail _ _ hdefs

theorem allDefs_migratePoolHooks {pool : Yaml} {src : List Yaml} (hsrc : ∀ m, .mapping m ∈ src → NamesModule m) (defs : Mapping)
    (hdefs : AllDefs defs) : AllDefs (migratePoolHooks pool src defs).value.2 := by
  induction src generalizing defs with
  | nil => exact hdefs
  | cons v src ih =>
    have htail : ∀ m, .mapping m ∈ src → NamesModule m := fun m hm => hsrc m (List.mem_cons_of_mem _ hm)
    cases v with
    | mapping m =>
      unfold migratePoolHooks
      rw [value_bind]
      exact ih htail _ (allDefs_lifted (hsrc m List.mem_cons_self) hdefs _)
    | _ => exact ih htail _ hdefs

/-- The inline instances of a pool name their modules. -/
def PoolNamed (pool p : Yaml) : Prop :=
  pool.asStr ≠ some "hooks" → ∀ pm s, p = .mapping pm → Mapping.get pm "hooks" = some (.sequence s) →
    ∀ m, .mapping m ∈ s → NamesModule m

theorem allDefs_migrateInlineHooks {pool p : Yaml} (hp : PoolNamed pool p) (defs : Mapping) (hdefs : AllDefs defs) :
    AllDefs (migrateInlineHooks lib pool p defs).value.2 := by
  unfold migrateInlineHooks
  split
  · exact hdefs
  · next hpool =>
    cases p with
    | mapping pm =>
      dsimp only
      rw [value_bind, value_takeSequence]
      cases hget : Mapping.get pm "hooks" with
      | none => exact hdefs
      | some v =>
        cases v with
        | sequence s => exact allDefs_migratePoolHooks (hp hpool pm s rfl hget) defs hdefs
        | _ => exact hdefs
    | _ => exact hdefs

theorem allDefs_migrateInlinePools {pools : Mapping} (hpools : ∀ e ∈ pools, PoolNamed e.1 e.2) (defs : Mapping)
    (hdefs : AllDefs defs) : AllDefs (migrateInlinePools lib pools defs).value.2 := by
  induction pools generalizing defs with
  | nil => exact hdefs
  | cons e pools ih =>
    unfold migrateInlinePools
    rw [value_bind]
    exact ih (fun e he => hpools e (List.mem_cons_of_mem _ he)) _
      (allDefs_migrateInlineHooks (hpools e List.mem_cons_self) defs hdefs)

/-- Every hook that becomes a definition names its module. -/
structure HooksNamed (root : Mapping) : Prop where
  registry : ∀ src, root.get "hooks" = some (.mapping src) → isNewHookDefs src = false →
    ∀ e ∈ src, e.1.asStr ≠ none → NamesModule (e.2.asMapping.getD [])
  globals : ∀ s, root.get "global_hooks" = some (.sequence s) → ∀ m, .mapping m ∈ s → NamesModule m
  pools : ∀ pools, root.get "pools" = some (.mapping pools) → ∀ e ∈ pools, PoolNamed e.1 e.2

/-- **Hooks.** What is written are definitions. -/
theorem hookDefs_cleared (hroot : Mapping.Distinct root) (h : HooksNamed root) :
    hooksMarkers (migrateHooksBlock lib root).value = [] := by
  obtain ⟨hregistry, hglobals, hpools⟩ := h
  -- the definitions of the block, which is taken out unless it is something else
  have hfirst : AllDefs (migrateRegistry lib root).value.2.1 ∧
      ((migrateRegistry lib root).value.1.get "hooks").bind Yaml.mapping? = none := by
    unfold migrateRegistry
    rw [value_bind, value_takeMapping]
    cases hget : root.get "hooks" with
    | none => exact ⟨fun e he => absurd he List.not_mem_nil, by simp only [value_pure, hget]; rfl⟩
    | some v =>
      cases v with
      | mapping src =>
        have hremoved : ((root.swapRemove "hooks").get "hooks").bind Yaml.mapping? = none := by
          rw [Mapping.get_swapRemove hroot, if_pos rfl]
          rfl
        dsimp only
        by_cases hnew : isNewHookDefs src = true
        · rw [if_pos hnew]
          rw [isNewHookDefs_eq, Bool.and_eq_true, List.all_eq_true] at hnew
          exact ⟨hnew.2, hremoved⟩
        · rw [if_neg hnew]
          exact ⟨allDefs_registryDefs (hregistry src hget (Bool.eq_false_iff.2 hnew)), hremoved⟩
      | _ => exact ⟨fun e he => absurd he List.not_mem_nil, by simp only [value_pure, hget]; rfl⟩
  obtain ⟨hdistinct1, hget1⟩ := @migrateRegistry_changes lib _ hroot
  unfold migrateHooksBlock
  rw [value_bind]
  generalize (migrateRegistry lib root).value = registry at hfirst hdistinct1 hget1 ⊢
  obtain ⟨root1, defs1, all1⟩ := registry
  dsimp only at hfirst hdistinct1 hget1 ⊢
  obtain ⟨hdefs1, hhooks1⟩ := hfirst
  -- the global hooks
  have htaken : ∀ s, (takeGlobalHooks lib root1).value.2 = s → ∀ m, .mapping m ∈ s → NamesModule m := by
    rintro _ rfl m hm
    unfold takeGlobalHooks at hm
    rw [value_bind, value_takeSequence, hget1 _ (by decide)] at hm
    cases hget : root.get "global_hooks" with
    | none =>
      rw [hget] at hm
      cases hm
    | some v =>
      rw [hget] at hm
      cases v with
      | sequence s => exact hglobals s hget m hm
      | _ => cases hm
  obtain ⟨hdistinct2, hget2⟩ := @takeGlobalHooks_changes lib _ hdistinct1
  rw [value_bind]
  generalize (takeGlobalHooks lib root1).value = taken at htaken hdistinct2 hget2 ⊢
  obtain ⟨root2, globals⟩ := taken
  dsimp only at htaken hdistinct2 hget2 ⊢
  have hdefs2 := allDefs_migrateGlobalHooks (htaken globals rfl) defs1 all1 hdefs1
  rw [value_bind]
  generalize (migrateGlobalHooks globals defs1 all1).value = attached at hdefs2 ⊢
  obtain ⟨defs2, all2⟩ := attached
  dsimp only at hdefs2 ⊢
  -- the pools
  have hdefs3 : AllDefs (liftInlineHooks lib root2 defs2).value.2 := by
    unfold liftInlineHooks
    rw [hget2 _ (by decide), hget1 _ (by decide)]
    cases hget : root.get "pools" with
    | none => exact hdefs2
    | some v =>
      cases v with
      | mapping pools => exact allDefs_migrateInlinePools (hpools pools hget) defs2 hdefs2
      | _ => exact hdefs2
  obtain ⟨hdistinct3, hget3⟩ := @liftInlineHooks_changes lib _ defs2 hdistinct2
  rw [value_bind]
  generalize (liftInlineHooks lib root2 defs2).value = lifted at hdefs3 hdistinct3 hget3 ⊢
  obtain ⟨root3, defs3⟩ := lifted
  dsimp only at hdefs3 hdistinct3 hget3 ⊢
  have hhooks3 : (root3.get "hooks").bind Yaml.mapping? = none := by
    rw [hget3 _ (by decide), hget2 _ (by decide), hhooks1]
  obtain ⟨hdistinct4, -⟩ := @writeDefs_changes _ defs3 hdistinct3
  rw [value_bind]
  have hwritten : ∀ hooks, ((writeDefs defs3 root3).value.get "hooks").bind Yaml.mapping? = some hooks →
      isNewHookDefs hooks = true := by
    intro hooks hhooks
    unfold writeDefs at hhooks
    split at hhooks
    · rw [value_pure, hhooks3] at hhooks
      cases hhooks
    · next hempty =>
      split at hhooks
      · rw [value_bind, value_pure, hhooks3] at hhooks
        cases hhooks
      · rw [value_pure, Mapping.get_insert, if_pos rfl] at hhooks
        obtain rfl := Option.some.inj hhooks
        rw [isNewHookDefs_eq, Bool.and_eq_true, List.all_eq_true]
        exact ⟨by rw [Bool.eq_false_iff.2 hempty]; rfl, hdefs3⟩
  generalize (writeDefs defs3 root3).value = root4 at hdistinct4 hwritten ⊢
  have hattached := (@attachAll_changes lib _ all2 hdistinct4).2 "hooks" (by decide)
  unfold hooksMarkers
  rw [hattached]
  cases hhooks : (root4.get "hooks").bind Yaml.mapping? with
  | none => rfl
  | some hooks =>
    dsimp only
    rw [hwritten hooks hhooks]
    rfl

/-! ## Providers -/

/-- A provider with a key of old is not under a tag. -/
def ProvidersRead (root : Mapping) : Prop :=
  ∀ v ps e, root.get "providers" = some v → v.asMapping = some ps → e ∈ ps → hasKeyEnv e.2 = true →
    v = .mapping ps ∧ ∃ p, e.2 = .mapping p

theorem asMapping_eq_some {v : Yaml} {m : Mapping} (hv : v.mapping? = some m) : v.asMapping = some m := by
  rw [Yaml.mapping?_eq_some] at hv
  rw [hv]
  rfl

theorem distinct_of_keyed {m : Mapping} (h : (Yaml.mapping m).keyed = true) : Mapping.Distinct m := (Mapping.keyed_mapping.1 h).1

theorem providers_cleared (hkeyed : ∀ v, root.get "providers" = some v → v.keyed = true) (h : ProvidersRead root) :
    providerMarkers (migrateProviders root).value = [] := by
  unfold providerMarkers migrateProviders
  rw [get_atMapping, if_pos rfl]
  cases hget : root.get "providers" with
  | none => rfl
  | some v =>
    rw [Option.map_some, Option.bind_some]
    cases hv : v.mapping? with
    | none =>
      -- the block stays as it is
      rw [value_onMapping_other hv]
      cases hps : v.asMapping with
      | none => rfl
      | some ps =>
        rw [Option.getD_some, List.flatMap_eq_nil_iff]
        intro e he
        unfold marker
        rw [if_neg]
        intro hkey
        rw [(h v ps e hget hps he hkey).1] at hv
        cases hv
    | some ps =>
      have hread := h v ps
      rw [Yaml.mapping?_eq_some] at hv
      subst hv
      rw [value_onMapping, value_mapValues]
      change List.flatMap _ (List.map _ ps) = []
      rw [List.flatMap_map, List.flatMap_eq_nil_iff]
      intro e he
      unfold marker
      rw [if_neg]
      dsimp only
      cases hp : e.2.mapping? with
      | none =>
        rw [value_onMapping_other hp]
        intro hkey
        obtain ⟨-, p, hmapping⟩ := hread e hget rfl he hkey
        rw [hmapping] at hp
        cases hp
      | some p =>
        rw [Yaml.mapping?_eq_some] at hp
        rw [hp, value_onMapping]
        unfold take
        cases hkey : p.get "api_key_env" with
        | none =>
          -- there is no such key
          change ¬((p.swapRemove "api_key_env").containsKey "api_key_env") = true
          rw [Mapping.swapRemove_of_absent hkey, Mapping.containsKey_eq, hkey]
          exact Bool.false_ne_true
        | some var =>
          have hdistinct : Mapping.Distinct p := by
            have hentry := (Mapping.keyed_mapping.1 (hkeyed _ hget)).2 e he
            rw [hp] at hentry
            exact distinct_of_keyed hentry
          change ¬(Mapping.insert "api_key" _ (p.swapRemove "api_key_env")).containsKey "api_key_env" = true
          rw [Mapping.containsKey_eq, Mapping.get_insert, if_neg (by decide), Mapping.get_swapRemove hdistinct, if_pos rfl]
          exact Bool.false_ne_true

end Busbar.Migrate
