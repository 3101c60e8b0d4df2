import Busbar.Config.Migrate.CapsKept

/-!
# Caps over a run

The passes after the role map keep the groups and the group of every binding, so the table of a document is what a run
makes of its groups.

* `Plain.covered`: documents whose table covers their caps.
* `Keeps`: the relation, with its rules for the passes that change the authentication block.
* `latePasses_keeps`: all passes after the role map.
* `caps_kept_iff`: the caps hold after the migration if and only if they hold in the table.
-/

namespace Busbar.Migrate

open Logged

variable {lib : YamlLib} {root root' root'' auth auth' : Mapping} {ks : List String} {role : String}

/-- Groups, and the groups of bindings, are kept. -/
def Keeps (root root' : Mapping) : Prop :=
  Sound root → Sound root' ∧ root'.get "groups" = root.get "groups" ∧ boundOf root' = boundOf root

theorem Keeps.refl (root : Mapping) : Keeps root root := fun h => ⟨h, rfl, rfl⟩

theorem Keeps.trans (h : Keeps root root') (h' : Keeps root' root'') : Keeps root root'' := by
  intro hsound
  obtain ⟨hsound', hgroups, hbound⟩ := h hsound
  obtain ⟨hsound'', hgroups', hbound'⟩ := h' hsound'
  exact ⟨hsound'', hgroups'.trans hgroups, hbound'.trans hbound⟩

theorem boundOf_congr (h : authOf root' = authOf root) : boundOf root' = boundOf root := by
  funext module role
  unfold boundOf
  rw [h]

theorem boundIn_congr (h : auth'.get "role_bindings" = auth.get "role_bindings") : boundIn auth' = boundIn auth := by
  funext module role
  unfold boundIn
  rw [h]

/-- A pass that leaves both keys alone. -/
theorem Changes.keeps (h : Changes ks root root') (hgroups : "groups" ∉ ks) (hauth : "auth" ∉ ks) : Keeps root root' := by
  intro hsound
  obtain ⟨hdistinct, hget⟩ := h hsound.distinct
  have hsame : authOf root' = authOf root := authOf_congr (hget _ hauth)
  exact ⟨⟨hdistinct, fun auth h => hsound.auth auth (hsame ▸ h)⟩, hget _ hgroups, boundOf_congr hsame⟩

/-- A pass that rewrites the block but not its bindings. -/
theorem Changes.keeps_block (h : Changes ks root root') (hgroups : "groups" ∉ ks) (hauth : authOf root = some auth)
    (hauth' : authOf root' = some auth') {ks' : List String} (hblock : Changes ks' auth auth')
    (hbindings : "role_bindings" ∉ ks') : Keeps root root' := by
  intro hsound
  obtain ⟨hdistinct, hget⟩ := h hsound.distinct
  obtain ⟨hdistinct', hget'⟩ := hblock (hsound.auth auth hauth)
  refine ⟨⟨hdistinct, fun auth'' h => ?_⟩, hget _ hgroups, ?_⟩
  · rw [hauth'] at h
    obtain rfl := Option.some.inj h
    exact hdistinct'
  · funext module role
    unfold boundOf
    rw [hauth, hauth', Option.bind_some, Option.bind_some, boundIn_congr (hget' _ hbindings)]

/-- An empty block has no bindings. -/
theorem keeps_orEmpty (root : Mapping) : Keeps root (orEmpty "auth" root) := by
  intro hsound
  have hget : ∀ k, (orEmpty "auth" root).get k =
      if k = "auth" then some ((root.get "auth").getD (.mapping [])) else root.get k := fun k => get_orEmpty "auth" k root
  have hdistinct := (orEmpty_changes (k := "auth") (List.mem_singleton_self _) root hsound.distinct).1
  have hgroups : (orEmpty "auth" root).get "groups" = root.get "groups" := (hget _).trans (if_neg (by decide))
  cases hauth : root.get "auth" with
  | some v =>
    have hsame : authOf (orEmpty "auth" root) = authOf root := by
      refine authOf_congr ?_
      rw [hget, if_pos rfl, hauth]
      rfl
    exact ⟨⟨hdistinct, fun auth h => hsound.auth auth (hsame ▸ h)⟩, hgroups, boundOf_congr hsame⟩
  | none =>
    have hold : authOf root = none := by
      unfold authOf
      rw [hauth]
      rfl
    have hnew : authOf (orEmpty "auth" root) = some [] := by
      unfold authOf
      rw [hget, if_pos rfl, hauth]
      rfl
    refine ⟨⟨hdistinct, fun auth h => ?_⟩, hgroups, ?_⟩
    · rw [hnew] at h
      obtain rfl := Option.some.inj h
      exact List.nodup_nil
    · funext module role
      unfold boundOf
      rw [hold, hnew]
      rfl

theorem authOf_insert (auth root : Mapping) : authOf (Mapping.insert "auth" (.mapping auth) root) = some auth := by
  unfold authOf
  rw [Mapping.get_insert, if_pos rfl]
  rfl

theorem keeps_insert (hauth : authOf root = some auth) (hblock : Changes ks auth auth') (hbindings : "role_bindings" ∉ ks) :
    Keeps root (Mapping.insert "auth" (.mapping auth') root) :=
  (changes_insert (List.mem_singleton_self "auth") _ root).keeps_block (by decide) hauth (authOf_insert auth' root) hblock
    hbindings

/-! ## Documents that are covered -/

theorem Cap.implies_refl (c : Cap) : c.Implies c := by
  refine ⟨rfl, ?_⟩
  cases c.per.minutes with
  | none => exact le_rfl
  | some w => exact le_rfl

/-- A budget that is carried is no looser, except for a year with less than one unit a month. -/
theorem carryBudget_implies {word : String} {w : CapWindow} (hw : periodOfWord word = some w) (n : Nat) :
    (carryBudget word n).Implies ⟨.budget, n, w⟩ ↔ (w = .year → 12 ≤ n) := by
  unfold carryBudget
  rw [hw]
  cases w with
  | year =>
    have hrate : max (n / 12) 1 * 525600 ≤ n * 43800 ↔ 12 ≤ n := by omega
    constructor
    · rintro ⟨-, h⟩ -
      exact hrate.1 h
    · intro h
      exact ⟨rfl, hrate.2 (h rfl)⟩
  | week =>
    have hrate : n * 10080 ≤ n * 43800 := by omega
    exact ⟨fun _ => nofun, fun _ => ⟨rfl, hrate⟩⟩
  | _ => exact ⟨fun _ => nofun, fun _ => Cap.implies_refl _⟩

/-- No amount for a year is below twelve. -/
def Monthly (m : Mapping) : Prop := ∀ n, amountOf m "max_budget_cents" = some n → periodOfWord (wordOf m) = some .year → 12 ≤ n

theorem writtenBudget_carried {m : Mapping} {c : Cap} (hm : Monthly m) (hc : c ∈ writtenBudget m) :
    ∃ l ∈ (amountOf m "max_budget_cents").toList.map (carryBudget (wordOf m)), l.Implies c := by
  unfold writtenBudget at hc
  cases hamount : amountOf m "max_budget_cents" with
  | none =>
    rw [hamount] at hc
    cases hc
  | some n =>
    cases hw : periodOfWord (wordOf m) with
    | none =>
      rw [hamount, hw] at hc
      cases hc
    | some w =>
      rw [hamount, hw] at hc
      obtain rfl := List.mem_singleton.1 hc
      refine ⟨_, List.mem_cons_self, (carryBudget_implies hw n).2 ?_⟩
      rintro rfl
      exact hm n hamount hw

theorem writtenCaps_carried {m : Mapping} {c : Cap} (hm : Monthly m) (hc : c ∈ writtenCaps m) :
    ∃ l ∈ carriedCaps m, l.Implies c := by
  unfold carriedCaps
  rcases List.mem_append.1 hc with hminute | hbudget
  · exact ⟨c, List.mem_append_left _ hminute, Cap.implies_refl c⟩
  · obtain ⟨l, hl, himplies⟩ := writtenBudget_carried hm hbudget
    exact ⟨l, List.mem_append_right _ hl, himplies⟩

theorem hasCaps_of_mem {m : Mapping} {c : Cap} (hc : c ∈ writtenCaps m) : hasCaps m = true := by
  have hkey : ∀ k n, amountOf m k = some n → m.containsKey k = true := by
    intro k n h
    obtain ⟨v, hv, -⟩ := Option.bind_eq_some_iff.1 h
    rw [Mapping.containsKey_eq, hv]
    rfl
  unfold hasCaps
  unfold writtenCaps minuteCaps at hc
  rw [List.mem_append, List.mem_append, List.mem_map, List.mem_map] at hc
  rcases hc with (⟨n, hn, -⟩ | ⟨n, hn, -⟩) | hbudget
  · rw [hkey _ n (Option.mem_toList.1 hn)]
    rfl
  · rw [hkey _ n (Option.mem_toList.1 hn), Bool.or_true]
    rfl
  · unfold writtenBudget at hbudget
    cases hamount : amountOf m "max_budget_cents" with
    | none =>
      rw [hamount] at hbudget
      cases hbudget
    | some n => rw [hkey _ n hamount, Bool.or_true]

theorem groupName_string (s : String) : groupName (.string s) = "migrated-" ++ s := rfl

/-- Roles that are strings have groups of their own. -/
theorem generatedView_own {gm : Mapping} {b : Yaml} (hnamed : Named gm) (hdistinct : Mapping.Distinct gm)
    (hget : gm.get role = some b) (hcaps : hasCaps (asMap b) = true) :
    generatedView gm (groupName (.string role)) = some ⟨none, carriedCaps (asMap b)⟩ := by
  have hinj : ∀ s, groupName (.string s) = groupName (.string role) ↔ s = role := by
    intro s
    rw [groupName_string, groupName_string, ← String.toList_inj, String.toList_append, String.toList_append,
      List.append_cancel_left_eq, String.toList_inj]
  have habsent : ∀ gm : Mapping, Named gm → role ∉ gm.names → generatedView gm (groupName (.string role)) = none := by
    intro gm hnamed hrole
    unfold generatedView
    rw [Option.map_eq_none_iff, List.getLast?_eq_none_iff, List.filter_eq_nil_iff]
    rintro ⟨key, v⟩ hmem hname
    obtain ⟨s, hs⟩ := hnamed _ hmem
    dsimp only at hs hname
    subst hs
    rw [Bool.and_eq_true, decide_eq_true_eq, hinj] at hname
    obtain ⟨-, rfl⟩ := hname
    exact hrole (Mapping.mem_names.2 ⟨v, hmem⟩)
  induction gm with
  | nil => cases hget
  | cons e gm ih =>
    obtain ⟨key, v⟩ := e
    obtain ⟨s, hs⟩ := hnamed _ List.mem_cons_self
    dsimp only at hs
    subst hs
    have htail : Named gm := fun e he => hnamed e (List.mem_cons_of_mem _ he)
    rw [Mapping.get_cons] at hget
    rw [generatedView_cons]
    by_cases hs : s = role
    · subst hs
      rw [if_pos (Mapping.isKey_self s)] at hget
      obtain rfl := Option.some.inj hget
      rw [habsent gm htail (List.nodup_cons.1 hdistinct).1, if_pos ⟨hcaps, rfl⟩, Option.none_or]
    · have hno : Mapping.isKey role (.string s) = false := by
        rw [Bool.eq_false_iff, ne_eq, Mapping.isKey_iff, Yaml.string.injEq]
        exact hs
      rw [hno, if_neg Bool.false_ne_true] at hget
      rw [ih htail (List.nodup_cons.1 hdistinct).2 hget]
      rfl

/-- Nothing is in the way of the groups: no role with caps names another group, no budget group has the name of one that is
generated, and no year has less than one unit a month. -/
structure Plain (root : Mapping) : Prop where
  auth : AuthOk root
  table : (baseGroups root).isSome = true
  named : ∀ gm, writtenRoles root = some gm → Named gm
  distinct : ∀ gm, writtenRoles root = some gm → Mapping.Distinct gm
  unnamed : ∀ gm role b, writtenRoles root = some gm → gm.get role = some b → hasCaps (asMap b) = true →
    namedGroup (asMap b) = none
  fresh : ∀ gm name g, budgetGroupsOf root = some gm → gm.get name = some g → generatedGroups root name = none
  roleMonthly : ∀ gm role b, writtenRoles root = some gm → gm.get role = some b → Monthly (asMap b)
  budgetMonthly : ∀ gm name g, budgetGroupsOf root = some gm → gm.get name = some g → Monthly (asMap g)

/-- **Plain documents are covered.** -/
theorem Plain.covered (h : Plain root) : Covered root := by
  obtain ⟨base, hbase⟩ := Option.isSome_iff_exists.1 h.table
  constructor
  · intro gm role b c hgm hb hc
    have hcaps := hasCaps_of_mem hc
    obtain ⟨l, hl, himplies⟩ := writtenCaps_carried (h.roleMonthly gm role b hgm hb) hc
    refine ⟨groupName (.string role), ?_, groupName (.string role), ⟨none, carriedCaps (asMap b)⟩, .here _, ?_, l, hl, himplies⟩
    · unfold sourceGroup boundGroup
      rw [if_pos h.auth, h.unnamed gm role b hgm hb hcaps, if_pos hcaps]
      rfl
    · unfold sourceGroups generatedGroups
      rw [hbase, Option.bind_some, if_pos h.auth, hgm, Option.bind_some,
        generatedView_own (h.named gm hgm) (h.distinct gm hgm) hb hcaps, Option.some_or]
  · intro gm name g c hgm hg hc
    obtain ⟨l, hl, himplies⟩ := writtenBudget_carried (h.budgetMonthly gm name g hgm hg) hc
    refine ⟨name, budgetView g, .here _, ?_, l, ?_, himplies⟩
    · unfold sourceGroups
      rw [h.fresh gm name g hgm hg]
      unfold baseGroups
      rw [hgm]
      dsimp only
      rw [Option.bind_some, Option.none_or]
      dsimp only
      rw [hg, Option.map_some]
    · unfold budgetView
      unfold amountOf at hl
      cases hamount : (asMap g).get "max_budget_cents" with
      | none =>
        rw [hamount] at hl
        cases hl
      | some v =>
        rw [hamount] at hl
        exact hl

/-! ## The passes that change the block -/

theorem migrateAdminAuth_keeps : Keeps root (migrateAdminAuth root).value := by
  unfold migrateAdminAuth take
  have hremoved : Keeps root (root.swapRemove "admin_auth") :=
    (changes_swapRemove (List.mem_singleton_self "admin_auth") root).keeps (by decide) (by decide)
  cases root.get "admin_auth" with
  | none => exact hremoved
  | some top =>
    refine (hremoved.trans (keeps_orEmpty _)).trans ?_
    dsimp only
    generalize orEmpty "auth" (root.swapRemove "admin_auth") = root1
    split
    · exact Keeps.refl _
    · next auth hauth =>
      refine keeps_insert hauth (?_ : Changes ["admin_auth"] auth _) (by decide)
      have htaken : Changes ["admin_auth"] auth (auth.swapRemove "admin_auth") := changes_swapRemove (by decide) auth
      generalize ((auth.get "admin_auth").bind Yaml.asSequence).getD [] ++ addNames _ _ = list
      split
      · exact htaken
      · exact htaken.trans (changes_insert (by decide) _ _)

theorem migrateDroppedScopes_keeps : Keeps root (migrateDroppedScopes root).value := by
  intro hsound
  obtain ⟨hdistinct, hget⟩ := migrateDroppedScopes_changes hsound.distinct
  refine ⟨⟨hdistinct, fun auth' h => ?_⟩, hget _ (by decide), ?_⟩
  · unfold authOf migrateDroppedScopes at h
    rw [get_atMapping, if_pos rfl, Option.bind_map] at h
    obtain ⟨v, hv, hrewritten⟩ := Option.bind_eq_some_iff.1 h
    rw [Function.comp_apply, mapping?_onMapping] at hrewritten
    obtain ⟨auth, hauth, rfl⟩ := Option.map_eq_some_iff.1 hrewritten
    have hauthDistinct := hsound.auth auth (Option.bind_eq_some_iff.2 ⟨v, hv, hauth⟩)
    simp only [value_bind]
    have hall : ∀ (k : String) (f : Yaml → Logged Yaml) (m : Mapping), k ∈ ["chain", "admin_auth", "role_bindings"] →
        Changes ["chain", "admin_auth", "role_bindings"] m (atKey k f m).value := fun k f m hk => changes_atKey hk f m
    exact (((hall "chain" _ auth (by decide)).trans (hall "admin_auth" _ _ (by decide))).trans
      (hall "role_bindings" _ _ (by decide)) hauthDistinct).1
  · funext module role
    unfold boundOf authOf migrateDroppedScopes
    rw [get_atMapping, if_pos rfl, Option.bind_map, Option.bind_assoc, Option.bind_assoc]
    refine congrArg _ (funext fun v => ?_)
    rw [Function.comp_apply, mapping?_onMapping]
    cases v.mapping? with
    | none => rfl
    | some auth =>
      rw [Option.map_some, Option.bind_some, Option.bind_some]
      simp only [value_bind]
      -- the lists of the block are not looked up, and a scope is not a group
      have hchain : ∀ f m, (atSequence "chain" f m).value.get "role_bindings" = Mapping.get m "role_bindings" :=
        fun f m => (get_atKey ..).trans (if_neg (by decide))
      have hadmin : ∀ f m, (atSequence "admin_auth" f m).value.get "role_bindings" = Mapping.get m "role_bindings" :=
        fun f m => (get_atKey ..).trans (if_neg (by decide))
      have hscope : ∀ f m, (atKey "admin_scope" f m).value.get "group" = Mapping.get m "group" :=
        fun f m => (get_atKey ..).trans (if_neg (by decide))
      unfold boundIn
      rw [get_atMapping, if_pos rfl, hadmin, hchain]
      cases auth.get "role_bindings" with
      | none => rfl
      | some rb =>
        rw [Option.map_some, Option.bind_some, Option.bind_some, mapping?_onMapping]
        cases rb.mapping? with
        | none => rfl
        | some bindings =>
          rw [Option.map_some, Option.bind_some, Option.bind_some, get_mapValues]
          cases bindings.get module with
          | none => rfl
          | some table =>
            rw [Option.map_some, Option.bind_some, Option.bind_some, mapping?_onMapping]
            cases table.mapping? with
            | none => rfl
            | some roles =>
              rw [Option.map_some, Option.bind_some, Option.bind_some, get_mapValues]
              cases roles.get role with
              | none => rfl
              | some binding =>
                rw [Option.map_some, Option.bind_some, Option.bind_some, mapping?_onMapping]
                cases binding.mapping? with
                | none => rfl
                | some b => rw [Option.map_some, Option.bind_some, Option.bind_some, hscope]

theorem migratePoolsUpstreamCredentials_keeps : Keeps root (migratePoolsUpstreamCredentials root).value := by
  unfold migratePoolsUpstreamCredentials take
  split
  · exact Keeps.refl _
  · next auth hauth =>
    have hwritten : Keeps root (Mapping.insert "auth" (.mapping (auth.swapRemove "upstream_credentials")) root) :=
      keeps_insert hauth (changes_swapRemove (List.mem_singleton_self _) auth) (by decide)
    have hpools : ∀ v m, Keeps m (Mapping.insert "pools" v m) :=
      fun v m => (changes_insert (List.mem_singleton_self "pools") v m).keeps (by decide) (by decide)
    cases auth.get "upstream_credentials" with
    | none => exact Keeps.refl _
    | some mode =>
      dsimp only
      split
      · exact hwritten.trans (hpools _ _)
      · exact hwritten.trans (hpools _ _)

def liftKeys : List String := ["chain", "admin_auth", "methods"]

theorem liftPlane_changes (plane : String) (hp : plane ∈ liftKeys) (s : Lifting) :
    Changes liftKeys s.auth (liftPlane plane s).value.auth := by
  unfold liftPlane
  split
  · exact Changes.refl _ _
  · exact changes_insert hp _ _

theorem liftAuth_changes (s : Lifting) : Changes liftKeys s.auth (liftAuth s).value.auth := by
  have hchain := liftPlane_changes "chain" (by decide) s
  have hadmin : ∀ s, Changes liftKeys s.auth (liftPlane "admin_auth" s).value.auth := liftPlane_changes "admin_auth" (by decide)
  exact (hchain.trans (hadmin _)).trans (changes_swapRemove (by decide) _)

theorem migrateIdentityProviders_keeps : Keeps root (migrateIdentityProviders lib root).value := by
  intro hsound
  have hchanges : Changes ["auth", "identity-providers"] root (migrateIdentityProviders lib root).value :=
    migrateIdentityProviders_changes
  have hsplit : (authOf root = none ∧ authOf (migrateIdentityProviders lib root).value = none) ∨
      ∃ auth auth', authOf root = some auth ∧ authOf (migrateIdentityProviders lib root).value = some auth' ∧
        Changes liftKeys auth auth' := by
    have hwritten : ∀ auth defs m, ∃ auth', authOf (migrateProviderDefs auth defs m).value = some auth' ∧
        Changes liftKeys auth auth' := by
      intro auth defs m
      refine ⟨_, ?_, liftAuth_changes ⟨auth, .ofDefs defs⟩⟩
      unfold migrateProviderDefs
      rw [value_bind]
      generalize (liftAuth ⟨auth, .ofDefs defs⟩).value = s
      change authOf (writeProviders s m) = some s.auth
      unfold writeProviders
      dsimp only
      split
      · exact authOf_insert s.auth m
      · refine (authOf_congr ?_).trans (authOf_insert s.auth m)
        exact (Mapping.get_insert ..).trans (if_neg (by decide))
    unfold migrateIdentityProviders take
    cases hauth : root.get "auth" with
    | none =>
      refine Or.inl ⟨by unfold authOf; rw [hauth]; rfl, ?_⟩
      unfold authOf
      exact congrArg (fun o => Option.bind o Yaml.mapping?) ((Mapping.get_swapRemove hsound.distinct ..).trans (if_pos rfl))
    | some v =>
      cases v with
      | mapping auth =>
        have hold : authOf root = some auth := by
          unfold authOf
          rw [hauth]
          rfl
        dsimp only
        cases (root.swapRemove "auth").get "identity-providers" with
        | none =>
          obtain ⟨auth', hnew, hblock⟩ := hwritten auth [] ((root.swapRemove "auth").swapRemove "identity-providers")
          exact Or.inr ⟨auth, auth', hold, hnew, hblock⟩
        | some w =>
          cases w with
          | mapping defs =>
            obtain ⟨auth', hnew, hblock⟩ := hwritten auth defs ((root.swapRemove "auth").swapRemove "identity-providers")
            exact Or.inr ⟨auth, auth', hold, hnew, hblock⟩
          | _ =>
            refine Or.inr ⟨auth, auth, hold, ?_, Changes.refl _ _⟩
            refine (authOf_congr ?_).trans (authOf_insert auth ((root.swapRemove "auth").swapRemove "identity-providers"))
            exact (Mapping.get_insert ..).trans (if_neg (by decide))
      | _ =>
        refine Or.inl ⟨by unfold authOf; rw [hauth]; rfl, ?_⟩
        unfold authOf
        exact congrArg (fun o => Option.bind o Yaml.mapping?) ((Mapping.get_insert ..).trans (if_pos rfl))
  rcases hsplit with ⟨hold, hnew⟩ | ⟨auth, auth', hold, hnew, hblock⟩
  · obtain ⟨hdistinct, hget⟩ := hchanges hsound.distinct
    have hsame : authOf (migrateIdentityProviders lib root).value = authOf root := hnew.trans hold.symm
    exact ⟨⟨hdistinct, fun auth h => hsound.auth auth (hsame ▸ h)⟩, hget _ (by decide), boundOf_congr hsame⟩
  · exact hchanges.keeps_block (by decide) hold hnew hblock (by decide) hsound

/-! ## The run -/

/-- The passes after the role map. -/
def latePasses (lib : YamlLib) (root : Mapping) : Logged Mapping := do
  let root ← migrateAdminAuth root
  let root ← migrateDroppedScopes root
  let root ← migrateProviders root
  let root ← migrateHooksBlock lib root
  let root ← migratePools lib root
  let root ← migrateHookStages root
  let root ← migrateObservability root
  let root ← migrateResponseHeaders lib root
  let root ← migrateObservabilityExport lib root
  let root ← migrateExportNamedMap root
  let root ← migrateObservabilityBlock lib root
  let root ← migrateExportProjection lib root
  let root ← migrateAdminRequireMtls root
  let root ← migratePoolsUpstreamCredentials root
  let root ← migrateIdentityProviders lib root
  migrateStoreModule lib root

theorem keeps_bind {m : Logged Mapping} {f : Mapping → Logged Mapping} (h : Keeps root m.value)
    (hf : ∀ root, Keeps root (f root).value) : Keeps root (m >>= f).value := by
  rw [value_bind]
  exact h.trans (hf _)

/-- **No later pass touches a group, or the group of a binding.** -/
theorem latePasses_keeps (lib : YamlLib) (root : Mapping) : Keeps root (latePasses lib root).value := by
  unfold latePasses
  refine keeps_bind migrateAdminAuth_keeps fun root => ?_
  refine keeps_bind migrateDroppedScopes_keeps fun root => ?_
  -- hooks and pools
  refine keeps_bind (migrateProviders_changes.keeps (by decide) (by decide)) fun root => ?_
  refine keeps_bind (migrateHooksBlock_changes.keeps (by decide) (by decide)) fun root => ?_
  refine keeps_bind (migratePools_changes.keeps (by decide) (by decide)) fun root => ?_
  refine keeps_bind (migrateHookStages_changes.keeps (by decide) (by decide)) fun root => ?_
  -- observability and export
  refine keeps_bind (migrateObservability_changes.keeps (by decide) (by decide)) fun root => ?_
  refine keeps_bind (migrateResponseHeaders_changes.keeps (by decide) (by decide)) fun root => ?_
  refine keeps_bind (migrateObservabilityExport_changes.keeps (by decide) (by decide)) fun root => ?_
  refine keeps_bind (migrateExportNamedMap_changes.keeps (by decide) (by decide)) fun root => ?_
  refine keeps_bind (migrateObservabilityBlock_changes.keeps (by decide) (by decide)) fun root => ?_
  refine keeps_bind (migrateExportProjection_changes.keeps (by decide) (by decide)) fun root => ?_
  -- the rest
  refine keeps_bind (migrateAdminRequireMtls_changes.keeps (by decide) (by decide)) fun root => ?_
  refine keeps_bind migratePoolsUpstreamCredentials_keeps fun root => ?_
  refine keeps_bind migrateIdentityProviders_keeps fun root => ?_
  exact migrateStoreModule_changes.keeps (by decide) (by decide)

/-- **The table of a run**, and its bindings. -/
structure AfterRun (root out : Mapping) : Prop where
  groups : ∀ name, groupsOf out name = sourceGroups root name
  bound : ∀ gm role b g, writtenRoles root = some gm → gm.get role = some b →
    (BoundTo out role g ↔ sourceGroup root role b = some g)

theorem migratePasses_eq (lib : YamlLib) (root : Mapping) : migratePasses lib root = (do
    let root ← migrateGovernance lib root
    let root ← migrateAuth root
    latePasses lib root) := by
  unfold migratePasses latePasses
  rfl

theorem after_migratePasses (h : Parsed root) : AfterRun root (migratePasses lib root).value := by
  have hgovernance : AfterGovernance root (migrateGovernance lib root).value := after_migrateGovernance h
  rw [migratePasses_eq, value_bind, value_bind]
  generalize (migrateGovernance lib root).value = root1 at hgovernance ⊢
  have hroles : writtenRoles root1 = writtenRoles root := by
    unfold writtenRoles
    rw [hgovernance.groupMap, hgovernance.authKeys _ (by decide)]
  have hauth := after_migrateAuth hgovernance.toSound (fun gm hgm => h.roles gm (hroles ▸ hgm))
  generalize (migrateAuth root1).value = root2 at hauth ⊢
  obtain ⟨-, hgroups, hbound⟩ := latePasses_keeps lib root2 hauth.toSound
  refine ⟨fun name => ?_, fun gm role b g hgm hb => ?_⟩
  · have hgenerated : generatedGroups root1 name = generatedGroups root name := by
      unfold generatedGroups
      rw [hroles]
      simp only [hgovernance.authOk]
    rw [groupsOf_eq, hgroups, ← groupsOf_eq, hauth.groups, tableOf_after hgovernance h.budgets, hgenerated]
    rfl
  · have hsame : BoundTo (latePasses lib root2).value role g ↔ BoundTo root2 role g := by
      unfold BoundTo
      rw [hbound]
    rw [hsame, hauth.bound gm role g (hroles.trans hgm), hb, hgovernance.authOk]
    unfold sourceGroup
    rw [Option.bind_some]
    by_cases hok : AuthOk root
    · rw [if_pos hok]
      exact and_iff_right hok
    · rw [if_neg hok]
      exact ⟨fun h => absurd h.1 hok, nofun⟩

theorem migrateConfig_doc {out : MigrateOutput} (h : migrateConfig lib root = some out) :
    out.doc = (migratePasses lib root).value := by
  unfold migrateConfig at h
  generalize migratePasses lib root = run at h ⊢
  dsimp only at h
  split at h
  · cases h
  · exact (Option.some.inj h) ▸ rfl

/-- In the document of a run, the caps hold if they hold in the table. -/
theorem AfterRun.capsKept_iff {out : Mapping} (h : AfterRun root out) : CapsKept root out ↔ Covered root := by
  have htable : groupsOf out = sourceGroups root := funext h.groups
  constructor
  · rintro ⟨hroles, hbudgets⟩
    rw [htable] at hroles hbudgets
    refine ⟨fun gm role b c hgm hb hc => ?_, hbudgets⟩
    obtain ⟨g, hg, hholds⟩ := hroles gm role b c hgm hb hc
    exact ⟨g, (h.bound gm role b g hgm hb).1 hg, hholds⟩
  · rintro ⟨hroles, hbudgets⟩
    rw [← htable] at hroles hbudgets
    refine ⟨fun gm role b c hgm hb hc => ?_, hbudgets⟩
    obtain ⟨g, hg, hholds⟩ := hroles gm role b c hgm hb hc
    exact ⟨g, (h.bound gm role b g hgm hb).2 hg, hholds⟩

theorem after_migrateConfig {out : MigrateOutput} {doc : Document} (h : migrateConfig lib doc.root = some out) :
    AfterRun doc.root out.doc := by
  rw [migrateConfig_doc h]
  exact after_migratePasses (parsed doc)

/-- A library that prints nothing. -/
def blankLib : YamlLib := ⟨fun _ => "", fun _ => .posInt 0⟩

def amount (n : Nat) : Yaml := .number (.posInt n)

/-- A role with caps of its own, and a budget group for a year. -/
def ownCaps : Document where
  root := [(str "governance", .mapping [(str "budget_groups", .mapping [(str "finance", .mapping
      [(str "max_budget_cents", amount 1200), (str "budget_period", str "yearly")])])]),
    (str "group_map", .mapping [(str "ops", .mapping
      [(str "rpm_limit", amount 10), (str "max_budget_cents", amount 100), (str "budget_period", str "weekly")])])]
  keyed := by decide

theorem covered_ownCaps : Covered ownCaps.root := by
  have hops : sourceGroups ownCaps.root "migrated-ops" =
      some ⟨none, [⟨.requests, 10, .minute⟩, ⟨.budget, 100, .month⟩]⟩ := rfl
  have hfinance : sourceGroups ownCaps.root "finance" = some ⟨none, [⟨.budget, 100, .month⟩]⟩ := rfl
  constructor
  · intro gm role b c hgm hb hc
    obtain rfl := Option.some.inj hgm
    rw [Mapping.get_cons] at hb
    split at hb
    · next hrole =>
      obtain rfl := Option.some.inj hb
      obtain rfl := Yaml.string.inj (Mapping.isKey_iff.1 hrole)
      refine ⟨"migrated-ops", rfl, "migrated-ops", _, .here _, hops, ?_⟩
      have hcaps : c ∈ ([⟨.requests, 10, .minute⟩, ⟨.budget, 100, .week⟩] : List Cap) := hc
      simp only [List.mem_cons, List.not_mem_nil, or_false] at hcaps
      rcases hcaps with rfl | rfl
      · exact ⟨_, List.mem_cons_self, rfl, show 10 * 1 ≤ 10 * 1 by decide⟩
      · exact ⟨_, List.mem_cons_of_mem _ List.mem_cons_self, rfl, show 100 * 10080 ≤ 100 * 43800 by decide⟩
    · cases hb
  · intro gm name g c hgm hg hc
    obtain rfl := Option.some.inj hgm
    rw [Mapping.get_cons] at hg
    split at hg
    · next hname =>
      obtain rfl := Option.some.inj hg
      obtain rfl := Yaml.string.inj (Mapping.isKey_iff.1 hname)
      obtain rfl := List.mem_singleton.1 hc
      exact ⟨"finance", _, .here _, hfinance, _, List.mem_cons_self, rfl, show 100 * 525600 ≤ 1200 * 43800 by decide⟩
    · cases hg

/-- A role with a budget of its own that names a group with a larger one. -/
def namedGroupCaps : Document where
  root := [(str "governance", .mapping [(str "budget_groups", .mapping [(str "finance", .mapping
      [(str "max_budget_cents", amount 100000), (str "budget_period", str "monthly")])])]),
    (str "group_map", .mapping [(str "ops", .mapping
      [(str "budget_group", str "finance"), (str "max_budget_cents", amount 100), (str "budget_period", str "monthly")])])]
  keyed := by decide

/-- A group without a parent is the whole way up. -/
theorem Chain.eq_of_parent {table : String → Option GroupView} {g h : String} {caps : List Cap}
    (hg : table g = some ⟨none, caps⟩) (hchain : Chain table g h) : h = g := by
  cases hchain with
  | here => rfl
  | up hv hparent _ =>
    rw [hg] at hv
    obtain rfl := Option.some.inj hv
    cases hparent

/-- **The table of a run.** The groups of the output are those that the document of old stands for, and so are the bindings. -/
theorem table_kept (lib : YamlLib) (doc : Document) (out : MigrateOutput) (h : migrateConfig lib doc.root = some out) :
    (∀ name, groupsOf out.doc name = sourceGroups doc.root name) ∧
    ∀ gm role b g, writtenRoles doc.root = some gm → gm.get role = some b →
      (BoundTo out.doc role g ↔ sourceGroup doc.root role b = some g) :=
  ⟨(after_migrateConfig h).groups, (after_migrateConfig h).bound⟩

theorem table_kept_ownCaps : ∃ out, migrateConfig blankLib ownCaps.root = some out ∧
    groupsOf out.doc "migrated-ops" = some ⟨none, [⟨.requests, 10, .minute⟩, ⟨.budget, 100, .month⟩]⟩ := by
  have hsome : (migrateConfig blankLib ownCaps.root).isSome = true := by decide +kernel
  obtain ⟨out, hout⟩ := Option.isSome_iff_exists.1 hsome
  exact ⟨out, hout, (table_kept blankLib ownCaps out hout).1 "migrated-ops"⟩

end Busbar.Migrate
