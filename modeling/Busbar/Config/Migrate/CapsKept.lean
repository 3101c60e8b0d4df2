import Busbar.Config.Migrate.Caps

/-!
# The groups of a document, before and after

What a document of the old format says of groups is a table, and the groups of the migrated document are that table: the
generated groups before the budget groups, or before the groups that are there if there are no budget groups.

* `sourceGroups`, `sourceGroup`: the table, and the group of a role in it.
* `CapsKept`, `Covered`: caps implied on the way up, in the migrated document and in the table.
* `after_migrateGovernance`, `after_migrateAuth`: what the two passes that write groups leave.
-/

namespace Busbar.Migrate

open Logged

variable {lib : YamlLib} {root root' : Mapping} {b : Block} {name role : String}

/-! ## The table of a document -/

/-- The block of budget groups. -/
def budgetGroupsOf (root : Mapping) : Option Mapping :=
  ((root.get "governance").bind Yaml.mapping?).bind fun gov => (gov.get "budget_groups").bind Yaml.mapping?

/-- The authentication block, if it is a mapping. -/
def authOf (root : Mapping) : Option Mapping := (root.get "auth").bind Yaml.mapping?

/-- The block is a mapping, or there is none. -/
def AuthOk (root : Mapping) : Prop := root.get "auth" = none ∨ (authOf root).isSome = true

instance : Decidable (AuthOk root) :=
  if h : (root.get "auth").isNone ∨ (authOf root).isSome = true then
    isTrue (h.imp (fun hnone => Option.isNone_iff_eq_none.1 hnone) id)
  else isFalse fun hok => h (hok.imp (fun hnone => Option.isNone_iff_eq_none.2 hnone) id)

/-- The role map that is written: the one of the document, or else one under `auth`. -/
def writtenRoles (root : Mapping) : Option Mapping :=
  (((root.get "group_map").or ((authOf root).bind fun auth => auth.get "group_map"))).bind Yaml.mapping?

/-- The groups as they are written: a table, unless there is something else in their place. -/
def tableOf : Option Yaml → Option (String → Option GroupView)
  | none => some fun _ => none
  | some (.mapping groups) => some fun name => (Mapping.get groups name).map groupView
  | some _ => none

/-- What is under the names that no role generates: the budget groups, or else the groups that are there. -/
def baseGroups (root : Mapping) : Option (String → Option GroupView) :=
  match budgetGroupsOf root with
  | some gm => some fun name => (gm.get name).map budgetView
  | none => tableOf (root.get "groups")

/-- The groups generated for roles, if the role map is migrated. -/
def generatedGroups (root : Mapping) (name : String) : Option GroupView :=
  if AuthOk root then (writtenRoles root).bind fun gm => generatedView gm name else none

/-- **The table of a document of the old format.** -/
def sourceGroups (root : Mapping) (name : String) : Option GroupView :=
  (baseGroups root).bind fun base => (generatedGroups root name).or (base name)

/-- The group that a role of the map stands under. -/
def sourceGroup (root : Mapping) (role : String) (b : Yaml) : Option String :=
  if AuthOk root then (boundGroup (.string role) (asMap b)).bind Yaml.asStr else none

/-- The group in the binding of a role of a module. -/
def boundIn (auth : Mapping) (module role : String) : Option String :=
  ((((((auth.get "role_bindings").bind Yaml.mapping?).bind fun bindings => bindings.get module).bind Yaml.mapping?).bind
    fun roles => roles.get role).bind Yaml.mapping?).bind fun binding => (binding.get "group").bind Yaml.asStr

def boundOf (root : Mapping) (module role : String) : Option String :=
  (authOf root).bind fun auth => boundIn auth module role

/-- A binding of the role in a document of the new format has this group. -/
def BoundTo (root : Mapping) (role g : String) : Prop := ∃ module, boundOf root module role = some g

/-- Every cap of a role is implied on the way up from the group of its binding, every cap of a budget group on the way up
from the group. -/
structure CapsKept (root out : Mapping) : Prop where
  roles : ∀ gm role b c, writtenRoles root = some gm → gm.get role = some b → c ∈ writtenCaps (asMap b) →
    ∃ g, BoundTo out role g ∧ Holds (groupsOf out) g c
  groups : ∀ gm name g c, budgetGroupsOf root = some gm → gm.get name = some g → c ∈ writtenBudget (asMap g) →
    Holds (groupsOf out) name c

/-- The same of the table, without the migration. -/
structure Covered (root : Mapping) : Prop where
  roles : ∀ gm role b c, writtenRoles root = some gm → gm.get role = some b → c ∈ writtenCaps (asMap b) →
    ∃ g, sourceGroup root role b = some g ∧ Holds (sourceGroups root) g c
  groups : ∀ gm name g c, budgetGroupsOf root = some gm → gm.get name = some g → c ∈ writtenBudget (asMap g) →
    Holds (sourceGroups root) name c

/-! ## The governance block -/

/-- What the steps before the budget groups take. -/
def earlyKeys : List String :=
  ["store", "db_path", "sqlite_busy_timeout_ms", "rate_card", "price_per_request_cents", "price_per_1k_tokens_cents"]

theorem gov_migrateStore : Changes earlyKeys b.gov (migrateStore b).value.gov :=
  (changes_swapRemove (by decide) b.gov).trans ((changes_swapRemove (by decide) _).trans (changes_swapRemove (by decide) _))

theorem gov_liftKey {k home text : String} (hk : k ∈ earlyKeys) : Changes earlyKeys b.gov (liftKey k home text b).value.gov := by
  unfold liftKey take
  cases b.gov.get k with
  | none => exact changes_swapRemove hk _
  | some v => exact changes_swapRemove hk _

theorem gov_migratePrice : Changes earlyKeys b.gov (migratePrice lib b).value.gov := by
  have hremoved : Changes earlyKeys b.gov (b.gov.swapRemove "price_per_1k_tokens_cents") := changes_swapRemove (by decide) _
  unfold migratePrice take
  cases b.gov.get "price_per_1k_tokens_cents" with
  | none => exact hremoved
  | some p1k =>
    dsimp only
    cases b.root.get "rate_card" with
    | none => exact hremoved
    | some old => cases old <;> exact hremoved

/-- Nothing that is taken before the budget groups is theirs. -/
theorem gov_migrateMoney : Changes earlyKeys b.gov (migrateMoney lib b).value.gov := by
  refine gov_migrateStore.trans (Changes.trans ?_ gov_migratePrice)
  exact Changes.trans (gov_liftKey (by decide)) (gov_liftKey (by decide))

/-- The groups, once the budget groups are written. -/
theorem groups_migrateBudgetGroups (lib : YamlLib) (b : Block) : (migrateBudgetGroups lib b).value.root.get "groups" =
    match (b.gov.get "budget_groups").bind Yaml.mapping? with
    | some gm => some (.mapping (mapValues budgetGroup gm).value)
    | none => b.root.get "groups" := by
  unfold migrateBudgetGroups
  rw [value_bind, value_takeMapping]
  cases b.gov.get "budget_groups" with
  | none => rfl
  | some v =>
    cases v with
    | mapping gm => exact (Mapping.get_insert _ _ _ _).trans (if_pos rfl)
    | _ => rfl

/-- The token goes under `auth`, which stays a mapping or none. -/
theorem auth_migrateAdminToken : (authOf (migrateAdminToken b).value.root = authOf b.root ∧
      ((migrateAdminToken b).value.root.get "auth" = none ↔ b.root.get "auth" = none)) ∨
    ∃ auth v, (authOf b.root = some auth ∨ (b.root.get "auth" = none ∧ auth = [])) ∧
      authOf (migrateAdminToken b).value.root = some (Mapping.insert "admin_auth" v auth) := by
  unfold migrateAdminToken take
  cases b.gov.get "admin_token" with
  | none => exact Or.inl ⟨rfl, Iff.rfl⟩
  | some token =>
    have hget : ∀ f : Mapping → Logged Mapping, (atMapping "auth" f (orEmpty "auth" b.root)).value.get "auth" =
        some (onMapping f ((b.root.get "auth").getD (.mapping []))).value := by
      intro f
      rw [get_atMapping, if_pos rfl, get_orEmpty, if_pos rfl, Option.map_some]
    dsimp only
    simp only [value_bind, value_pure, authOf, hget]
    cases b.root.get "auth" with
    | none => exact Or.inr ⟨[], _, Or.inr ⟨rfl, rfl⟩, rfl⟩
    | some v =>
      cases v with
      | mapping auth => exact Or.inr ⟨auth, _, Or.inl rfl, rfl⟩
      | _ => exact Or.inl ⟨rfl, ⟨nofun, nofun⟩⟩

/-- The document and its authentication block have distinct keys. -/
structure Sound (root : Mapping) : Prop where
  distinct : Mapping.Distinct root
  auth : ∀ auth, authOf root = some auth → Mapping.Distinct auth

/-- So have the governance block and what it says of groups and the role map of roles. -/
structure Parsed (root : Mapping) : Prop extends Sound root where
  governance : ∀ gov, (root.get "governance").bind Yaml.mapping? = some gov → Mapping.Distinct gov
  budgets : ∀ gm, budgetGroupsOf root = some gm → ∀ e ∈ gm, Mapping.Distinct (asMap e.2)
  roles : ∀ gm, writtenRoles root = some gm → ∀ e ∈ gm, Mapping.Distinct (asMap e.2)

/-- Every document that is parsed is such. -/
theorem parsed (doc : Document) : Parsed doc.root := by
  have hkeyed : ∀ {m : Mapping} {k : String} {m' : Mapping}, (Yaml.mapping m).keyed = true →
      (m.get k).bind Yaml.mapping? = some m' → (Yaml.mapping m').keyed = true := by
    intro m k m' hm h
    obtain ⟨v, hget, hv⟩ := Option.bind_eq_some_iff.1 h
    rw [Yaml.mapping?_eq_some] at hv
    subst hv
    exact Mapping.keyed_get hm hget
  have hdistinct : ∀ {m : Mapping}, (Yaml.mapping m).keyed = true → Mapping.Distinct m :=
    fun h => (Mapping.keyed_mapping.1 h).1
  have hentries : ∀ {m : Mapping}, (Yaml.mapping m).keyed = true → ∀ e ∈ m, Mapping.Distinct (asMap e.2) := by
    intro m hm e he
    have hvalue := (Mapping.keyed_mapping.1 hm).2 e he
    cases hv : e.2 with
    | mapping mm =>
      rw [hv] at hvalue
      exact hdistinct hvalue
    | _ => exact List.nodup_nil
  refine ⟨⟨hdistinct doc.keyed, fun auth h => hdistinct (hkeyed doc.keyed h)⟩, fun gov h => hdistinct (hkeyed doc.keyed h),
    fun gm h => ?_, fun gm h => ?_⟩
  · obtain ⟨gov, hgov, hgm⟩ := Option.bind_eq_some_iff.1 h
    exact hentries (hkeyed (hkeyed doc.keyed hgov) hgm)
  · obtain ⟨v, hv, hgm⟩ := Option.bind_eq_some_iff.1 h
    rw [Yaml.mapping?_eq_some] at hgm
    subst hgm
    -- the role map stands in the document or in the block
    cases htop : doc.root.get "group_map" with
    | some w =>
      rw [htop, Option.some_or] at hv
      obtain rfl := Option.some.inj hv
      exact hentries (Mapping.keyed_get doc.keyed htop)
    | none =>
      rw [htop, Option.none_or] at hv
      obtain ⟨auth, hauth, hnested⟩ := Option.bind_eq_some_iff.1 hv
      exact hentries (Mapping.keyed_get (hkeyed doc.keyed hauth) hnested)

/-- What the governance pass leaves for the next one. -/
structure AfterGovernance (root root' : Mapping) : Prop extends Sound root' where
  groupMap : root'.get "group_map" = root.get "group_map"
  groups : root'.get "groups" = match budgetGroupsOf root with
    | some gm => some (.mapping (mapValues budgetGroup gm).value)
    | none => root.get "groups"
  authOk : AuthOk root' ↔ AuthOk root
  authKeys : ∀ k, k ≠ "admin_auth" → ((authOf root').bind fun auth => auth.get k) = (authOf root).bind fun auth => auth.get k

theorem authOf_congr {m m' : Mapping} (h : m'.get "auth" = m.get "auth") : authOf m' = authOf m := by
  unfold authOf
  rw [h]

theorem authOk_congr {m m' : Mapping} (h : m'.get "auth" = m.get "auth") : AuthOk m' ↔ AuthOk m := by
  unfold AuthOk
  rw [authOf_congr h, h]

/-- The token is all that the block puts under `auth`. -/
theorem after_migrateAdminToken (hauth : ∀ auth, authOf b.root = some auth → Mapping.Distinct auth) :
    (AuthOk (migrateAdminToken b).value.root ↔ AuthOk b.root) ∧
    (∀ auth, authOf (migrateAdminToken b).value.root = some auth → Mapping.Distinct auth) ∧
    ∀ k, k ≠ "admin_auth" → ((authOf (migrateAdminToken b).value.root).bind fun auth => auth.get k) =
      (authOf b.root).bind fun auth => auth.get k := by
  rcases auth_migrateAdminToken (b := b) with ⟨hsame, hnone⟩ | ⟨auth, v, hold, hnew⟩
  · unfold AuthOk
    rw [hsame, hnone]
    exact ⟨Iff.rfl, hauth, fun k _ => rfl⟩
  · have hdistinct : Mapping.Distinct auth := by
      rcases hold with hold | ⟨-, rfl⟩
      · exact hauth auth hold
      · exact List.nodup_nil
    refine ⟨?_, ?_, ?_⟩
    · unfold AuthOk
      rw [hnew]
      refine ⟨fun _ => ?_, fun _ => Or.inr rfl⟩
      rcases hold with hold | ⟨hold, -⟩
      · exact Or.inr (by rw [hold]; rfl)
      · exact Or.inl hold
    · intro auth' h
      rw [hnew] at h
      obtain rfl := Option.some.inj h
      exact Mapping.distinct_insert hdistinct _ _
    · intro k hk
      rw [hnew, Option.bind_some, Mapping.get_insert, if_neg hk]
      rcases hold with hold | ⟨hold, rfl⟩
      · rw [hold, Option.bind_some]
      · have hnone : authOf b.root = none := by
          unfold authOf
          rw [hold]
          rfl
        rw [hnone]
        rfl

theorem after_migrateGovernance (h : Parsed root) : AfterGovernance root (migrateGovernance lib root).value := by
  obtain ⟨⟨hroot, hauth⟩, hgov, -, -⟩ := h
  have hsame : budgetGroupsOf root = none → AfterGovernance root root := by
    intro hnone
    exact ⟨⟨hroot, hauth⟩, rfl, by rw [hnone], Iff.rfl, fun k _ => rfl⟩
  unfold migrateGovernance
  rw [value_bind, value_takeMapping]
  cases hget : root.get "governance" with
  | none => exact hsame (by unfold budgetGroupsOf; rw [hget]; rfl)
  | some v =>
    cases v with
    | mapping gov =>
      replace hgov := hgov gov (by rw [hget]; rfl)
      simp only [value_bind, value_pure]
      rw [root_migrateEnabled]
      -- up to the budget groups
      have hmoney : Changes ("governance" :: moneyKeys) root (migrateMoney lib ⟨root.swapRemove "governance", gov⟩).value.root :=
        (changes_swapRemove (by decide) root).trans
          ((migrateMoney_changes (b := ⟨root.swapRemove "governance", gov⟩)).mono (by decide))
      have htaken : Changes earlyKeys gov (migrateMoney lib ⟨root.swapRemove "governance", gov⟩).value.gov :=
        gov_migrateMoney (b := ⟨root.swapRemove "governance", gov⟩)
      generalize (migrateMoney lib ⟨root.swapRemove "governance", gov⟩).value = b1 at hmoney htaken ⊢
      have hbudget : (b1.gov.get "budget_groups").bind Yaml.mapping? = budgetGroupsOf root := by
        unfold budgetGroupsOf
        rw [(htaken hgov).2 _ (by decide), hget]
        rfl
      have hwritten : Changes ("governance" :: moneyKeys ++ ["groups"]) root (migrateBudgetGroups lib b1).value.root :=
        (hmoney.mono (by decide)).trans (migrateBudgetGroups_changes (by decide))
      have hgroups := groups_migrateBudgetGroups lib b1
      rw [hbudget, (hmoney hroot).2 "groups" (by decide)] at hgroups
      generalize (migrateBudgetGroups lib b1).value = b2 at hwritten hgroups ⊢
      -- the rest is advanced settings and the token
      have hadvanced : Changes ["advanced"] b2.root (migrateAdvanced b2).value.root := migrateAdvanced_changes (by decide)
      generalize (migrateAdvanced b2).value = b3 at hadvanced ⊢
      obtain ⟨hd2, hget2⟩ := hwritten hroot
      obtain ⟨hd3, hget3⟩ := hadvanced hd2
      have htoken : Changes ["auth"] b3.root (migrateAdminToken b3).value.root := migrateAdminToken_changes (by decide)
      obtain ⟨hd4, hget4⟩ := htoken hd3
      have hsameAuth : b3.root.get "auth" = root.get "auth" := (hget3 _ (by decide)).trans (hget2 _ (by decide))
      obtain ⟨hok, hdistinct, hkeys⟩ := after_migrateAdminToken (b := b3) (fun auth h => hauth auth (by
        rw [authOf_congr hsameAuth] at h
        exact h))
      refine ⟨⟨hd4, hdistinct⟩, ?_, ?_, hok.trans (authOk_congr hsameAuth), fun k hk => ?_⟩
      · rw [hget4 _ (by decide), hget3 _ (by decide), hget2 _ (by decide)]
      · rw [hget4 _ (by decide), hget3 _ (by decide), hgroups]
      · rw [hkeys k hk, authOf_congr hsameAuth]
    | _ => exact hsame (by unfold budgetGroupsOf; rw [hget]; rfl)

/-! ## The role map -/

/-- After the governance pass the groups that are written are the table of those that no role generates. -/
theorem tableOf_after (h : AfterGovernance root root')
    (hbudgets : ∀ gm, budgetGroupsOf root = some gm → ∀ e ∈ gm, Mapping.Distinct (asMap e.2)) :
    tableOf (root'.get "groups") = baseGroups root := by
  rw [h.groups]
  unfold baseGroups
  cases hgm : budgetGroupsOf root with
  | none => rfl
  | some gm =>
    refine congrArg some (funext fun name => ?_)
    rw [value_mapValues, Mapping.get_map fun k g => (budgetGroup k g).value, Option.map_map]
    cases hget : gm.get name with
    | none => rfl
    | some g => exact congrArg some (groupView_budgetGroup (hbudgets gm hgm _ (Mapping.mem_of_get hget)) (.string name))

theorem groupsOf_eq (root : Mapping) (name : String) :
    groupsOf root name = (tableOf (root.get "groups")).bind fun base => base name := by
  unfold groupsOf
  cases root.get "groups" with
  | none => rfl
  | some v => cases v <;> rfl

/-- The groups that join go before the ones that are there. -/
theorem groupsOf_added {generated : Mapping} (hdistinct : Mapping.Distinct generated) (hnamed : Named generated)
    (name : String) :
    groupsOf (atMapping "groups" (fun groups => pure (addGroups generated groups)) (orEmpty "groups" root)).value name =
      (tableOf (root.get "groups")).bind fun base => ((generated.get name).map groupView).or (base name) := by
  have hget : (atMapping "groups" (fun groups => pure (addGroups generated groups)) (orEmpty "groups" root)).value.get "groups" =
      some (onMapping (fun groups => pure (addGroups generated groups)) ((root.get "groups").getD (.mapping []))).value := by
    rw [get_atMapping, if_pos rfl, get_orEmpty, if_pos rfl]
    rfl
  have hadded : ∀ groups : Mapping, ((addGroups generated groups).get name).map groupView =
      ((generated.get name).map groupView).or ((groups.get name).map groupView) := by
    intro groups
    rw [get_addGroups hdistinct hnamed]
    cases generated.get name <;> rfl
  rw [groupsOf_eq, hget]
  cases root.get "groups" with
  | none => exact hadded []
  | some v =>
    cases v with
    | mapping groups => exact hadded groups
    | _ => rfl

/-- The bindings of the map are all there are. -/
theorem boundIn_insert {auth bindings : Mapping} {module module' : String} :
    boundIn (Mapping.insert "role_bindings" (.mapping [(str module, .mapping bindings)]) auth) module' role =
      if module = module' then (((bindings.get role).bind Yaml.mapping?).bind fun m => m.get "group").bind Yaml.asStr
      else none := by
  unfold boundIn
  rw [Mapping.get_insert, if_pos rfl]
  have hmodule : Mapping.get [(str module, Yaml.mapping bindings)] module' =
      if module = module' then some (.mapping bindings) else none := by
    rw [Mapping.get_cons, str]
    unfold Mapping.isKey
    simp only [decide_eq_true_eq]
    rfl
  rw [Option.bind_some, Yaml.mapping?, Option.bind_some, hmodule]
  by_cases h : module = module'
  · rw [if_pos h, if_pos h]
    exact (Option.bind_assoc ..).symm
  · rw [if_neg h, if_neg h]
    rfl

/-- **The role map.** -/
theorem after_migrateGroupMap {gm auth : Mapping} (hroot : Sound root) (hauth : root.get "auth" = some (.mapping auth))
    (hgm : ∀ e ∈ gm, Mapping.Distinct (asMap e.2)) :
    Sound (migrateGroupMap (.mapping gm) root).value ∧
    (∀ name, groupsOf (migrateGroupMap (.mapping gm) root).value name =
      (tableOf (root.get "groups")).bind fun base => (generatedView gm name).or (base name)) ∧
    ∀ role g, BoundTo (migrateGroupMap (.mapping gm) root).value role g ↔
      ((gm.get role).bind fun b => boundGroup (.string role) (asMap b)).bind Yaml.asStr = some g := by
  have hchanges : Changes ["auth", "groups", "group_map"] root (migrateGroupMap (.mapping gm) root).value :=
    migrateGroupMap_changes
  have hdistinct := (hchanges hroot.distinct).1
  unfold migrateGroupMap at hdistinct ⊢
  rw [value_bind] at hdistinct ⊢
  generalize (bindingModule (((root.get "auth").bind Yaml.mapping?).getD [])).value = module at hdistinct ⊢
  simp only [value_bind] at hdistinct ⊢
  obtain ⟨hroles, hviews, hnamed, hfresh⟩ := migrateRoles_value module hgm []
  generalize (migrateRoles module gm []).value = migrated at hroles hviews hnamed hfresh hdistinct ⊢
  obtain ⟨bindings, generated⟩ := migrated
  dsimp only at hroles hviews hnamed hfresh hdistinct ⊢
  replace hnamed := hnamed (fun e he => absurd he List.not_mem_nil)
  replace hfresh := hfresh List.nodup_nil
  replace hviews : ∀ name, (generated.get name).map groupView = generatedView gm name := fun name =>
    (hviews name).trans (Option.or_none ..)
  -- the bindings are written first
  have hwritten : ∀ k, (atMapping "auth" (fun auth =>
      pure (Mapping.insert "role_bindings" (.mapping [(str module, .mapping bindings)]) auth)) root).value.get k =
      if k = "auth" then some (.mapping (Mapping.insert "role_bindings" (.mapping [(str module, .mapping bindings)]) auth))
      else root.get k := by
    intro k
    rw [get_atMapping, hauth]
    rfl
  generalize (atMapping "auth" (fun auth =>
      pure (Mapping.insert "role_bindings" (.mapping [(str module, .mapping bindings)]) auth)) root).value = root1 at hwritten hdistinct ⊢
  have hgroups : root1.get "groups" = root.get "groups" := (hwritten _).trans (if_neg (by decide))
  have hbound : ∀ out : Mapping, out.get "auth" = root1.get "auth" → ∀ role g, BoundTo out role g ↔
      ((gm.get role).bind fun b => boundGroup (.string role) (asMap b)).bind Yaml.asStr = some g := by
    intro out hout role g
    have hof : authOf out = some (Mapping.insert "role_bindings" (.mapping [(str module, .mapping bindings)]) auth) := by
      unfold authOf
      rw [hout, hwritten, if_pos rfl]
      rfl
    rw [← hroles]
    unfold BoundTo boundOf
    rw [hof]
    simp only [Option.bind_some, boundIn_insert]
    constructor
    · rintro ⟨module', h⟩
      by_cases hm : module = module'
      · rwa [if_pos hm] at h
      · rw [if_neg hm] at h
        cases h
    · intro h
      exact ⟨module, by rwa [if_pos rfl]⟩
  have hsound : ∀ out : Mapping, Mapping.Distinct out → out.get "auth" = root1.get "auth" → Sound out := by
    intro out hout hsame
    refine ⟨hout, fun auth' h => ?_⟩
    unfold authOf at h
    rw [hsame, hwritten, if_pos rfl] at h
    obtain rfl := Option.some.inj h
    exact Mapping.distinct_insert (hroot.auth auth (by unfold authOf; rw [hauth]; rfl)) _ _
  by_cases hempty : generated.isEmpty = true
  · rw [if_pos hempty] at hdistinct ⊢
    refine ⟨hsound _ hdistinct rfl, fun name => ?_, hbound _ rfl⟩
    have hnone : generatedView gm name = none := by
      rw [← hviews, List.isEmpty_iff.1 hempty]
      rfl
    rw [groupsOf_eq, hnone]
    simp only [value_pure, hgroups, Option.none_or]
  · rw [if_neg hempty] at hdistinct ⊢
    have hsame : (atMapping "groups" (fun groups => pure (addGroups generated groups)) (orEmpty "groups" root1)).value.get
        "auth" = root1.get "auth" := by
      rw [get_atMapping, if_neg (by decide), get_orEmpty, if_neg (by decide)]
    refine ⟨hsound _ hdistinct hsame, fun name => ?_, hbound _ hsame⟩
    rw [groupsOf_added hfresh hnamed, hgroups, hviews]

/-- What the pass of the role map leaves for the later ones. -/
structure AfterAuth (root root' : Mapping) : Prop extends Sound root' where
  groups : ∀ name, groupsOf root' name =
    (tableOf (root.get "groups")).bind fun base => (generatedGroups root name).or (base name)
  bound : ∀ gm role g, writtenRoles root = some gm → (BoundTo root' role g ↔
    AuthOk root ∧ ((gm.get role).bind fun b => boundGroup (.string role) (asMap b)).bind Yaml.asStr = some g)

/-- A document without a role map is as before. -/
theorem afterAuth_unwritten (h : Sound root') (hgroups : root'.get "groups" = root.get "groups")
    (hnone : writtenRoles root = none) : AfterAuth root root' := by
  refine ⟨h, fun name => ?_, fun gm role g hgm => ?_⟩
  · have hno : generatedGroups root name = none := by
      unfold generatedGroups
      rw [hnone, Option.bind_none, ite_self]
    rw [groupsOf_eq, hgroups, hno]
    rfl
  · rw [hnone] at hgm
    cases hgm

/-- A block that is no mapping keeps the role map where it is. -/
theorem afterAuth_refused (h : Sound root') (hgroups : root'.get "groups" = root.get "groups")
    (hno : ¬AuthOk root) (hauth : authOf root' = none) : AfterAuth root root' := by
  refine ⟨h, fun name => ?_, fun gm role g _ => ?_⟩
  · have hnone : generatedGroups root name = none := by
      unfold generatedGroups
      rw [if_neg hno]
    rw [groupsOf_eq, hgroups, hnone]
    rfl
  · refine ⟨?_, fun hok => absurd hok.1 hno⟩
    rintro ⟨module, hmodule⟩
    unfold boundOf at hmodule
    rw [hauth] at hmodule
    cases hmodule

/-- The block, with the role map that was taken. -/
theorem afterAuth_block (groupMap : Option Yaml) {auth : Mapping}
    (hroles : ∀ gm, writtenRoles root = some gm → ∀ e ∈ gm, Mapping.Distinct (asMap e.2)) (hok : AuthOk root)
    (hmap : groupMap.bind Yaml.mapping? = writtenRoles root) (hauth : Mapping.Distinct auth)
    (hdistinct : Mapping.Distinct root') (hgroups : root'.get "groups" = root.get "groups") :
    AfterAuth root (do
      let auth ← migrateAuthBlock auth
      match groupMap with
      | some gm => migrateGroupMap gm (Mapping.insert "auth" (.mapping auth) root')
      | none => pure (Mapping.insert "auth" (.mapping auth) root') : Logged Mapping).value := by
  rw [value_bind]
  have hblock := (migrateAuthBlock_changes auth hauth).1
  generalize (migrateAuthBlock auth).value = auth' at hblock ⊢
  have hget : (Mapping.insert "auth" (.mapping auth') root').get "auth" = some (.mapping auth') :=
    (Mapping.get_insert ..).trans (if_pos rfl)
  have hgroups' : (Mapping.insert "auth" (.mapping auth') root').get "groups" = root.get "groups" :=
    (Mapping.get_insert ..).trans ((if_neg (by decide)).trans hgroups)
  have hsound : Sound (Mapping.insert "auth" (.mapping auth') root') := by
    refine ⟨Mapping.distinct_insert hdistinct _ _, fun auth'' h => ?_⟩
    unfold authOf at h
    rw [hget] at h
    obtain rfl := Option.some.inj h
    exact hblock
  generalize Mapping.insert "auth" (.mapping auth') root' = root'' at hget hgroups' hsound ⊢
  cases groupMap with
  | none => exact afterAuth_unwritten hsound hgroups' hmap.symm
  | some gm =>
    cases gm with
    | mapping gm =>
      have hwritten : writtenRoles root = some gm := hmap.symm
      obtain ⟨hsound', hviews, hbound⟩ := after_migrateGroupMap hsound hget (hroles gm hwritten)
      refine ⟨hsound', fun name => ?_, fun gm' role g hgm => ?_⟩
      · have hgenerated : generatedGroups root name = generatedView gm name := by
          unfold generatedGroups
          rw [if_pos hok, hwritten, Option.bind_some]
        rw [hgenerated, ← hgroups']
        exact hviews name
      · rw [hwritten] at hgm
        obtain rfl := Option.some.inj hgm
        exact (hbound role g).trans (and_iff_right hok).symm
    | _ =>
      -- the value goes back where it was
      have hkept : ∀ v k, k ≠ "group_map" → (Mapping.insert "group_map" v root'').get k = root''.get k := by
        intro v k hk
        rw [Mapping.get_insert, if_neg hk]
      refine afterAuth_unwritten ⟨Mapping.distinct_insert hsound.distinct _ _, fun auth h => ?_⟩
        ((hkept _ _ (by decide)).trans hgroups') hmap.symm
      exact hsound.auth auth ((authOf_congr (hkept _ "auth" (by decide))) ▸ h)

theorem after_migrateAuth (hroot : Sound root)
    (hroles : ∀ gm, writtenRoles root = some gm → ∀ e ∈ gm, Mapping.Distinct (asMap e.2)) :
    AfterAuth root (migrateAuth root).value := by
  have hremoved : ∀ k, (root.swapRemove "group_map").get k = if k = "group_map" then none else root.get k :=
    fun k => Mapping.get_swapRemove hroot.distinct _ k
  have hdistinct := Mapping.distinct_swapRemove hroot.distinct "group_map"
  unfold migrateAuth take
  dsimp only
  generalize root.swapRemove "group_map" = root1 at hremoved hdistinct ⊢
  have hof : authOf root1 = authOf root := authOf_congr ((hremoved _).trans (if_neg (by decide)))
  have hgroups : root1.get "groups" = root.get "groups" := (hremoved _).trans (if_neg (by decide))
  change AfterAuth root (if (authOf root1).isNone && (root.get "group_map").isNone then _ else _ : Logged Mapping).value
  by_cases hneither : ((authOf root1).isNone && (root.get "group_map").isNone) = true
  · -- neither a block nor a role map
    rw [if_pos hneither]
    rw [Bool.and_eq_true, Option.isNone_iff_eq_none, Option.isNone_iff_eq_none, hof] at hneither
    refine afterAuth_unwritten ⟨hdistinct, fun auth h => hroot.auth auth (hof ▸ h)⟩ hgroups ?_
    unfold writtenRoles
    rw [hneither.1, hneither.2]
    rfl
  rw [if_neg hneither]
  have hblock : ∀ k, (orEmpty "auth" root1).get k =
      if k = "auth" then some ((root.get "auth").getD (.mapping [])) else root1.get k := by
    intro k
    rw [get_orEmpty, (hremoved "auth").trans (if_neg (by decide))]
  have hdistinct2 : Mapping.Distinct (orEmpty "auth" root1) :=
    (orEmpty_changes (k := "auth") (List.mem_singleton_self _) root1 hdistinct).1
  have hgroups2 : (orEmpty "auth" root1).get "groups" = root.get "groups" :=
    (hblock _).trans ((if_neg (by decide)).trans hgroups)
  generalize orEmpty "auth" root1 = root2 at hblock hdistinct2 hgroups2 ⊢
  have hauth2 : root2.get "auth" = some ((root.get "auth").getD (.mapping [])) := (hblock _).trans (if_pos rfl)
  cases hauth : authOf root2 with
  | none =>
    -- the block is something else
    have hno : ¬AuthOk root := by
      unfold authOf at hauth
      rw [hauth2] at hauth
      rintro (hnone | hsome)
      · rw [hnone] at hauth
        cases hauth
      · unfold authOf at hsome
        cases hv : root.get "auth" with
        | none =>
          rw [hv] at hsome
          cases hsome
        | some v =>
          rw [hv] at hsome hauth
          rw [Option.bind_some] at hsome
          rw [Option.getD_some, Option.bind_some] at hauth
          rw [hauth] at hsome
          cases hsome
    have hsound : Sound root2 := ⟨hdistinct2, fun auth h => by rw [hauth] at h; cases h⟩
    have hmatch : (root2.get "auth").bind Yaml.mapping? = none := hauth
    rw [hmatch]
    cases root.get "group_map" with
    | none => exact afterAuth_refused hsound hgroups2 hno hauth
    | some gm =>
      have hkept : ∀ k, k ≠ "group_map" → (Mapping.insert "group_map" gm root2).get k = root2.get k := by
        intro k hk
        rw [Mapping.get_insert, if_neg hk]
      have hsame := authOf_congr (hkept "auth" (by decide))
      refine afterAuth_refused ⟨Mapping.distinct_insert hdistinct2 _ _, fun auth h => ?_⟩
        ((hkept _ (by decide)).trans hgroups2) hno (hsame.trans hauth)
      exact hsound.auth auth (hsame ▸ h)
  | some auth =>
    have hblock : authOf root = some auth ∨ (root.get "auth" = none ∧ auth = []) := by
      unfold authOf at hauth ⊢
      rw [hauth2] at hauth
      cases hv : root.get "auth" with
      | none =>
        rw [hv] at hauth
        exact Or.inr ⟨rfl, (Option.some.inj hauth).symm⟩
      | some v =>
        rw [hv] at hauth
        exact Or.inl hauth
    have hok : AuthOk root := by
      rcases hblock with h | h
      · exact Or.inr (by rw [h]; rfl)
      · exact Or.inl h.1
    have hkeys : auth.get "group_map" = (authOf root).bind fun auth => auth.get "group_map" := by
      rcases hblock with h | ⟨hnone, rfl⟩
      · rw [h, Option.bind_some]
      · unfold authOf
        rw [hnone]
        rfl
    have hauthDistinct : Mapping.Distinct auth := by
      rcases hblock with h | ⟨-, rfl⟩
      · exact hroot.auth auth h
      · exact List.nodup_nil
    have hmatch : (root2.get "auth").bind Yaml.mapping? = some auth := hauth
    rw [hmatch]
    -- the role map is taken from the document, or else from the block
    cases htop : root.get "group_map" with
    | some gm =>
      refine afterAuth_block (some gm) hroles hok ?_ hauthDistinct hdistinct2 hgroups2
      unfold writtenRoles
      rw [htop, Option.some_or]
    | none =>
      refine afterAuth_block (auth.get "group_map") hroles hok ?_ (Mapping.distinct_swapRemove hauthDistinct _) hdistinct2 hgroups2
      unfold writtenRoles
      rw [htop, Option.none_or, hkeys]

end Busbar.Migrate
