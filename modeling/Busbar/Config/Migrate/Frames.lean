import Busbar.Config.Migrate.Identity

/-!
# Which keys a pass changes

Every pass leaves the keys of the document alone that it is not about.

* `migrateGovernance_changes` and so on: the keys of each pass.
* `migrateAuthBlock_changes`: the keys of the authentication block that its own pass is about.
-/

namespace Busbar.Migrate

open Logged

variable {lib : YamlLib} {root : Mapping} {k : String}

theorem orEmpty_changes {ks : List String} (hk : k ∈ ks) (m : Mapping) : Changes ks m (orEmpty k m) := by
  unfold orEmpty
  by_cases h : m.containsKey k = true
  · rw [if_pos h]
    exact Changes.refl _ _
  · rw [if_neg h]
    exact changes_insert hk _ _

theorem get_orEmpty (k k' : String) (m : Mapping) :
    (orEmpty k m).get k' = if k' = k then some ((m.get k).getD (.mapping [])) else m.get k' := by
  unfold orEmpty
  rw [Mapping.containsKey_eq]
  by_cases hk : k' = k
  · subst hk
    rw [if_pos rfl]
    cases hget : m.get k' with
    | none =>
      rw [if_neg (by simp), Mapping.get_insert, if_pos rfl]
      rfl
    | some v =>
      rw [if_pos (by simp), hget]
      rfl
  · rw [if_neg hk]
    by_cases hsome : (m.get k).isSome = true
    · rw [if_pos hsome]
    · rw [if_neg hsome, Mapping.get_insert, if_neg hk]

theorem changes_atMapping {ks : List String} (hk : k ∈ ks) (f : Mapping → Logged Mapping) (m : Mapping) :
    Changes ks m (atMapping k f m).value := changes_atKey hk _ m

theorem changes_modify {ks : List String} (hk : k ∈ ks) (f : Yaml → Yaml) (m : Mapping) : Changes ks m (m.modify k f) := by
  intro hm
  refine ⟨Mapping.distinct_modify hm k f, fun k' hk' => ?_⟩
  rw [Mapping.get_modify, if_neg]
  rintro rfl
  exact hk' hk

/-! ## The governance block -/

section

variable {b : Block}

theorem liftKey_changes {home text : String} {ks : List String} (hk : home ∈ ks) :
    Changes ks b.root (liftKey k home text b).value.root := by
  unfold liftKey take
  cases b.gov.get k with
  | none => exact Changes.refl _ _
  | some v => exact changes_insert hk _ _

theorem migratePrice_changes {ks : List String} (hk : "rate_card" ∈ ks) : Changes ks b.root (migratePrice lib b).value.root := by
  unfold migratePrice take
  cases b.gov.get "price_per_1k_tokens_cents" with
  | none => exact Changes.refl _ _
  | some p1k =>
    have hboth : ∀ v, Changes ks b.root (Mapping.insert "rate_card" v (b.root.swapRemove "rate_card")) :=
      fun v => (changes_swapRemove hk b.root).trans (changes_insert hk v _)
    dsimp only
    cases b.root.get "rate_card" with
    | none => exact hboth _
    | some old =>
      cases old with
      | mapping m => exact hboth _
      | _ => exact hboth _

theorem migrateBudgetGroups_changes {ks : List String} (hk : "groups" ∈ ks) :
    Changes ks b.root (migrateBudgetGroups lib b).value.root := by
  unfold migrateBudgetGroups
  rw [value_bind]
  cases (takeMapping lib.oneLine b.gov "budget_groups" [str "governance"]).value with
  | got gm rest => exact changes_insert hk _ _
  | absent => exact Changes.refl _ _
  | malformed => exact Changes.refl _ _

theorem migrateAdvanced_changes {ks : List String} (hk : "advanced" ∈ ks) : Changes ks b.root (migrateAdvanced b).value.root := by
  unfold migrateAdvanced
  dsimp only
  split
  · exact Changes.refl _ _
  · exact changes_insert hk _ _

theorem migrateAdminToken_changes {ks : List String} (hk : "auth" ∈ ks) :
    Changes ks b.root (migrateAdminToken b).value.root := by
  unfold migrateAdminToken take
  cases b.gov.get "admin_token" with
  | none => exact Changes.refl _ _
  | some token => exact (orEmpty_changes hk b.root).trans (changes_atMapping hk _ _)

theorem root_migrateEnabled : (migrateEnabled b).value.root = b.root := by
  unfold migrateEnabled take
  cases b.gov.get "enabled" <;> rfl

end

def moneyKeys : List String := ["store", "rate_card", "per_request_fee"]

theorem migrateMoney_changes {b : Block} : Changes moneyKeys b.root (migrateMoney lib b).value.root := by
  have hstore : Changes moneyKeys b.root (migrateStore b).value.root := changes_insert (by decide) _ _
  refine hstore.trans (Changes.trans ?_ (migratePrice_changes (by decide)))
  exact Changes.trans (liftKey_changes (by decide)) (liftKey_changes (by decide))

/-- The keys that the block becomes. -/
def homeKeys : List String := moneyKeys ++ ["groups", "advanced", "auth"]

/-- The block is removed, and then changes its homes only. -/
theorem migrateGovernance_homes {gov : Mapping} (hget : root.get "governance" = some (.mapping gov)) :
    Changes homeKeys (root.swapRemove "governance") (migrateGovernance lib root).value := by
  unfold migrateGovernance
  rw [value_bind, value_takeMapping, hget]
  simp only [value_bind, value_pure]
  rw [root_migrateEnabled]
  have hmoney : ∀ b : Block, Changes homeKeys b.root (migrateMoney lib b).value.root :=
    fun b => migrateMoney_changes.mono (by decide)
  refine (hmoney ⟨_, gov⟩).trans (Changes.trans ?_ (migrateAdminToken_changes (by decide)))
  exact Changes.trans (migrateBudgetGroups_changes (by decide)) (migrateAdvanced_changes (by decide))

def governanceKeys : List String := "governance" :: homeKeys

theorem migrateGovernance_changes : Changes governanceKeys root (migrateGovernance lib root).value := by
  have hsame : (∀ gov, root.get "governance" ≠ some (.mapping gov)) → (migrateGovernance lib root).value = root := by
    intro hno
    unfold migrateGovernance
    rw [value_bind, value_takeMapping]
    cases hget : root.get "governance" with
    | none => rfl
    | some v =>
      cases v with
      | mapping gov => exact absurd hget (hno gov)
      | _ => rfl
  by_cases h : ∃ gov, root.get "governance" = some (.mapping gov)
  · obtain ⟨gov, hget⟩ := h
    exact (changes_swapRemove (by decide) root).trans ((migrateGovernance_homes hget).mono (by decide))
  · rw [hsame fun gov hget => h ⟨gov, hget⟩]
    exact Changes.refl _ _

/-! ## Authentication -/

/-- The keys of the block that the pass of the block itself is about. -/
def authBlockKeys : List String := ["chain", "admin_auth", "modules", "mode", "upstream_credentials", "client_tokens"]

theorem migrateChain_changes (auth : Mapping) : Changes authBlockKeys auth (migrateChain auth).value := by
  have hchain : ∀ f, Changes authBlockKeys auth (atSequence "chain" f auth).value :=
    fun f => changes_atKey (by decide) _ auth
  unfold migrateChain
  rw [value_bind]
  split
  · split
    · rw [value_bind, value_bind]
      split
      · exact hchain _
      · exact hchain _
    · exact hchain _
  · exact hchain _

theorem applyScope_changes {module : String} {scope : Yaml} {auth auth' : Mapping} {lists ks : List String}
    (hlists : ∀ k ∈ lists, k ∈ ks) (h : applyScope module scope auth lists = some auth') : Changes ks auth auth' := by
  induction lists with
  | nil => cases h
  | cons k lists ih =>
    unfold applyScope at h
    cases hseq : ((auth.get k).bind Yaml.sequence?).bind (setMaxAdminScope module scope) with
    | some seq =>
      rw [hseq] at h
      obtain rfl := Option.some.inj h
      exact changes_insert (hlists k List.mem_cons_self) _ _
    | none =>
      rw [hseq] at h
      exact ih (fun k hk => hlists k (List.mem_cons_of_mem _ hk)) h

theorem migrateModuleCaps_changes (name caps : Yaml) (auth : Mapping) :
    Changes ["chain", "admin_auth"] auth (migrateModuleCaps name caps auth).value := by
  unfold migrateModuleCaps
  dsimp only
  cases (asMap caps).get "max_admin_scope" with
  | none =>
    dsimp only
    split
    · exact Changes.refl _ _
    · exact Changes.refl _ _
  | some scope =>
    dsimp only
    cases happly : applyScope (keyText name) scope auth ["chain", "admin_auth"] with
    | none =>
      dsimp only
      split
      · exact Changes.refl _ _
      · exact Changes.refl _ _
    | some auth' =>
      have hscope : Changes ["chain", "admin_auth"] auth auth' := applyScope_changes (fun _ hk => hk) happly
      dsimp only
      split
      · exact hscope
      · exact hscope

theorem migrateModulesLoop_changes (modules auth : Mapping) :
    Changes ["chain", "admin_auth"] auth (migrateModulesLoop modules auth).value := by
  induction modules generalizing auth with
  | nil => exact Changes.refl _ _
  | cons e modules ih => exact (migrateModuleCaps_changes e.1 e.2 auth).trans (ih _)

theorem migrateAuthBlock_changes (auth : Mapping) : Changes authBlockKeys auth (migrateAuthBlock auth).value := by
  have hmodules : ∀ auth, Changes authBlockKeys auth (migrateModules auth).value := by
    intro auth
    have hremoved : Changes authBlockKeys auth (auth.swapRemove "modules") := changes_swapRemove (by decide) auth
    unfold migrateModules take
    split
    · next h => exact ((Prod.mk.inj h).2 ▸ hremoved).trans ((migrateModulesLoop_changes _ _).mono (by decide))
    · next h => exact (Prod.mk.inj h).2 ▸ hremoved
  have hmode : ∀ auth, Changes authBlockKeys auth (migrateMode auth).value := by
    intro auth
    have hremoved : Changes authBlockKeys auth (auth.swapRemove "mode") := changes_swapRemove (by decide) auth
    unfold migrateMode take
    dsimp only
    split
    · exact hremoved
    · exact hremoved.trans (changes_insert (by decide) _ _)
    · exact hremoved
    · exact hremoved.trans (changes_insert (by decide) _ _)
  have htokens : ∀ auth, Changes authBlockKeys auth (migrateClientTokens auth).value := by
    intro auth
    have hremoved : Changes authBlockKeys auth (auth.swapRemove "client_tokens") := changes_swapRemove (by decide) auth
    unfold migrateClientTokens take
    cases auth.get "client_tokens" with
    | none => exact hremoved
    | some v => exact hremoved
  exact (migrateChain_changes auth).trans ((hmodules _).trans ((hmode _).trans (htokens _)))

/-- The role map itself is not put back if it is a mapping. -/
theorem migrateGroupMap_groups {gm : Mapping} : Changes ["auth", "groups"] root (migrateGroupMap (.mapping gm) root).value := by
  unfold migrateGroupMap
  rw [value_bind]
  generalize (bindingModule (((root.get "auth").bind Yaml.mapping?).getD [])).value = module
  simp only [value_bind]
  have hauth : ∀ f, Changes ["auth", "groups"] root (atMapping "auth" f root).value :=
    fun f => changes_atMapping (by decide) f root
  split
  · exact hauth _
  · exact (hauth _).trans ((orEmpty_changes (by decide) _).trans (changes_atMapping (by decide) _ _))

theorem migrateGroupMap_changes {gm : Yaml} : Changes ["auth", "groups", "group_map"] root (migrateGroupMap gm root).value := by
  cases gm with
  | mapping gm => exact migrateGroupMap_groups.mono (by decide)
  | _ => exact changes_insert (by decide) _ _

theorem migrateAuth_changes : Changes ["auth", "groups", "group_map"] root (migrateAuth root).value := by
  unfold migrateAuth take
  dsimp only
  have hremoved : Changes ["auth", "groups", "group_map"] root (root.swapRemove "group_map") :=
    changes_swapRemove (by decide) root
  generalize root.get "group_map" = top
  refine hremoved.trans ?_
  generalize root.swapRemove "group_map" = root
  split
  · exact Changes.refl _ _
  · refine (orEmpty_changes (k := "auth") (by decide) root).trans ?_
    generalize orEmpty "auth" root = root
    cases (root.get "auth").bind Yaml.mapping? with
    | none =>
      cases top with
      | none => exact Changes.refl _ _
      | some gm => exact changes_insert (by decide) _ _
    | some auth =>
      have hinsert : ∀ v, Changes ["auth", "groups", "group_map"] root (Mapping.insert "auth" v root) :=
        fun v => changes_insert (by decide) v root
      simp only [value_bind]
      split
      · exact (hinsert _).trans migrateGroupMap_changes
      · exact hinsert _

theorem migrateAdminAuth_changes : Changes ["admin_auth", "auth"] root (migrateAdminAuth root).value := by
  unfold migrateAdminAuth take
  have hremoved : Changes ["admin_auth", "auth"] root (root.swapRemove "admin_auth") := changes_swapRemove (by decide) root
  cases root.get "admin_auth" with
  | none => exact hremoved
  | some top =>
    refine (hremoved.trans (orEmpty_changes (k := "auth") (by decide) _)).trans ?_
    dsimp only
    split
    · exact Changes.refl _ _
    · exact changes_insert (by decide) _ _

theorem migrateDroppedScopes_changes : Changes ["auth"] root (migrateDroppedScopes root).value :=
  changes_atMapping (by decide) _ _

/-! ## Hooks and pools -/

theorem migrateProviders_changes : Changes ["providers"] root (migrateProviders root).value :=
  changes_atMapping (by decide) _ _

def hookSections : List String := ["hooks", "global_hooks", "pools"]

theorem migrateRegistry_changes : Changes ["hooks"] root (migrateRegistry lib root).value.1 := by
  unfold migrateRegistry
  rw [value_bind, value_takeMapping]
  cases root.get "hooks" with
  | none => exact Changes.refl _ _
  | some v =>
    cases v with
    | mapping src =>
      dsimp only
      split
      · exact changes_swapRemove (by decide) _
      · exact changes_swapRemove (by decide) _
    | _ => exact Changes.refl _ _

theorem takeGlobalHooks_changes : Changes ["global_hooks"] root (takeGlobalHooks lib root).value.1 := by
  unfold takeGlobalHooks
  rw [value_bind, value_takeSequence]
  cases root.get "global_hooks" with
  | none => exact Changes.refl _ _
  | some v =>
    cases v with
    | sequence s => exact changes_swapRemove (by decide) _
    | _ => exact Changes.refl _ _

theorem liftInlineHooks_changes {defs : Mapping} : Changes ["pools"] root (liftInlineHooks lib root defs).value.1 := by
  unfold liftInlineHooks
  split
  · exact changes_insert (by decide) _ _
  · exact Changes.refl _ _

theorem writeDefs_changes {defs : Mapping} : Changes ["hooks"] root (writeDefs defs root).value := by
  unfold writeDefs
  split
  · exact Changes.refl _ _
  · split
    · exact Changes.refl _ _
    · exact changes_insert (by decide) _ _

theorem attachAll_changes {all : List Yaml} : Changes ["pools"] root (attachAll lib all root).value := by
  unfold attachAll
  split
  · exact Changes.refl _ _
  · exact (orEmpty_changes (by decide) _).trans (changes_atMapping (by decide) _ _)

theorem migrateHooksBlock_changes : Changes hookSections root (migrateHooksBlock lib root).value := by
  have hregistry : Changes hookSections root (migrateRegistry lib root).value.1 := migrateRegistry_changes.mono (by decide)
  have htaken : ∀ root, Changes hookSections root (takeGlobalHooks lib root).value.1 :=
    fun root => takeGlobalHooks_changes.mono (by decide)
  have hinline : ∀ root defs, Changes hookSections root (liftInlineHooks lib root defs).value.1 :=
    fun root defs => liftInlineHooks_changes.mono (by decide)
  have hwrite : ∀ root defs, Changes hookSections root (writeDefs defs root).value :=
    fun root defs => writeDefs_changes.mono (by decide)
  have hattach : ∀ root all, Changes hookSections root (attachAll lib all root).value :=
    fun root all => attachAll_changes.mono (by decide)
  exact hregistry.trans ((htaken _).trans ((hinline _ _).trans ((hwrite _ _).trans (hattach _ _))))

theorem migratePools_changes : Changes ["pools"] root (migratePools lib root).value := changes_atMapping (by decide) _ _

theorem migrateHookStages_changes : Changes ["global_hooks", "pools"] root (migrateHookStages root).value := by
  unfold migrateHookStages
  rw [value_bind]
  exact (changes_atKey (k := "global_hooks") (by decide) _ _).trans (changes_atMapping (by decide) _ _)

/-! ## Observability and export -/

theorem migrateObservability_changes : Changes ["observability"] root (migrateObservability root).value :=
  changes_atMapping (by decide) _ _

theorem migrateResponseHeaders_changes :
    Changes ["observability", "advanced"] root (migrateResponseHeaders lib root).value := by
  unfold migrateResponseHeaders
  split
  · exact Changes.refl _ _
  · rw [value_bind, value_takeMapping]
    have hobs : ∀ f root, Changes ["observability", "advanced"] root (atMapping "observability" f root).value :=
      fun f root => changes_atMapping (by decide) f root
    cases root.get "advanced" with
    | none => exact (hobs _ _).trans (changes_insert (by decide) _ _)
    | some v =>
      cases v with
      | mapping advanced =>
        refine (changes_swapRemove (k := "advanced") (by decide) root).trans ?_
        exact (hobs _ _).trans (changes_insert (by decide) _ _)
      | _ => exact Changes.refl _ _

theorem insertExport_changes {ks : List String} (hk : "export" ∈ ks) (name : String) (v : Yaml) :
    Changes ks root (insertExport name v root) := by
  unfold insertExport exportMap
  exact ((orEmpty_changes hk root).trans (changes_modify hk _ _)).trans (changes_modify hk _ _)

theorem migrateWebhook_changes : Changes ["observability", "export"] root (migrateWebhook root).value := by
  unfold migrateWebhook
  split
  · exact Changes.refl _ _
  · next obs hobs =>
    dsimp only
    have hroot : Changes ["observability", "export"] root
        (if (takeKeys webhookKeys obs).2.isEmpty then root.swapRemove "observability"
          else Mapping.insert "observability" (.mapping (takeKeys webhookKeys obs).2) root) := by
      split
      · exact changes_swapRemove (by decide) _
      · exact changes_insert (by decide) _ _
    split
    · exact hroot.trans (insertExport_changes (by decide) _ _)
    · exact hroot

theorem migrateMetrics_changes : Changes ["export", "metrics"] root (migrateMetrics lib root).value := by
  unfold migrateMetrics take
  have hremoved : Changes ["export", "metrics"] root (root.swapRemove "metrics") :=
    changes_swapRemove (by decide) root
  cases root.get "metrics" with
  | none => exact hremoved
  | some v =>
    cases v with
    | mapping metrics => exact hremoved.trans (insertExport_changes (by decide) _ _)
    | _ => exact hremoved

theorem migrateObservabilityExport_changes :
    Changes ["observability", "export", "metrics"] root (migrateObservabilityExport lib root).value := by
  unfold migrateObservabilityExport
  rw [value_bind]
  exact (migrateWebhook_changes.mono (by decide)).trans (migrateMetrics_changes.mono (by decide))

theorem migrateExportNamedMap_changes : Changes ["export"] root (migrateExportNamedMap root).value := by
  unfold migrateExportNamedMap
  split
  · exact Changes.refl _ _
  · split
    · exact Changes.refl _ _
    · exact changes_insert (by decide) _ _

theorem migrateObservabilityBlock_changes :
    Changes ["observability", "export"] root (migrateObservabilityBlock lib root).value := by
  unfold migrateObservabilityBlock take
  have hremoved : Changes ["observability", "export"] root (root.swapRemove "observability") :=
    changes_swapRemove (by decide) root
  cases root.get "observability" with
  | none => exact hremoved
  | some v =>
    cases v with
    | mapping obs =>
      dsimp only
      split
      · exact hremoved.trans (insertExport_changes (by decide) _ _)
      · exact hremoved
    | _ => exact hremoved

theorem migrateExportProjection_changes : Changes ["export"] root (migrateExportProjection lib root).value := by
  unfold migrateExportProjection
  split
  · exact Changes.refl _ _
  · exact changes_insert (by decide) _ _

/-! ## The rest -/

theorem migrateAdminRequireMtls_changes :
    Changes ["admin_insecure", "admin_require_mtls"] root (migrateAdminRequireMtls root).value := by
  unfold migrateAdminRequireMtls take
  have hremoved : Changes ["admin_insecure", "admin_require_mtls"] root (root.swapRemove "admin_insecure") :=
    changes_swapRemove (by decide) root
  cases root.get "admin_insecure" with
  | none => exact hremoved
  | some v => exact hremoved.trans (changes_insert (by decide) _ _)

theorem migratePoolsUpstreamCredentials_changes :
    Changes ["auth", "pools"] root (migratePoolsUpstreamCredentials root).value := by
  unfold migratePoolsUpstreamCredentials take
  split
  · exact Changes.refl _ _
  · next auth hauth =>
    have hinsert : ∀ v, Changes ["auth", "pools"] root (Mapping.insert "auth" v root) := fun v => changes_insert (by decide) v root
    cases auth.get "upstream_credentials" with
    | none => exact Changes.refl _ _
    | some mode =>
      dsimp only
      split
      · exact (hinsert _).trans (changes_insert (by decide) _ _)
      · exact (hinsert _).trans (changes_insert (by decide) _ _)

theorem migrateIdentityProviders_changes :
    Changes ["auth", "identity-providers"] root (migrateIdentityProviders lib root).value := by
  unfold migrateIdentityProviders take
  have hremoved : Changes ["auth", "identity-providers"] root (root.swapRemove "auth") := changes_swapRemove (by decide) root
  have hinsert : ∀ root v, Changes ["auth", "identity-providers"] root (Mapping.insert "auth" v root) :=
    fun root v => changes_insert (by decide) v root
  have hdefs : ∀ root v, Changes ["auth", "identity-providers"] root (Mapping.insert "identity-providers" v root) :=
    fun root v => changes_insert (by decide) v root
  have hwrite : ∀ auth defs root, Changes ["auth", "identity-providers"] root (migrateProviderDefs auth defs root).value := by
    intro auth defs root
    have hwritten : ∀ s, Changes ["auth", "identity-providers"] root (writeProviders s root) := by
      intro s
      unfold writeProviders
      dsimp only
      split
      · exact hinsert _ _
      · exact (hinsert _ _).trans (hdefs _ _)
    unfold migrateProviderDefs
    rw [value_bind]
    exact hwritten _
  cases root.get "auth" with
  | none => exact hremoved
  | some v =>
    cases v with
    | mapping auth =>
      refine hremoved.trans ?_
      generalize root.swapRemove "auth" = root
      have hold : Changes ["auth", "identity-providers"] root (root.swapRemove "identity-providers") :=
        changes_swapRemove (by decide) root
      dsimp only
      cases root.get "identity-providers" with
      | none => exact hold.trans (hwrite _ _ _)
      | some w =>
        cases w with
        | mapping defs => exact hold.trans (hwrite _ _ _)
        | _ => exact hold.trans ((hinsert _ _).trans (hdefs _ _))
    | _ => exact hremoved.trans (hinsert _ _)

theorem migrateStoreModule_changes : Changes ["store"] root (migrateStoreModule lib root).value := by
  unfold migrateStoreModule
  rw [value_bind, value_takeMapping]
  cases root.get "store" with
  | none => exact Changes.refl _ _
  | some v =>
    cases v with
    | mapping store =>
      have hremoved : Changes ["store"] root (root.swapRemove "store") := changes_swapRemove (by decide) root
      dsimp only
      split
      · exact hremoved.trans (changes_insert (by decide) _ _)
      · exact hremoved.trans (changes_insert (by decide) _ _)
    | _ => exact Changes.refl _ _

end Busbar.Migrate
