import Busbar.Config.Migrate.Cleared

/-!
# Pools without marks

Members with a target and exhaustion with an action are rewritten, if they are not under a tag and the action is a string.

* `SectionOk`: the section before its pass, kept by the pass of the hooks.
* `SectionClear`: the section after its pass.
* `unmarked_migratePool`: what the pass makes of a pool.
-/

namespace Busbar.Migrate

open Logged

variable {lib : YamlLib} {root : Mapping} {k : String}

/-- Nothing of the pool is marked. -/
def Unmarked (p : Yaml) : Prop := hasTarget p = false ∧ hasAction p = false

/-- A member with a target is not under a tag. -/
def TargetsRead (pm : Mapping) : Prop :=
  ∀ v ms mem mm, pm.get "members" = some v → v.asSequence = some ms → mem ∈ ms → mem.asMapping = some mm →
    mm.containsKey "target" = true → v = .sequence ms ∧ mem = .mapping mm

/-- An action is a string. -/
def ActionRead (pm : Mapping) : Prop :=
  ∀ v m action, pm.get "on_exhausted" = some v → v.asMapping = some m → m.get "action" = some action → action.asStr ≠ none

/-- A pool that is marked is not under a tag, and so is what it is marked for. -/
structure PoolRead (p : Yaml) : Prop where
  untagged : ¬Unmarked p → ∃ pm, p = .mapping pm
  targets : ∀ pm, p = .mapping pm → TargetsRead pm
  action : ∀ pm, p = .mapping pm → ActionRead pm

/-- So is the section of the pools. -/
def SectionRead (v : Yaml) : Prop :=
  ∀ ps, v.asMapping = some ps → ∀ e ∈ ps, PoolRead e.2 ∧ (¬Unmarked e.2 → v = .mapping ps)

def PoolsRead (root : Mapping) : Prop := ∀ v, root.get "pools" = some v → SectionRead v

/-- Keys are distinct down to the members. -/
def SectionKeyed (v : Yaml) : Prop :=
  ∀ ps pm e, v = .mapping ps → e ∈ ps → e.2 = .mapping pm → Mapping.Distinct pm ∧
    ∀ ms mm, Mapping.get pm "members" = some (.sequence ms) → .mapping mm ∈ ms → Mapping.Distinct mm

theorem keyedItems_iff {l : List Yaml} : Yaml.keyedItems l = true ↔ ∀ v ∈ l, v.keyed = true := by
  induction l with
  | nil => exact ⟨fun _ v hv => absurd hv List.not_mem_nil, fun _ => by unfold Yaml.keyedItems; rfl⟩
  | cons v l ih =>
    unfold Yaml.keyedItems
    rw [Bool.and_eq_true, ih, List.forall_mem_cons]

theorem sectionKeyed {v : Yaml} (hv : v.keyed = true) : SectionKeyed v := by
  rintro ps pm e rfl he hpm
  have hpool := (Mapping.keyed_mapping.1 hv).2 e he
  rw [hpm] at hpool
  refine ⟨distinct_of_keyed hpool, fun ms mm hms hmm => ?_⟩
  have hmembers := Mapping.keyed_get hpool hms
  unfold Yaml.keyed at hmembers
  exact distinct_of_keyed (keyedItems_iff.1 hmembers _ hmm)

/-! ### The hooks of a pool -/

/-- A pool with other hooks. -/
def OtherHooks (p p' : Yaml) : Prop := p' = p ∨ ∃ pm pm', p = .mapping pm ∧ p' = .mapping pm' ∧ Mapping.Distinct pm' ∧
  Mapping.get pm' "members" = Mapping.get pm "members" ∧ Mapping.get pm' "on_exhausted" = Mapping.get pm "on_exhausted"

theorem hasTarget_congr {pm pm' : Mapping} (h : Mapping.get pm' "members" = Mapping.get pm "members") :
    hasTarget (.mapping pm') = hasTarget (.mapping pm) := by
  change List.any (Option.getD (Option.bind (Mapping.get pm' "members") _) _) _ =
    List.any (Option.getD (Option.bind (Mapping.get pm "members") _) _) _
  rw [h]

theorem hasAction_congr {pm pm' : Mapping} (h : Mapping.get pm' "on_exhausted" = Mapping.get pm "on_exhausted") :
    hasAction (.mapping pm') = hasAction (.mapping pm) := by
  change Option.any _ (Option.bind (Mapping.get pm' "on_exhausted") _) = Option.any _ (Option.bind (Mapping.get pm "on_exhausted") _)
  rw [h]

theorem OtherHooks.unmarked {p p' : Yaml} (h : OtherHooks p p') : Unmarked p' ↔ Unmarked p := by
  rcases h with rfl | ⟨pm, pm', rfl, rfl, -, hmembers, haction⟩
  · exact Iff.rfl
  · unfold Unmarked
    rw [hasTarget_congr hmembers, hasAction_congr haction]

theorem OtherHooks.read {p p' : Yaml} (h : OtherHooks p p') (hp : PoolRead p) : PoolRead p' := by
  have hmark := h.unmarked
  rcases h with rfl | ⟨pm, pm', rfl, rfl, -, hmembers, haction⟩
  · exact hp
  · refine ⟨fun _ => ⟨pm', rfl⟩, ?_, ?_⟩
    · rintro _ ⟨⟩
      unfold TargetsRead
      rw [hmembers]
      exact hp.targets pm rfl
    · rintro _ ⟨⟩
      unfold ActionRead
      rw [haction]
      exact hp.action pm rfl

theorem otherHooks_migrateInlineHooks {pool p : Yaml} (hp : ∀ pm, p = .mapping pm → Mapping.Distinct pm) (defs : Mapping) :
    OtherHooks p (migrateInlineHooks lib pool p defs).value.1 := by
  unfold migrateInlineHooks
  split
  · exact Or.inl rfl
  · cases p with
    | mapping pm =>
      have hdistinct := hp pm rfl
      have hremoved : Changes ["hooks"] pm (Mapping.swapRemove "hooks" pm) := changes_swapRemove (by decide) pm
      have hinsert : ∀ v, Changes ["hooks"] pm (Mapping.insert "hooks" v (Mapping.swapRemove "hooks" pm)) :=
        fun v => hremoved.trans (changes_insert (by decide) v _)
      dsimp only
      rw [value_bind, value_takeSequence]
      cases hget : Mapping.get pm "hooks" with
      | none => exact Or.inl rfl
      | some v =>
        cases v with
        | sequence s =>
          dsimp only
          rw [value_bind]
          refine Or.inr ⟨pm, _, rfl, rfl, ?_⟩
          split
          · obtain ⟨hd, hkept⟩ := hremoved hdistinct
            exact ⟨hd, hkept _ (by decide), hkept _ (by decide)⟩
          · obtain ⟨hd, hkept⟩ := hinsert _ hdistinct
            exact ⟨hd, hkept _ (by decide), hkept _ (by decide)⟩
        | _ => exact Or.inl rfl
    | _ => exact Or.inl rfl

/-- The pools of the section are those of old with other hooks. -/
theorem otherHooks_migrateInlinePools {pools : Mapping} (hpools : ∀ e ∈ pools, ∀ pm, e.2 = .mapping pm → Mapping.Distinct pm)
    (defs : Mapping) : ∀ e' ∈ (migrateInlinePools lib pools defs).value.1, ∃ e ∈ pools, OtherHooks e.2 e'.2 := by
  induction pools generalizing defs with
  | nil => exact fun e' he' => absurd he' List.not_mem_nil
  | cons e pools ih =>
    intro e' he'
    unfold migrateInlinePools at he'
    rw [value_bind] at he'
    rcases List.mem_cons.1 he' with rfl | he'
    · exact ⟨e, List.mem_cons_self, otherHooks_migrateInlineHooks (hpools e List.mem_cons_self) defs⟩
    · obtain ⟨x, hx, hsame⟩ := ih (fun e he => hpools e (List.mem_cons_of_mem _ he)) _ e' he'
      exact ⟨x, List.mem_cons_of_mem _ hx, hsame⟩

structure SectionOk (v : Yaml) : Prop where
  read : SectionRead v
  keyed : SectionKeyed v

def PoolsOk (root : Mapping) : Prop := ∀ v, root.get "pools" = some v → SectionOk v

/-- Entries that are pools of old with other hooks, or no mappings. -/
theorem SectionOk.entries {ps ps' : Mapping} (h : SectionOk (.mapping ps))
    (hps : ∀ e' ∈ ps', (∃ e ∈ ps, OtherHooks e.2 e'.2) ∨ e'.2.asMapping = none) : SectionOk (.mapping ps') := by
  constructor
  · rintro _ ⟨⟩ e' he'
    refine ⟨?_, fun _ => rfl⟩
    rcases hps e' he' with ⟨e, he, hsame⟩ | hnone
    · exact hsame.read (h.read ps rfl e he).1
    · have hno : ∀ pm, e'.2 ≠ .mapping pm := by
        intro pm hpm
        rw [hpm] at hnone
        cases hnone
      have hunmarked : Unmarked e'.2 := by
        unfold Unmarked hasTarget hasAction
        rw [hnone]
        exact ⟨rfl, rfl⟩
      exact ⟨fun hmarked => absurd hunmarked hmarked, fun pm hpm => absurd hpm (hno pm), fun pm hpm => absurd hpm (hno pm)⟩
  · rintro _ pm' e' ⟨⟩ he' hpm'
    rcases hps e' he' with ⟨e, he, hsame | ⟨pm, pm'', hpm, hpm'', hd, hmembers, -⟩⟩ | hnone
    · rw [hsame] at hpm'
      exact h.keyed ps pm' e rfl he hpm'
    · rw [hpm'] at hpm''
      obtain rfl := Yaml.mapping.inj hpm''
      refine ⟨hd, fun ms mm hms => ?_⟩
      rw [hmembers] at hms
      exact (h.keyed ps pm e rfl he hpm).2 ms mm hms
    · rw [hpm'] at hnone
      cases hnone

theorem poolsOk_liftInlineHooks {defs : Mapping} (h : PoolsOk root) : PoolsOk (liftInlineHooks lib root defs).value.1 := by
  unfold liftInlineHooks
  cases hget : root.get "pools" with
  | none => exact h
  | some v =>
    cases v with
    | mapping pools =>
      intro w hw
      have hvalue := hw
      change Mapping.get (Mapping.insert "pools" _ root) "pools" = some w at hvalue
      rw [Mapping.get_insert, if_pos rfl] at hvalue
      obtain rfl := Option.some.inj hvalue
      have hold := h _ hget
      refine hold.entries fun e' he' => Or.inl ?_
      exact otherHooks_migrateInlinePools (fun e he pm hpm => (hold.keyed pools pm e rfl he hpm).1) defs e' he'
    | _ => exact h

theorem poolsOk_attachAll {all : List Yaml} (h : PoolsOk root) : PoolsOk (attachAll lib all root).value := by
  unfold attachAll
  split
  · exact h
  · intro w hw
    rw [get_atMapping, if_pos rfl, get_orEmpty, if_pos rfl] at hw
    obtain rfl := Option.some.inj hw
    have hold : SectionOk ((root.get "pools").getD (.mapping [])) := by
      cases hget : root.get "pools" with
      | none =>
        refine ⟨?_, ?_⟩
        · rintro _ ⟨⟩ e he
          cases he
        · rintro _ pm e ⟨⟩ he
          cases he
      | some v => exact h v hget
    generalize (root.get "pools").getD (.mapping []) = v at hold ⊢
    dsimp only
    cases hv : v.mapping? with
    | none =>
      rw [value_onMapping_other hv]
      exact hold
    | some pm =>
      rw [Yaml.mapping?_eq_some] at hv
      subst hv
      have hinsert : ∀ (s : List Yaml) (pm' : Mapping), (∀ e ∈ pm', e ∈ pm) →
          SectionOk (.mapping (Mapping.insert "hooks" (.sequence s) pm')) := by
        intro s pm' hsub
        refine hold.entries fun e' he' => ?_
        rcases Mapping.mem_insert he' with he' | he'
        · exact Or.inl ⟨e', hsub e' he', Or.inl rfl⟩
        · exact Or.inr (by rw [he']; rfl)
      rw [value_onMapping, value_bind, value_takeSequence]
      cases Mapping.get pm "hooks" with
      | none => exact hinsert _ pm fun e he => he
      | some hooks =>
        cases hooks with
        | sequence s => exact hinsert _ _ fun e he => Mapping.mem_swapRemove he
        | _ => exact hold

theorem poolsOk_migrateHooksBlock (hroot : Mapping.Distinct root) (h : PoolsOk root) :
    PoolsOk (migrateHooksBlock lib root).value := by
  have hcongr : ∀ {m m' : Mapping}, m'.get "pools" = m.get "pools" → PoolsOk m → PoolsOk m' := by
    intro m m' hget hm v hv
    exact hm v (hget ▸ hv)
  obtain ⟨hdistinct1, hget1⟩ := @migrateRegistry_changes lib _ hroot
  have h1 := hcongr (hget1 _ (by decide)) h
  unfold migrateHooksBlock
  rw [value_bind]
  generalize (migrateRegistry lib root).value = registry at hdistinct1 h1 ⊢
  obtain ⟨root1, defs1, all1⟩ := registry
  dsimp only at hdistinct1 h1 ⊢
  obtain ⟨hdistinct2, hget2⟩ := @takeGlobalHooks_changes lib _ hdistinct1
  have h2 := hcongr (hget2 _ (by decide)) h1
  rw [value_bind]
  generalize (takeGlobalHooks lib root1).value = taken at hdistinct2 h2 ⊢
  obtain ⟨root2, globals⟩ := taken
  dsimp only at hdistinct2 h2 ⊢
  rw [value_bind]
  generalize (migrateGlobalHooks globals defs1 all1).value = attached
  obtain ⟨defs2, all2⟩ := attached
  dsimp only
  have h3 : PoolsOk (liftInlineHooks lib root2 defs2).value.1 := poolsOk_liftInlineHooks h2
  obtain ⟨hdistinct3, -⟩ := @liftInlineHooks_changes lib _ defs2 hdistinct2
  rw [value_bind]
  generalize (liftInlineHooks lib root2 defs2).value = lifted at h3 hdistinct3 ⊢
  obtain ⟨root3, defs3⟩ := lifted
  dsimp only at h3 hdistinct3 ⊢
  obtain ⟨-, hget4⟩ := @writeDefs_changes _ defs3 hdistinct3
  have h4 := hcongr (hget4 _ (by decide)) h3
  rw [value_bind]
  exact poolsOk_attachAll h4

/-! ### The pass of the pools -/

theorem migratePolicy_changes (pname : Yaml) (pm : Mapping) :
    Changes ["hooks", "policy"] pm (migratePolicy lib pname pm).value := by
  unfold migratePolicy
  split
  · exact Changes.refl _ _
  · rw [value_bind, value_takeSequence]
    have hinsert : ∀ v m, Changes ["hooks", "policy"] m (Mapping.insert "hooks" v (m.swapRemove "policy")) :=
      fun v m => (changes_swapRemove (by decide) m).trans (changes_insert (by decide) v _)
    cases pm.get "hooks" with
    | none => exact hinsert _ pm
    | some v =>
      cases v with
      | sequence s => exact (changes_swapRemove (k := "hooks") (by decide) pm).trans (hinsert _ _)
      | _ => exact Changes.refl _ _

theorem rename_changes {old new text : String} {ks : List String} (hold : old ∈ ks) (hnew : new ∈ ks) (m : Mapping) :
    Changes ks m (rename old new text m).value := by
  unfold rename take
  cases m.get old with
  | none => exact changes_swapRemove hold m
  | some v => exact (changes_swapRemove hold m).trans (changes_insert hnew v _)

theorem get_rename_old {old new text : String} (hne : old ≠ new) {m : Mapping} (hm : Mapping.Distinct m) :
    (rename old new text m).value.get old = none := by
  unfold rename take
  have hremoved : (m.swapRemove old).get old = none := by
    rw [Mapping.get_swapRemove hm, if_pos rfl]
  cases m.get old with
  | none => exact hremoved
  | some v => exact (Mapping.get_insert ..).trans ((if_neg hne).trans hremoved)

/-- A member that is rewritten has no target. -/
theorem migrateMember_target (pname : Yaml) {mem : Mapping} (hm : Mapping.Distinct mem) :
    (migrateMember pname mem).value.containsKey "target" = false := by
  unfold migrateMember
  rw [value_bind, Mapping.containsKey_eq]
  have hrenamed : (rename "target" "model" ("pools." ++ keyText pname ++ ".members[].target -> model") mem).value.get "target" = none :=
    get_rename_old (by decide) hm
  have hchanges : Changes ["target", "model"] mem
      (rename "target" "model" ("pools." ++ keyText pname ++ ".members[].target -> model") mem).value :=
    rename_changes (by decide) (by decide) mem
  have hdistinct := (hchanges hm).1
  clear hchanges
  generalize (rename "target" "model" ("pools." ++ keyText pname ++ ".members[].target -> model") mem).value = mem' at hrenamed hdistinct ⊢
  have hcost : (mem'.swapRemove "cost_per_mtok").get "target" = none := by
    rw [Mapping.get_swapRemove hdistinct, if_neg (by decide), hrenamed]
  unfold take
  cases mem'.get "cost_per_mtok" with
  | none => exact congrArg Option.isSome hcost
  | some v => exact congrArg Option.isSome hcost

/-- An action becomes a keyword or a fallback pool. -/
theorem exhaustedAction_action (pname : Yaml) (action : String) :
    ((exhaustedAction pname action).value.asMapping).any (fun m => m.containsKey "action") = false := by
  unfold exhaustedAction
  cases stripPrefix "fallback_pool:" action with
  | some pool =>
    dsimp only
    split
    · rfl
    · rfl
  | none =>
    dsimp only
    split
    · rfl
    split
    · rfl
    split
    · rfl
    · rfl

/-- **A pool.** It is unmarked after its pass. -/
theorem unmarked_migratePool (pname : Yaml) {pm : Mapping} (hpm : Mapping.Distinct pm)
    (hmembers : ∀ ms mm, pm.get "members" = some (.sequence ms) → .mapping mm ∈ ms → Mapping.Distinct mm)
    (htargets : TargetsRead pm) (haction : ActionRead pm) : Unmarked (.mapping (migratePool lib pname pm).value) := by
  have hpolicy := (@migratePolicy_changes lib pname pm hpm).2
  unfold migratePool
  rw [value_bind]
  generalize (migratePolicy lib pname pm).value = p1 at hpolicy ⊢
  simp only [value_bind]
  -- the members, and then keys that are not marked
  have hget2 : ∀ k', (atSequence "members" (mapItems (onMapping (migrateMember pname))) p1).value.get k' =
      if k' = "members" then (p1.get "members").map fun v => (onSequence (mapItems (onMapping (migrateMember pname))) v).value
      else p1.get k' := fun k' => get_atKey "members" k' _ p1
  generalize (atSequence "members" (mapItems (onMapping (migrateMember pname))) p1).value = p2 at hget2 ⊢
  have hget3 : ∀ f k', k' ≠ "breaker" → (atMapping "breaker" f p2).value.get k' = p2.get k' :=
    fun f k' hk' => (get_atMapping ..).trans (if_neg hk')
  generalize hp3 : (atMapping "breaker" _ p2).value = p3
  replace hget3 : ∀ k', k' ≠ "breaker" → p3.get k' = p2.get k' := by
    intro k' hk'
    rw [← hp3]
    exact hget3 _ k' hk'
  have hget4 : ∀ f k', k' ≠ "failover" → (atMapping "failover" f p3).value.get k' = p3.get k' :=
    fun f k' hk' => (get_atMapping ..).trans (if_neg hk')
  generalize hp4 : (atMapping "failover" _ p3).value = p4
  replace hget4 : ∀ k', k' ≠ "failover" → p4.get k' = p3.get k' := by
    intro k' hk'
    rw [← hp4]
    exact hget4 _ k' hk'
  have hmembers4 : p4.get "members" =
      (pm.get "members").map fun v => (onSequence (mapItems (onMapping (migrateMember pname))) v).value := by
    rw [hget4 _ (by decide), hget3 _ (by decide), hget2, if_pos rfl, hpolicy _ (by decide)]
  have haction4 : p4.get "on_exhausted" = pm.get "on_exhausted" := by
    rw [hget4 _ (by decide), hget3 _ (by decide), hget2, if_neg (by decide), hpolicy _ (by decide)]
  constructor
  · have hsame : (migrateOnExhausted pname p4).value.get "members" = p4.get "members" := by
      unfold migrateOnExhausted
      split
      · rfl
      · exact (Mapping.get_insert ..).trans (if_neg (by decide))
    have hvalue : hasTarget (.mapping (migrateOnExhausted pname p4).value) =
        ((((pm.get "members").map fun v => (onSequence (mapItems (onMapping (migrateMember pname))) v).value).bind
          Yaml.asSequence).getD []).any fun mem => mem.asMapping.any fun m => m.containsKey "target" := by
      rw [← hmembers4, ← hsame]
      rfl
    rw [hvalue, List.any_eq_false]
    intro mem hmem hflag
    cases hget : pm.get "members" with
    | none =>
      rw [hget] at hmem
      cases hmem
    | some v =>
      rw [hget, Option.map_some, Option.bind_some] at hmem
      obtain ⟨mm, hmm, hkey⟩ := (Option.any_eq_true _ _).1 hflag
      cases hv : v.sequence? with
      | none =>
        -- a list under a tag stays as it is
        rw [value_onSequence_other hv] at hmem
        cases hms : v.asSequence with
        | none =>
          rw [hms] at hmem
          cases hmem
        | some ms =>
          rw [hms] at hmem
          have hread := (htargets v ms mem mm hget hms hmem hmm hkey).1
          rw [hread] at hv
          cases hv
      | some ms =>
        rw [Yaml.sequence?_eq_some] at hv
        subst hv
        change mem ∈ (mapItems (onMapping (migrateMember pname)) ms).value at hmem
        rw [value_mapItems] at hmem
        obtain ⟨old, hold, rfl⟩ := List.mem_map.1 hmem
        cases hmap : old.mapping? with
        | none =>
          rw [value_onMapping_other hmap] at hmm
          have hread := (htargets _ ms old mm hget rfl hold hmm hkey).2
          rw [hread] at hmap
          cases hmap
        | some om =>
          rw [Yaml.mapping?_eq_some] at hmap
          subst hmap
          obtain rfl := Option.some.inj hmm
          have hno := migrateMember_target pname (hmembers ms om hget hold)
          rw [hno] at hkey
          cases hkey
  · unfold migrateOnExhausted
    rw [haction4]
    cases haction : (((pm.get "on_exhausted").bind Yaml.asMapping).bind fun m => m.get "action").bind Yaml.asStr with
    | some action =>
      change Option.any _ (Option.bind (Mapping.get (Mapping.insert "on_exhausted" _ p4) "on_exhausted") _) = false
      rw [Mapping.get_insert, if_pos rfl, Option.bind_some]
      exact exhaustedAction_action pname (trim action)
    | none =>
      rw [value_pure, hasAction_congr haction4]
      cases hget : pm.get "on_exhausted" with
      | none =>
        change Option.any _ (Option.bind (Mapping.get pm "on_exhausted") _) = false
        rw [hget]
        rfl
      | some v =>
        change Option.any _ (Option.bind (Mapping.get pm "on_exhausted") _) = false
        rw [hget, Option.bind_some] at haction ⊢
        cases hm : v.asMapping with
        | none => rfl
        | some m =>
          rw [hm, Option.bind_some] at haction
          change m.containsKey "action" = false
          rw [Mapping.containsKey_eq]
          cases ha : m.get "action" with
          | none => rfl
          | some action =>
            rw [ha, Option.bind_some] at haction
            exact absurd haction (‹ActionRead pm› v m action hget hm ha)

/-- No pool of the section is marked. -/
def SectionClear (v : Yaml) : Prop := ∀ ps, v.asMapping = some ps → ∀ e ∈ ps, Unmarked e.2

def PoolsClear (root : Mapping) : Prop := ∀ v, root.get "pools" = some v → SectionClear v

theorem pools_cleared (h : PoolsOk root) : PoolsClear (migratePools lib root).value := by
  intro w hw ps hps e he
  unfold migratePools at hw
  rw [get_atMapping, if_pos rfl] at hw
  obtain ⟨v, hget, rfl⟩ := Option.map_eq_some_iff.1 hw
  obtain ⟨hread, hkeyed⟩ := h v hget
  by_contra hmarked
  cases hv : v.mapping? with
  | none =>
    rw [value_onMapping_other hv] at hps
    rw [(hread ps hps e he).2 hmarked] at hv
    cases hv
  | some old =>
    rw [Yaml.mapping?_eq_some] at hv
    subst hv
    rw [value_onMapping, value_mapValues] at hps
    obtain rfl := Option.some.inj hps
    obtain ⟨x, hx, rfl⟩ := List.mem_map.1 he
    have hpool := (hread old rfl x hx).1
    cases hpm : x.2.mapping? with
    | none =>
      dsimp only at hmarked
      rw [value_onMapping_other hpm] at hmarked
      obtain ⟨pm, hmapping⟩ := hpool.untagged hmarked
      rw [hmapping] at hpm
      cases hpm
    | some pm =>
      rw [Yaml.mapping?_eq_some] at hpm
      obtain ⟨hdistinct, hmembers⟩ := hkeyed old pm x rfl hx hpm
      dsimp only at hmarked
      rw [hpm, value_onMapping] at hmarked
      exact hmarked (unmarked_migratePool x.1 hdistinct hmembers (hpool.targets pm hpm) (hpool.action pm hpm))

theorem hookStages_clear (h : PoolsClear root) : PoolsClear (migrateHookStages root).value := by
  intro w hw ps hps e he
  unfold migrateHookStages at hw
  rw [value_bind, get_atMapping, if_pos rfl] at hw
  obtain ⟨v, hget, rfl⟩ := Option.map_eq_some_iff.1 hw
  replace hget : root.get "pools" = some v := (get_atKey ..).symm.trans hget |> fun h => by rwa [if_neg (by decide)] at h
  cases hv : v.mapping? with
  | none =>
    rw [value_onMapping_other hv] at hps
    exact h v hget ps hps e he
  | some old =>
    rw [Yaml.mapping?_eq_some] at hv
    subst hv
    rw [value_onMapping, value_mapValues] at hps
    obtain rfl := Option.some.inj hps
    obtain ⟨x, hx, rfl⟩ := List.mem_map.1 he
    have hclear := h _ hget old rfl x hx
    cases hpm : x.2.mapping? with
    | none =>
      dsimp only
      rw [value_onMapping_other hpm]
      exact hclear
    | some pm =>
      rw [Yaml.mapping?_eq_some] at hpm
      have hkept : ∀ f k', k' ≠ "hooks" → (atSequence "hooks" f pm).value.get k' = pm.get k' :=
        fun f k' hk' => (get_atKey ..).trans (if_neg hk')
      dsimp only
      rw [hpm] at hclear ⊢
      rw [value_onMapping]
      unfold Unmarked at hclear ⊢
      rw [hasTarget_congr (hkept _ _ (by decide)), hasAction_congr (hkept _ _ (by decide))]
      exact hclear

theorem poolMarkers_clear (h : PoolsClear root) : poolMarkers root = [] := by
  unfold poolMarkers
  cases hget : root.get "pools" with
  | none => rfl
  | some v =>
    rw [Option.bind_some]
    cases hps : v.asMapping with
    | none => rfl
    | some ps =>
      rw [Option.getD_some, List.flatMap_eq_nil_iff]
      intro e he
      obtain ⟨htarget, haction⟩ := h v hget ps hps e he
      rw [htarget, haction]
      rfl

end Busbar.Migrate
