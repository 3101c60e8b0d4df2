import Busbar.Config.Mutations

/-!
# A restart brings the live configuration back

The API leaves every name of the base as it is, so the whole live registry above the base, with the base's deleted names
gone, is what the next boot reads. A rollback brings back hooks that were live once, which has the base's names as they
are too.

* `mergeInto_hooks`, `mergeInto_globals`, `mergeInto_groups`: the merge in layers.
* `HookCommit`, `GroupCommit`: what a handler commits.
* `ConfigServer.restart_reproduces`: what a boot reads at any time is what is live.
-/

namespace Busbar

open Layer

/-! ## The merge in layers -/

section Merge

variable {cfg : RootCfg} {doc : OverlayDoc}

/-- The set of a list of names. -/
def nameSet (names : List String) : Set String := {name | name ∈ names}

instance (names : List String) : DecidablePred (· ∈ nameSet names) :=
  fun name => inferInstanceAs (Decidable (name ∈ names))

theorem mergeInto_hooks (name : String) :
    (mergeInto cfg doc).hooks.lookup name = merge cfg.hooks.lookup doc.hooks.lookup (nameSet doc.deleted) name := by
  unfold mergeInto merge
  rw [lookup_removeAll, lookup_insertAll]
  rfl

theorem mergeInto_groups (name : String) :
    (mergeInto cfg doc).groups.lookup name =
      merge cfg.groups.lookup doc.groups.lookup (nameSet doc.deletedGroups) name := by
  unfold mergeInto merge
  rw [lookup_removeAll, lookup_insertAll]
  rfl

theorem mergeInto_globals :
    nameSet (mergeInto cfg doc).globalHooks =
      marks (nameSet cfg.globalHooks) (nameSet doc.globalHooks) (nameSet doc.deleted) := by
  ext name
  refine Iff.trans (mem_retainAll _ doc.deleted name) ?_
  rw [mem_union]
  rfl

theorem mem_dom_lookup {β : Type} {T : Table String β} {name : String} :
    name ∈ dom T.lookup ↔ name ∈ T.rows.map Prod.fst := by
  have hsome : name ∈ dom T.lookup ↔ ∃ v, T.lookup name = some v := Option.isSome_iff_exists
  rw [hsome, List.mem_map]
  constructor
  · rintro ⟨v, hv⟩
    exact ⟨(name, v), Table.lookup_eq_some.1 hv, rfl⟩
  · rintro ⟨⟨_, v⟩, hmem, rfl⟩
    exact ⟨v, Table.lookup_eq_some.2 hmem⟩

/-- The tombstones that are written are those of base names that are not live. -/
theorem nameSet_reconcile {β : Type} {baseNames : List String} (base live : Table String β) (deleted : List String)
    (hnames : baseNames = base.rows.map Prod.fst) :
    nameSet (reconcile deleted live baseNames) = pruned base.lookup live.lookup (nameSet deleted) := by
  ext name
  show name ∈ reconcile deleted live baseNames ↔ _
  rw [mem_reconcile, hnames, ← mem_dom_lookup, ← notMem_dom]
  rfl

/-- No tombstone of the base's comes or goes when the names added and cleared are not the base's. -/
theorem mem_tombstones_base {β : Type} {base : Table String β} (deleted : List String)
    {deletedAdd deletedRemove : Option String} (hadd : ∀ name ∈ deletedAdd, name ∉ dom base.lookup)
    (hremove : ∀ name ∈ deletedRemove, name ∉ dom base.lookup) (name : String) (hbase : name ∈ dom base.lookup) :
    name ∈ nameSet (tombstones deleted deletedAdd deletedRemove) ↔ name ∈ nameSet deleted := by
  show name ∈ tombstones deleted deletedAdd deletedRemove ↔ name ∈ deleted
  rw [mem_tombstones]
  constructor
  · rintro ⟨h | h, -⟩
    · exact h
    · exact absurd hbase (hadd name h)
  · intro h
    exact ⟨Or.inl h, fun hr => hremove name hr hbase⟩

end Merge

/-! ## What a boot reads -/

/-- The configuration is the one that is live. -/
structure IsLive (cfg : RootCfg) (app : AppConfig) : Prop where
  hooks : ∀ name, cfg.hooks.lookup name = app.hookRegistry.lookup name
  globals : nameSet cfg.globalHooks = nameSet app.globalHooks
  groups : ∀ name, cfg.groups.lookup name = app.groupsRegistry.lookup name

/-- The document a write goes on from tells what a boot reads. -/
theorem bootMerge_layers (path : String) (base : RootCfg) {file : OverlayReadState} {doc : OverlayDoc}
    (h : loadForRmw file = some doc) :
    ∃ cfg, bootMerge (some path) base file = .ok cfg ∧
      (∀ name, cfg.hooks.lookup name = merge base.hooks.lookup doc.hooks.lookup (nameSet doc.deleted) name) ∧
      nameSet cfg.globalHooks = marks (nameSet base.globalHooks) (nameSet doc.globalHooks) (nameSet doc.deleted) ∧
      ∀ name, cfg.groups.lookup name = merge base.groups.lookup doc.groups.lookup (nameSet doc.deletedGroups) name := by
  cases file with
  | absent =>
    cases h
    -- the default document is empty, as is what it adds
    refine ⟨base, rfl, fun name => ?_, ?_, fun name => ?_⟩
    · rfl
    · ext name
      show name ∈ base.globalHooks ↔ (name ∈ base.globalHooks ∨ name ∈ []) ∧ name ∉ []
      simp
    · rfl
  | loaded d =>
    cases h
    exact ⟨mergeInto base doc, rfl, mergeInto_hooks, mergeInto_globals, mergeInto_groups⟩
  | unreadable => cases h
  | versionTooNew v => cases h

/-! ## What a handler commits -/

/-- The hooks of the base are as they were. -/
def SameHooks (base : RootCfg) (hooks hooks' : HookTable) (globals globals' : List String) : Prop :=
  Agree base.hooks.lookup hooks.lookup hooks'.lookup ∧
    ∀ name ∈ dom base.hooks.lookup, name ∈ nameSet globals ↔ name ∈ nameSet globals'

section SameHooks

variable {base : RootCfg} {hooks hooks' hooks'' : HookTable} {globals globals' globals'' : List String}

theorem SameHooks.refl : SameHooks base hooks hooks globals globals := ⟨fun _ _ => rfl, fun _ _ => Iff.rfl⟩

theorem SameHooks.symm (h : SameHooks base hooks hooks' globals globals') :
    SameHooks base hooks' hooks globals' globals :=
  ⟨fun k hk => (h.1 k hk).symm, fun k hk => (h.2 k hk).symm⟩

theorem SameHooks.trans (h : SameHooks base hooks hooks' globals globals')
    (h' : SameHooks base hooks' hooks'' globals' globals'') : SameHooks base hooks hooks'' globals globals'' :=
  ⟨fun k hk => (h.1 k hk).trans (h'.1 k hk), fun k hk => (h.2 k hk).trans (h'.2 k hk)⟩

end SameHooks

/-- A change of the hooks that leaves the base's alone and tombstones or clears none of them. -/
structure HookCommit (base : RootCfg) (app : AppConfig) (c : Commit) : Prop where
  same : SameHooks base app.hookRegistry c.installed.hookRegistry app.globalHooks c.installed.globalHooks
  persist : ∃ deletedAdd deletedRemove, c.persist = .hooks deletedAdd deletedRemove ∧
    (∀ name ∈ deletedAdd, name ∉ dom base.hooks.lookup) ∧ ∀ name ∈ deletedRemove, name ∉ dom base.hooks.lookup
  frame : ∃ version, c.installed = { app with
    configVersion := version, hookRegistry := c.installed.hookRegistry, globalHooks := c.installed.globalHooks }

/-- The same of the groups. -/
structure GroupCommit (base : RootCfg) (app : AppConfig) (c : Commit) : Prop where
  same : Agree base.groups.lookup app.groupsRegistry.lookup c.installed.groupsRegistry.lookup
  persist : ∃ deletedAdd deletedRemove, c.persist = .groups deletedAdd deletedRemove ∧
    (∀ name ∈ deletedAdd, name ∉ dom base.groups.lookup) ∧ ∀ name ∈ deletedRemove, name ∉ dom base.groups.lookup
  frame : ∃ version, c.installed = { app with
    configVersion := version, groupsRegistry := c.installed.groupsRegistry }

section Handlers

variable {lib : JsonLib} {base : RootCfg} {app next : AppConfig} {name : String} {c : Commit}

theorem map_some_ok {ε α : Type} {r : Except ε α} {a : α} (h : r.map some = .ok (some a)) : r = .ok a := by
  cases r with
  | error e => cases h
  | ok b =>
    cases h
    rfl

theorem attempt_ok {refused : Option AdminError} {build : Except AdminError AppConfig} {p : Persist}
    (h : AppConfig.attempt refused build p = .ok c) :
    refused = none ∧ ∃ installed, build = .ok installed ∧ c = ⟨installed, p⟩ := by
  unfold AppConfig.attempt at h
  cases refused with
  | some e => cases h
  | none =>
    cases build with
    | error e => cases h
    | ok installed =>
      cases h
      exact ⟨rfl, installed, rfl, rfl⟩

theorem notMem_of_baseError {what : String} {baseNames : List String} (h : baseError what baseNames name = none) :
    name ∉ baseNames := by
  intro hmem
  unfold baseError at h
  rw [if_pos hmem] at h
  cases h

/-- A table with one row written or dropped is the same on other names. -/
theorem same_insert {β : Type} {base T : Table String β} {v : β} (hname : name ∉ dom base.lookup) :
    Agree base.lookup T.lookup (T.insert name v).lookup := by
  intro k hk
  have hne : name ≠ k := by
    rintro rfl
    exact hname hk
  rw [Table.lookup_insert, if_neg hne]

theorem same_erase {β : Type} {base T : Table String β} (hname : name ∉ dom base.lookup) :
    Agree base.lookup T.lookup (Table.lookup (Registry.erase name T)) := by
  intro k hk
  have hne : name ≠ k := by
    rintro rfl
    exact hname hk
  rw [Table.lookup_erase, if_neg hne]

theorem buildWithHook_ok {unopened : Option String} {cfg : HookCfg}
    (h : buildWithHook lib unopened app name cfg = .ok next) :
    next = { app with
      configVersion := wrapInc64 app.configVersion
      hookRegistry := app.hookRegistry.insert name cfg
      globalHooks :=
        if cfg.global then if name ∈ app.globalHooks then app.globalHooks else app.globalHooks ++ [name]
        else app.globalHooks.filter (fun n => n ≠ name) } := by
  unfold buildWithHook at h
  split at h
  · cases h
  · split at h
    · cases h
    · exact (Except.ok.inj h).symm

/-- A hook of another name than the base's, written with or without its wiring. -/
theorem HookCommit.of_write {unopened : Option String} {cfg : HookCfg}
    (hname : name ∉ dom base.hooks.lookup) (h : buildWithHook lib unopened app name cfg = .ok next) :
    HookCommit base app ⟨next, .hooks none (some name)⟩ where
  same := by
    rw [buildWithHook_ok h]
    refine ⟨same_insert hname, fun k hk => ?_⟩
    have hne : k ≠ name := by
      rintro rfl
      exact hname hk
    show k ∈ app.globalHooks ↔ k ∈ (if cfg.global then
      if name ∈ app.globalHooks then app.globalHooks else app.globalHooks ++ [name]
      else app.globalHooks.filter (fun n => n ≠ name))
    split
    · split
      · exact Iff.rfl
      · rw [List.mem_append, List.mem_singleton]
        exact ⟨Or.inl, fun hm => hm.resolve_right hne⟩
    · rw [List.mem_filter, decide_eq_true_eq]
      exact ⟨fun hm => ⟨hm, hne⟩, And.left⟩
  persist := by
    refine ⟨none, some name, rfl, nofun, fun n hn => ?_⟩
    cases hn
    exact hname
  frame := by
    rw [buildWithHook_ok h]
    exact ⟨_, rfl⟩

theorem HookCommit.of_delete (hname : name ∉ dom base.hooks.lookup) (h : buildWithoutHook app name = .ok next) :
    HookCommit base app ⟨next, .hooks (some name) none⟩ := by
  have hnext : next = { app with
      configVersion := wrapInc64 app.configVersion
      hookRegistry := Registry.erase name app.hookRegistry
      globalHooks := app.globalHooks.filter (fun n => n ≠ name) } := by
    unfold buildWithoutHook at h
    split at h
    · cases h
    · exact (Except.ok.inj h).symm
  subst hnext
  refine ⟨⟨same_erase hname, fun k hk => ?_⟩, ⟨some name, none, rfl, fun n hn => ?_, nofun⟩, _, rfl⟩
  · have hne : k ≠ name := by
      rintro rfl
      exact hname hk
    show k ∈ app.globalHooks ↔ k ∈ app.globalHooks.filter (fun n => n ≠ name)
    rw [List.mem_filter, decide_eq_true_eq]
    exact ⟨fun hm => ⟨hm, hne⟩, And.left⟩
  · cases hn
    exact hname

/-- A rollback installs what was recorded. -/
theorem HookCommit.of_rollback {unopened : Option String} {target : ConfigVersion}
    (hsame : SameHooks base app.hookRegistry target.hookRegistry app.globalHooks target.globalHooks)
    (h : buildWithRegistry unopened app target.hookRegistry target.globalHooks = .ok next) :
    HookCommit base app ⟨next, .hooks none none⟩ := by
  have hnext : next = { app with
      configVersion := wrapInc64 app.configVersion
      hookRegistry := target.hookRegistry
      globalHooks := target.globalHooks } := by
    unfold buildWithRegistry at h
    split at h
    · cases h
    · split at h
      · cases h
      · exact (Except.ok.inj h).symm
  subst hnext
  exact ⟨hsame, ⟨none, none, rfl, nofun, nofun⟩, _, rfl⟩

theorem GroupCommit.of_write {cfg : GroupEntry} (hname : name ∉ dom base.groups.lookup)
    (h : buildWithGroup app name cfg = .ok next) : GroupCommit base app ⟨next, .groups none (some name)⟩ := by
  have hnext : next = { app with
      configVersion := wrapInc64 app.configVersion
      groupsRegistry := app.groupsRegistry.insert name cfg } := by
    unfold buildWithGroup at h
    split at h
    · cases h
    · split at h
      · cases h
      · dsimp only at h
        split at h
        · exact (Except.ok.inj h).symm
        · cases h
  subst hnext
  refine ⟨same_insert hname, ⟨none, some name, rfl, nofun, fun n hn => ?_⟩, _, rfl⟩
  cases hn
  exact hname

theorem GroupCommit.of_delete {bound : Nat} (hname : name ∉ dom base.groups.lookup)
    (h : buildWithoutGroup app name bound = .ok next) : GroupCommit base app ⟨next, .groups (some name) none⟩ := by
  have hnext : next = { app with
      configVersion := wrapInc64 app.configVersion
      groupsRegistry := Registry.erase name app.groupsRegistry } := by
    unfold buildWithoutGroup at h
    split at h
    · cases h
    · split at h
      · cases h
      · dsimp only at h
        split at h
        · exact (Except.ok.inj h).symm
        · cases h
  subst hnext
  refine ⟨same_erase hname, ⟨some name, none, rfl, fun n hn => ?_, nofun⟩, _, rfl⟩
  cases hn
  exact hname

theorem planMintGroup_some {parent : Option String} (h : app.planMintGroup name parent = .ok (some next)) :
    name ∉ app.baseGroupNames ∧
      ∃ parent, buildWithGroup app name (provisionChild app.groupsRegistry parent) = .ok next := by
  unfold AppConfig.planMintGroup at h
  split at h
  · split at h
    · cases h
    · split at h <;> cases h
  · split at h
    · cases h
    · rename_i parent
      split at h
      · cases h
      · split at h
        · cases h
        · split at h
          · cases h
          · rename_i hbase
            split at h
            · cases h
            · exact ⟨hbase, parent, map_some_ok h⟩

end Handlers

/-! ## Runs -/

namespace ConfigServer

variable {lib : JsonLib} {s : ConfigServer} {c : Commit}

/-- What a run keeps: a boot would read what is live, and every version recorded has the base's hooks as they are. -/
structure Durable (s : ConfigServer) : Prop where
  hookNames : s.app.baseHookNames = s.base.hooks.rows.map Prod.fst
  groupNames : s.app.baseGroupNames = s.base.groups.rows.map Prod.fst
  boots : ∃ cfg, bootMerge s.app.overlayPath s.base s.overlay = .ok cfg ∧ IsLive cfg s.app
  versions : ∀ v ∈ s.versions,
    SameHooks s.base s.app.hookRegistry v.hookRegistry s.app.globalHooks v.globalHooks

theorem Durable.notMem_hooks (h : Durable s) {name : String} (hname : name ∉ s.app.baseHookNames) :
    name ∉ dom s.base.hooks.lookup := by
  rw [h.hookNames] at hname
  rwa [mem_dom_lookup]

theorem Durable.notMem_groups (h : Durable s) {name : String} (hname : name ∉ s.app.baseGroupNames) :
    name ∉ dom s.base.groups.lookup := by
  rw [h.groupNames] at hname
  rwa [mem_dom_lookup]

/-- **Every handler** commits a change of the hooks or of the groups that leaves the base alone. -/
theorem handle_spec (h : Durable s) {op : ConfigOp} (hc : s.handle lib op = .ok (some c)) :
    HookCommit s.base s.app c ∨ GroupCommit s.base s.app c := by
  have hguard : ∀ {a b : Option AdminError}, a.or b = none → a = none ∧ b = none := Option.or_eq_none_iff.1
  cases op with
  | registerHook ifMatch name cfg unopened =>
    obtain ⟨hok, next, hb, rfl⟩ := attempt_ok (map_some_ok hc)
    have hname := h.notMem_hooks (notMem_of_baseError (hguard hok).1)
    exact Or.inl (HookCommit.of_write hname hb)
  | putHook ifMatch name cfg unopened =>
    obtain ⟨hok, next, hb, rfl⟩ := attempt_ok (map_some_ok hc)
    have hname := h.notMem_hooks (notMem_of_baseError (hguard (hguard hok).1).2)
    exact Or.inl (HookCommit.of_write hname hb)
  | deleteHook ifMatch name =>
    obtain ⟨hok, next, hb, rfl⟩ := attempt_ok (map_some_ok hc)
    have hname := h.notMem_hooks (notMem_of_baseError (hguard (hguard hok).1).2)
    exact Or.inl (HookCommit.of_delete hname hb)
  | patchHookSettings ifMatch name settings nack unopened =>
    have hp := map_some_ok hc
    unfold AppConfig.patchHookSettings at hp
    split at hp
    · cases hp
    · split at hp
      · cases hp
      · split at hp
        · cases hp
        · rename_i hbase
          obtain ⟨-, next, hb, rfl⟩ := attempt_ok hp
          exact Or.inl (HookCommit.of_write (h.notMem_hooks hbase) hb)
  | rollback ifMatch version unopened =>
    have hp := map_some_ok hc
    unfold AppConfig.rollbackConfig at hp
    split at hp
    · cases hp
    · split at hp
      · cases hp
      · rename_i target hget
        obtain ⟨-, next, hb, rfl⟩ := attempt_ok hp
        have hmem : target ∈ s.versions := List.mem_of_find?_eq_some hget
        exact Or.inl (HookCommit.of_rollback (h.versions target hmem) hb)
  | registerGroup ifMatch name cfg =>
    obtain ⟨hok, next, hb, rfl⟩ := attempt_ok (map_some_ok hc)
    have hname := h.notMem_groups (notMem_of_baseError (hguard hok).1)
    exact Or.inr (GroupCommit.of_write hname hb)
  | putGroup ifMatch name cfg =>
    obtain ⟨hok, next, hb, rfl⟩ := attempt_ok (map_some_ok hc)
    have hname := h.notMem_groups (notMem_of_baseError (hguard (hguard hok).1).2)
    exact Or.inr (GroupCommit.of_write hname hb)
  | patchGroup ifMatch name patch =>
    have hp := map_some_ok hc
    unfold AppConfig.patchGroup at hp
    split at hp
    · cases hp
    · obtain ⟨hok, next, hb, rfl⟩ := attempt_ok hp
      have hname := h.notMem_groups (notMem_of_baseError (hguard hok).1)
      exact Or.inr (GroupCommit.of_write hname hb)
  | deleteGroup ifMatch name bound =>
    obtain ⟨hok, next, hb, rfl⟩ := attempt_ok (map_some_ok hc)
    have hname := h.notMem_groups (notMem_of_baseError (hguard (hguard hok).1).2)
    cases bound with
    | none => cases hb
    | some n => exact Or.inr (GroupCommit.of_delete hname hb)
  | provisionGroup name parent =>
    have hp : (s.app.planMintGroup name parent).map (fun plan => plan.map fun next => ⟨next, .groups none (some name)⟩) =
        .ok (some c) := hc
    cases hplan : s.app.planMintGroup name parent with
    | error e =>
      rw [hplan] at hp
      cases hp
    | ok plan =>
      rw [hplan] at hp
      cases plan with
      | none => cases hp
      | some next =>
        cases hp
        obtain ⟨hname, parent, hb⟩ := planMintGroup_some hplan
        exact Or.inr (GroupCommit.of_write (h.notMem_groups hname) hb)
  | restart => cases hc

/-! ### One commit -/

theorem mem_record {entries : List ConfigVersion} {v w : ConfigVersion} (h : v ∈ VersionLog.record entries w) :
    v ∈ entries ∨ v = w := by
  unfold VersionLog.record at h
  rcases List.mem_append.1 h with hold | hnew
  · exact Or.inl (List.mem_filter.1 (List.mem_of_mem_drop hold)).1
  · exact Or.inr (List.mem_singleton.1 hnew)

/-- What the document before a write tells is live. -/
theorem Durable.told (h : Durable s) {path : String} {doc : OverlayDoc} (hpath : s.app.overlayPath = some path)
    (hdoc : loadForRmw s.overlay = some doc) :
    (∀ name, merge s.base.hooks.lookup doc.hooks.lookup (nameSet doc.deleted) name = s.app.hookRegistry.lookup name) ∧
      marks (nameSet s.base.globalHooks) (nameSet doc.globalHooks) (nameSet doc.deleted) = nameSet s.app.globalHooks ∧
      ∀ name, merge s.base.groups.lookup doc.groups.lookup (nameSet doc.deletedGroups) name =
        s.app.groupsRegistry.lookup name := by
  obtain ⟨cfg, hboot, hlive⟩ := h.boots
  obtain ⟨cfg', hboot', hhooks, hglobals, hgroups⟩ := bootMerge_layers path s.base hdoc
  rw [hpath, hboot'] at hboot
  cases hboot
  refine ⟨fun name => ?_, ?_, fun name => ?_⟩
  · rw [← hhooks name, hlive.hooks name]
  · rw [← hglobals, hlive.globals]
  · rw [← hgroups name, hlive.groups name]

/-- **A commit of hooks.** -/
theorem Durable.commit_hooks (h : Durable s) (hbase : s.base.GlobalsKnown) (hc : HookCommit s.base s.app c) :
    Durable (s.commit c) := by
  obtain ⟨deletedAdd, deletedRemove, hpersist, hadd, hremove⟩ := hc.persist
  obtain ⟨version, hframe⟩ := hc.frame
  have hpath' : c.installed.overlayPath = s.app.overlayPath := by rw [hframe]
  have hnames' : c.installed.baseHookNames = s.app.baseHookNames := by rw [hframe]
  have hgroups' : c.installed.groupsRegistry = s.app.groupsRegistry := by rw [hframe]
  have hgroupNames' : c.installed.baseGroupNames = s.app.baseGroupNames := by rw [hframe]
  unfold commit Persist.document
  rw [hpersist]
  dsimp only
  unfold persist
  cases hpath : s.app.overlayPath with
  | none =>
    rw [hpath', hpath]
    exact h
  | some path =>
    rw [hpath', hpath]
    dsimp only
    cases hdoc : loadForRmw s.overlay with
    | none => exact h
    | some doc =>
      dsimp only
      obtain ⟨hhooks, hglobals, hgroups⟩ := h.told hpath hdoc
      have hstones := mem_tombstones_base doc.deleted hadd hremove
      have hrest := nameSet_reconcile s.base.hooks c.installed.hookRegistry
        (tombstones doc.deleted deletedAdd deletedRemove) (hnames'.trans h.hookNames)
      refine ⟨hnames'.trans h.hookNames, hgroupNames'.trans h.groupNames, ?_, ?_⟩
      · rw [hpath', hpath]
        refine ⟨_, rfl, fun name => ?_, ?_, fun name => ?_⟩
        · rw [mergeInto_hooks]
          exact merge_write hhooks hc.same.1 (fun k hk => (hstones k hk).2) hrest name
        · rw [mergeInto_globals]
          dsimp only
          rw [hrest]
          refine marks_write hhooks hglobals hc.same.1 hc.same.2 ?_ hstones
          intro name hname
          exact hbase name hname
        · rw [mergeInto_groups, hgroups']
          exact hgroups name
      · intro v hv
        rcases mem_record hv with hold | rfl
        · exact (hc.same.symm).trans (h.versions v hold)
        · exact SameHooks.refl

/-- **A commit of groups.** -/
theorem Durable.commit_groups (h : Durable s) (hc : GroupCommit s.base s.app c) : Durable (s.commit c) := by
  obtain ⟨deletedAdd, deletedRemove, hpersist, hadd, hremove⟩ := hc.persist
  obtain ⟨version, hframe⟩ := hc.frame
  have hpath' : c.installed.overlayPath = s.app.overlayPath := by rw [hframe]
  have hnames' : c.installed.baseHookNames = s.app.baseHookNames := by rw [hframe]
  have hgroupNames' : c.installed.baseGroupNames = s.app.baseGroupNames := by rw [hframe]
  have hhooks' : c.installed.hookRegistry = s.app.hookRegistry := by rw [hframe]
  have hglobals' : c.installed.globalHooks = s.app.globalHooks := by rw [hframe]
  unfold commit Persist.document
  rw [hpersist]
  dsimp only
  unfold persistGroups
  cases hpath : s.app.overlayPath with
  | none =>
    rw [hpath', hpath]
    exact h
  | some path =>
    rw [hpath', hpath]
    dsimp only
    cases hdoc : loadForRmw s.overlay with
    | none => exact h
    | some doc =>
      dsimp only
      obtain ⟨hhooks, hglobals, hgroups⟩ := h.told hpath hdoc
      have hstones := mem_tombstones_base doc.deletedGroups hadd hremove
      have hrest := nameSet_reconcile s.base.groups c.installed.groupsRegistry
        (tombstones doc.deletedGroups deletedAdd deletedRemove) (hgroupNames'.trans h.groupNames)
      refine ⟨hnames'.trans h.hookNames, hgroupNames'.trans h.groupNames, ?_, ?_⟩
      · rw [hpath', hpath]
        refine ⟨_, rfl, fun name => ?_, ?_, fun name => ?_⟩
        · rw [mergeInto_hooks, hhooks']
          exact hhooks name
        · rw [mergeInto_globals, hglobals']
          exact hglobals
        · rw [mergeInto_groups]
          exact merge_write hgroups hc.same (fun k hk => (hstones k hk).2) hrest name
      · intro v hv
        rw [hhooks', hglobals'] at hv ⊢
        rcases mem_record hv with hold | rfl
        · exact h.versions v hold
        · exact SameHooks.refl

/-- **A boot** reads what is then live. -/
theorem Durable.boot {path : Option String} {base : RootCfg} {overlay : OverlayReadState}
    (h : ConfigServer.boot path base overlay = .ok s) : Durable s ∧ s.base = base ∧ s.app.overlayPath = path := by
  unfold ConfigServer.boot at h
  cases hcfg : bootMerge path base overlay with
  | error e =>
    rw [hcfg] at h
    cases h
  | ok cfg =>
    rw [hcfg] at h
    cases h
    refine ⟨⟨rfl, rfl, ⟨cfg, hcfg, fun _ => rfl, rfl, fun _ => rfl⟩, fun v hv => ?_⟩, rfl, rfl⟩
    rcases mem_record hv with hnone | rfl
    · cases hnone
    · exact SameHooks.refl

/-- A commit stays at its base and its file. -/
theorem commit_frame (h : HookCommit s.base s.app c ∨ GroupCommit s.base s.app c) :
    (s.commit c).base = s.base ∧ (s.commit c).app.overlayPath = s.app.overlayPath := by
  have hpath : c.installed.overlayPath = s.app.overlayPath := by
    rcases h with hc | hc
    · obtain ⟨version, hframe⟩ := hc.frame
      rw [hframe]
    · obtain ⟨version, hframe⟩ := hc.frame
      rw [hframe]
  unfold commit
  split
  · exact ⟨rfl, rfl⟩
  · exact ⟨rfl, hpath⟩

/-- What a request leaves behind. -/
theorem Durable.handled (h : Durable s) (hbase : s.base.GlobalsKnown) (op : ConfigOp) {s' : ConfigServer}
    (hs' : s' = match s.handle lib op with
      | .ok (some c) => s.commit c
      | _ => s) :
    Durable s' ∧ s'.base = s.base ∧ s'.app.overlayPath = s.app.overlayPath := by
  subst hs'
  split
  · rename_i c hc
    have hspec := handle_spec h hc
    refine ⟨?_, commit_frame hspec⟩
    rcases hspec with hhooks | hgroups
    · exact h.commit_hooks hbase hhooks
    · exact h.commit_groups hgroups
  · exact ⟨h, rfl, rfl⟩

/-- **No step loses it.** -/
theorem Durable.step (h : Durable s) (hbase : s.base.GlobalsKnown) (op : ConfigOp) :
    Durable (s.step lib op) ∧ (s.step lib op).base = s.base ∧
      (s.step lib op).app.overlayPath = s.app.overlayPath := by
  cases op with
  | restart =>
    unfold ConfigServer.step
    dsimp only
    cases hboot : ConfigServer.boot s.app.overlayPath s.base s.overlay with
    | error e => exact ⟨h, rfl, rfl⟩
    | ok s' => exact Durable.boot hboot
  | _ => exact h.handled hbase _ rfl

/-- **A restart reproduces the live configuration**: after any requests and restarts, what a boot makes of the base and the
overlay is the hooks, the global hooks and the groups that are live. -/
theorem restart_reproduces {path : Option String} {base : RootCfg} {overlay : OverlayReadState}
    (hbase : base.GlobalsKnown) (hboot : ConfigServer.boot path base overlay = .ok s) (ops : List ConfigOp) :
    ∃ cfg, bootMerge path base (s.after lib ops).overlay = .ok cfg ∧
      (∀ name, cfg.hooks.lookup name = (s.after lib ops).app.hookRegistry.lookup name) ∧
      (∀ name, name ∈ cfg.globalHooks ↔ name ∈ (s.after lib ops).app.globalHooks) ∧
      ∀ name, cfg.groups.lookup name = (s.after lib ops).app.groupsRegistry.lookup name := by
  have hrun : Durable (s.after lib ops) ∧ (s.after lib ops).base = base ∧ (s.after lib ops).app.overlayPath = path := by
    refine Run.exec_invariant (ConfigServer.step lib)
      (I := fun s => Durable s ∧ s.base = base ∧ s.app.overlayPath = path) ?_ (Durable.boot hboot) ops
    rintro s op ⟨hs, rfl, rfl⟩
    exact hs.step hbase op
  obtain ⟨hs, hb, hp⟩ := hrun
  obtain ⟨cfg, hcfg, hlive⟩ := hs.boots
  rw [hb, hp] at hcfg
  exact ⟨cfg, hcfg, hlive.hooks, fun name => Set.ext_iff.1 hlive.globals name, hlive.groups⟩

/-! ### A run -/

section Example

def aHook (global : Bool) : HookCfg :=
  { kind := .tap, plugin := "logger", timeoutMs := 1, onError := "nothing", prompt := .no, user := .no, priority := 0
    atStage := none, onEmpty := none, settings := [], signals := [], global := global, default := false, groups := []
    phase := [] }

def aGroup (parent : Option String) : GroupEntry := { parent := parent, enabled := true, limits := [], childDefault := none }

/-- A base with a hook on every pool and a group. -/
def aBase : RootCfg :=
  { hooks := Registry.empty.put ("screen", aHook false), globalHooks := ["screen"]
    groups := Registry.empty.put ("org", aGroup none), pools := ["main"], maxAutoProvisionedGroups := 0 }

/-- The serializer on empty settings. -/
def emptyObjects : JsonLib := ⟨fun _ => none, fun _ => none, fun _ => [0x7B, 0x7D]⟩

/-- A hook is registered and deleted, and a rollback brings it back; the groups change in between. -/
def backAgain : List ConfigOp :=
  [.registerHook none "trace" (aHook true) none, .registerGroup none "team" (aGroup (some "org")),
    .deleteHook none "trace", .provisionGroup "user:a" (some "team"), .rollback none 2 none, .restart,
    .deleteGroup none "user:a" (some 0)]

def started : ConfigServer :=
  { base := aBase
    overlay := .absent
    app :=
      { hookRegistry := aBase.hooks, globalHooks := ["screen"], groupsRegistry := aBase.groups
        baseHookNames := ["screen"], baseGroupNames := ["org"], pools := ["main"], configVersion := 0
        overlayPath := some "busbar-overlay.json", maxAutoProvisionedGroups := 0 }
    versions := [⟨0, aBase.hooks, ["screen"]⟩] }

theorem restart_reproduces_backAgain :
    ∃ cfg, bootMerge (some "busbar-overlay.json") aBase (started.after emptyObjects backAgain).overlay = .ok cfg ∧
      (cfg.hooks.lookup "trace").isSome = true ∧ "trace" ∈ cfg.globalHooks ∧
      (cfg.hooks.lookup "screen").isSome = true ∧ cfg.groups.lookup "team" = some (aGroup (some "org")) ∧
      cfg.groups.lookup "user:a" = none := by
  have hbase : aBase.GlobalsKnown := by
    intro name hname
    cases List.mem_singleton.1 hname
    rfl
  have hboot : ConfigServer.boot (some "busbar-overlay.json") aBase .absent = .ok started := rfl
  obtain ⟨cfg, hcfg, hhooks, hglobals, hgroups⟩ := restart_reproduces hbase hboot backAgain
  refine ⟨cfg, hcfg, ?_, ?_, ?_, ?_, ?_⟩
  · rw [hhooks]
    decide +kernel
  · rw [hglobals]
    decide +kernel
  · rw [hhooks]
    decide +kernel
  · rw [hgroups]
    decide +kernel
  · rw [hgroups]
    decide +kernel

end Example

end ConfigServer

end Busbar
