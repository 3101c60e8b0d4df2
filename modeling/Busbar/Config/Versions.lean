import Busbar.Config.Restart

/-!
# The version history

Every install takes the next version and records what it made live; the oldest version makes room. So between two boots the
history has one entry for each of the last versions, and a rollback reaches exactly these.

* `VersionLog.Consecutive`: the history of a version.
* `Recorded`, `step_cases`: what a step does to it.
* `Since`: what is kept of an earlier version.
* `rollback_reaches`: the versions that a rollback brings back.
-/

namespace Busbar

namespace VersionLog

variable {entries : List ConfigVersion} {current : Nat} {v e : ConfigVersion}

/-- The history at a version: an entry for each of the last versions, in order. -/
structure Consecutive (entries : List ConfigVersion) (current : Nat) : Prop where
  numbers : entries.map ConfigVersion.version = List.range' (current + 1 - entries.length) entries.length
  count : entries.length = min maxVersions (current + 1)

theorem Consecutive.mem_bounds (h : Consecutive entries current) (he : e ∈ entries) :
    current + 1 - entries.length ≤ e.version ∧ e.version ≤ current := by
  have hmem : e.version ∈ entries.map ConfigVersion.version := List.mem_map_of_mem he
  rw [h.numbers, List.mem_range'_1] at hmem
  have hcount := h.count
  omega

/-- A version has one entry. -/
theorem Consecutive.get_eq (h : Consecutive entries current) (he : e ∈ entries) :
    VersionLog.get entries e.version = some e := by
  have hnodup : (entries.map ConfigVersion.version).Nodup := by
    rw [h.numbers]
    exact List.nodup_range'
  unfold VersionLog.get
  rcases hfind : entries.find? (fun e' => e'.version = e.version) with _ | e'
  · have hno := List.find?_eq_none.1 hfind e he
    simp at hno
  · have hversion : e'.version = e.version := by simpa using List.find?_some hfind
    have hsame : e' = e := List.inj_on_of_nodup_map hnodup (List.mem_of_find?_eq_some hfind) he hversion
    rw [← hsame, ← hfind, hversion]

theorem Consecutive.get_pruned (h : Consecutive entries current) {version : Nat}
    (hold : version + maxVersions ≤ current) : VersionLog.get entries version = none := by
  refine List.find?_eq_none.2 fun e he => ?_
  have hbounds := h.mem_bounds he
  have hcount := h.count
  have hne : e.version ≠ version := by omega
  simpa using hne

/-- A new version replaces none. -/
theorem Consecutive.record_eq (h : Consecutive entries current) (hv : v.version = current + 1) :
    record entries v = entries.drop (entries.length - (maxVersions - 1)) ++ [v] := by
  have hall : entries.filter (fun e => e.version ≠ v.version) = entries := by
    refine List.filter_eq_self.2 fun e he => ?_
    have hbounds := h.mem_bounds he
    have hne : e.version ≠ v.version := by omega
    simpa using hne
  unfold record
  dsimp only
  rw [hall]

/-- **Recording the next version.** -/
theorem Consecutive.recorded (h : Consecutive entries current) (hv : v.version = current + 1) :
    Consecutive (record entries v) (current + 1) := by
  have hcount := h.count
  have hmax : maxVersions = 100 := rfl
  have hlen : (record entries v).length = entries.length - (entries.length - (maxVersions - 1)) + 1 := by
    rw [h.record_eq hv, List.length_append, List.length_drop, List.length_singleton]
  refine ⟨?_, by omega⟩
  -- the numbers that stay end right before the new one
  have hstart : current + 1 - entries.length + (entries.length - (maxVersions - 1)) * 1 =
      current + 1 + 1 - (entries.length - (entries.length - (maxVersions - 1)) + 1) := by omega
  have hlast : current + 1 + 1 - (entries.length - (entries.length - (maxVersions - 1)) + 1) +
      (entries.length - (entries.length - (maxVersions - 1))) = current + 1 := by omega
  rw [hlen, h.record_eq hv, List.map_append, List.map_drop, h.numbers, List.drop_range', List.range'_1_concat,
    List.map_singleton, hv, hstart, hlast]

/-- A version stays until a hundred newer ones are recorded. -/
theorem Consecutive.mem_record (h : Consecutive entries current) (hv : v.version = current + 1) (he : e ∈ entries)
    (hrecent : current + 1 < e.version + maxVersions) : e ∈ VersionLog.record entries v := by
  have hcount := h.count
  have hmax : maxVersions = 100 := rfl
  obtain ⟨i, hi⟩ := List.mem_iff_getElem?.1 he
  have hlt := (List.getElem?_eq_some_iff.1 hi).1
  have hnumber : (entries.map ConfigVersion.version)[i]? = some e.version := by
    rw [List.getElem?_map, hi]
    rfl
  rw [h.numbers, List.getElem?_range' hlt, Option.some.injEq] at hnumber
  rw [h.record_eq hv]
  refine List.mem_append_left _ (List.mem_iff_getElem?.2 ⟨i - (entries.length - (maxVersions - 1)), ?_⟩)
  rw [List.getElem?_drop, ← hi]
  congr 1
  omega

end VersionLog

namespace ConfigServer

variable {lib : JsonLib} {s s' : ConfigServer} {app next : AppConfig} {c : Commit}

/-- What a version records of the server. -/
def snapshot (s : ConfigServer) : ConfigVersion := ⟨s.app.configVersion, s.app.hookRegistry, s.app.globalHooks⟩

/-! ## What a step does -/

/-- The next version is installed and recorded. -/
structure Recorded (s s' : ConfigServer) : Prop where
  version : s'.app.configVersion = wrapInc64 s.app.configVersion
  versions : s'.versions = VersionLog.record s.versions s'.snapshot

theorem buildWithoutHook_version {name : String} (h : buildWithoutHook app name = .ok next) :
    next.configVersion = wrapInc64 app.configVersion := by
  unfold buildWithoutHook at h
  split at h
  · cases h
  · cases h
    rfl

theorem buildWithRegistry_ok {unopened : Option String} {registry : HookTable} {globalHooks : List String}
    (h : buildWithRegistry unopened app registry globalHooks = .ok next) :
    next = { app with
      configVersion := wrapInc64 app.configVersion
      hookRegistry := registry
      globalHooks := globalHooks } := by
  unfold buildWithRegistry at h
  split at h
  · cases h
  · split at h
    · cases h
    · exact (Except.ok.inj h).symm

theorem buildWithGroup_version {name : String} {cfg : GroupEntry} (h : buildWithGroup app name cfg = .ok next) :
    next.configVersion = wrapInc64 app.configVersion := by
  unfold buildWithGroup at h
  split at h
  · cases h
  · split at h
    · cases h
    · dsimp only at h
      split at h
      · cases h
        rfl
      · cases h

theorem buildWithoutGroup_version {name : String} {bound : Nat} (h : buildWithoutGroup app name bound = .ok next) :
    next.configVersion = wrapInc64 app.configVersion := by
  unfold buildWithoutGroup at h
  split at h
  · cases h
  · split at h
    · cases h
    · dsimp only at h
      split at h
      · cases h
        rfl
      · cases h

/-- **Every handler** commits the next version. -/
theorem handle_version {op : ConfigOp} (hc : s.handle lib op = .ok (some c)) :
    c.installed.configVersion = wrapInc64 s.app.configVersion := by
  cases op with
  | registerHook ifMatch name cfg unopened =>
    obtain ⟨-, next, hb, rfl⟩ := attempt_ok (map_some_ok hc)
    exact congrArg AppConfig.configVersion (buildWithHook_ok hb)
  | putHook ifMatch name cfg unopened =>
    obtain ⟨-, next, hb, rfl⟩ := attempt_ok (map_some_ok hc)
    exact congrArg AppConfig.configVersion (buildWithHook_ok hb)
  | deleteHook ifMatch name =>
    obtain ⟨-, next, hb, rfl⟩ := attempt_ok (map_some_ok hc)
    exact buildWithoutHook_version hb
  | patchHookSettings ifMatch name settings nack unopened =>
    have hp := map_some_ok hc
    unfold AppConfig.patchHookSettings at hp
    split at hp
    · cases hp
    · split at hp
      · cases hp
      · split at hp
        · cases hp
        · obtain ⟨-, next, hb, rfl⟩ := attempt_ok hp
          exact congrArg AppConfig.configVersion (buildWithHook_ok hb)
  | rollback ifMatch version unopened =>
    have hp := map_some_ok hc
    unfold AppConfig.rollbackConfig at hp
    split at hp
    · cases hp
    · split at hp
      · cases hp
      · obtain ⟨-, next, hb, rfl⟩ := attempt_ok hp
        exact congrArg AppConfig.configVersion (buildWithRegistry_ok hb)
  | registerGroup ifMatch name cfg =>
    obtain ⟨-, next, hb, rfl⟩ := attempt_ok (map_some_ok hc)
    exact buildWithGroup_version hb
  | putGroup ifMatch name cfg =>
    obtain ⟨-, next, hb, rfl⟩ := attempt_ok (map_some_ok hc)
    exact buildWithGroup_version hb
  | patchGroup ifMatch name patch =>
    have hp := map_some_ok hc
    unfold AppConfig.patchGroup at hp
    split at hp
    · cases hp
    · obtain ⟨-, next, hb, rfl⟩ := attempt_ok hp
      exact buildWithGroup_version hb
  | deleteGroup ifMatch name bound =>
    obtain ⟨-, next, hb, rfl⟩ := attempt_ok (map_some_ok hc)
    cases bound with
    | none => cases hb
    | some n => exact buildWithoutGroup_version hb
  | provisionGroup name parent =>
    have hp : (s.app.planMintGroup name parent).map (fun plan => plan.map fun next => ⟨next, .groups none (some name)⟩) =
        .ok (some c) := hc
    cases hplan : s.app.planMintGroup name parent with
    | error e =>
      rw [hplan] at hp
      cases hp
    | ok plan =>
      rw [hplan] at hp
      cases plan with
      | none => cases hp
      | some next =>
        cases hp
        obtain ⟨-, parent, hb⟩ := planMintGroup_some hplan
        exact buildWithGroup_version hb
  | restart => cases hc

/-- What a request leaves behind. -/
theorem request_cases (op : ConfigOp) (hs' : s' = match s.handle lib op with
      | .ok (some c) => s.commit c
      | _ => s) : s' = s ∨ Recorded s s' := by
  subst hs'
  split
  · rename_i c hc
    unfold commit
    split
    · exact .inl rfl
    · exact .inr ⟨handle_version hc, rfl⟩
  · exact .inl rfl

/-- **A step** changes nothing, boots the server again, or installs and records the next version. -/
theorem step_cases (lib : JsonLib) (s : ConfigServer) (op : ConfigOp) :
    s.step lib op = s ∨ (op = .restart ∧ ConfigServer.boot s.app.overlayPath s.base s.overlay = .ok (s.step lib op)) ∨
      Recorded s (s.step lib op) := by
  cases op with
  | restart =>
    unfold ConfigServer.step
    dsimp only
    cases hboot : ConfigServer.boot s.app.overlayPath s.base s.overlay with
    | error e => exact .inl rfl
    | ok s' => exact .inr (.inl ⟨rfl, rfl⟩)
  | _ => exact (request_cases _ rfl).imp_right .inr

/-! ## Runs -/

/-- **The invariant**: the history is that of the live version, which it has recorded. -/
structure Logged (s : ConfigServer) : Prop where
  history : VersionLog.Consecutive s.versions s.app.configVersion
  latest : s.snapshot ∈ s.versions

theorem Logged.boot {path : Option String} {base : RootCfg} {overlay : OverlayReadState}
    (h : ConfigServer.boot path base overlay = .ok s) : Logged s ∧ s.app.configVersion = 0 := by
  unfold ConfigServer.boot at h
  cases hcfg : bootMerge path base overlay with
  | error e =>
    rw [hcfg] at h
    cases h
  | ok cfg =>
    rw [hcfg] at h
    cases h
    exact ⟨⟨⟨rfl, rfl⟩, List.mem_singleton_self _⟩, rfl⟩

theorem Recorded.succ (h : Recorded s s') (hfits : s.app.configVersion + 1 < 2 ^ 64) :
    s'.app.configVersion = s.app.configVersion + 1 :=
  h.version.trans (Nat.mod_eq_of_lt hfits)

theorem Logged.recorded (h : Logged s) (hr : Recorded s s') (hfits : s.app.configVersion + 1 < 2 ^ 64) : Logged s' := by
  have hnext := hr.succ hfits
  refine ⟨?_, ?_⟩
  · rw [hr.versions, hnext]
    exact h.history.recorded hnext
  · rw [hr.versions, h.history.record_eq hnext]
    exact List.mem_append_right _ (List.mem_singleton_self _)

/-- The history of a run, as long as versions are left. -/
theorem Logged.after (h : Logged s) (lib : JsonLib) (ops : List ConfigOp)
    (hfits : s.app.configVersion + ops.length < 2 ^ 64) :
    Logged (s.after lib ops) ∧ (s.after lib ops).app.configVersion ≤ s.app.configVersion + ops.length := by
  induction ops generalizing s with
  | nil => exact ⟨h, Nat.le_refl _⟩
  | cons op ops ih =>
    rw [List.length_cons] at hfits ⊢
    have hstep : Logged (s.step lib op) ∧ (s.step lib op).app.configVersion ≤ s.app.configVersion + 1 := by
      rcases step_cases lib s op with hsame | ⟨-, hboot⟩ | hr
      · rw [hsame]
        exact ⟨h, Nat.le_succ _⟩
      · obtain ⟨hlogged, hzero⟩ := Logged.boot hboot
        exact ⟨hlogged, by omega⟩
      · exact ⟨h.recorded hr (by omega), Nat.le_of_eq (hr.succ (by omega))⟩
    obtain ⟨hlogged, hle⟩ := ih hstep.1 (by omega)
    refine ⟨hlogged, Nat.le_trans hle ?_⟩
    omega

/-- What is left of an earlier version: its entry, until a hundred newer ones are recorded. -/
structure Since (earlier : ConfigVersion) (s : ConfigServer) : Prop where
  logged : Logged s
  later : earlier.version ≤ s.app.configVersion
  kept : s.app.configVersion < earlier.version + maxVersions → earlier ∈ s.versions

theorem Since.after {earlier : ConfigVersion} (h : Since earlier s) (ops : List ConfigOp) (hlive : .restart ∉ ops)
    (hfits : s.app.configVersion + ops.length < 2 ^ 64) : Since earlier (s.after lib ops) := by
  induction ops generalizing s with
  | nil => exact h
  | cons op ops ih =>
    rw [List.length_cons] at hfits
    rw [List.mem_cons, not_or] at hlive
    rcases step_cases lib s op with hsame | ⟨hrestart, -⟩ | hr
    · refine ih ?_ hlive.2 ?_
      · rw [hsame]
        exact h
      · rw [hsame]
        omega
    · exact absurd hrestart.symm hlive.1
    · have hnext := hr.succ (by omega)
      refine ih ⟨h.logged.recorded hr (by omega), ?_, fun hrecent => ?_⟩ hlive.2 (by omega)
      · rw [hnext]
        exact Nat.le_succ_of_le h.later
      · rw [hnext] at hrecent
        rw [hr.versions]
        exact h.logged.history.mem_record hnext (h.kept (by omega)) hrecent

/-- **A rollback reaches the last hundred versions**, and no others: in any run of requests between two boots an earlier
version is found until a hundred newer ones are live, with the hooks it had; a rollback to it makes these live again and
keeps the groups. -/
theorem rollback_reaches (lib : JsonLib) {path : Option String} {base : RootCfg} {overlay : OverlayReadState}
    (hboot : ConfigServer.boot path base overlay = .ok s) (pre post : List ConfigOp) (hlive : .restart ∉ post)
    (hfits : (pre ++ post).length < 2 ^ 64) (earlier later : ConfigServer) (hearlier : earlier = s.after lib pre)
    (hlater : later = s.after lib (pre ++ post)) :
    VersionLog.get later.versions earlier.app.configVersion =
      (if later.app.configVersion < earlier.app.configVersion + maxVersions then some earlier.snapshot else none) ∧
    ∀ ifMatch unopened c,
      later.handle lib (.rollback ifMatch earlier.app.configVersion unopened) = .ok (some c) →
      c.installed = { later.app with
        configVersion := wrapInc64 later.app.configVersion
        hookRegistry := earlier.app.hookRegistry
        globalHooks := earlier.app.globalHooks } := by
  obtain ⟨hstart, hzero⟩ := Logged.boot hboot
  rw [List.length_append] at hfits
  obtain ⟨hlogged, hle⟩ := hstart.after lib pre (by omega)
  have hrun : later = earlier.after lib post := by
    rw [hlater, hearlier]
    exact Run.exec_append _ s pre post
  rw [← hearlier] at hlogged hle
  have hsince : Since earlier.snapshot later := by
    rw [hrun]
    exact Since.after ⟨hlogged, Nat.le_refl _, fun _ => hlogged.latest⟩ post hlive (by omega)
  have hget : VersionLog.get later.versions earlier.app.configVersion =
      if later.app.configVersion < earlier.app.configVersion + maxVersions then some earlier.snapshot else none := by
    split
    · rename_i hrecent
      exact hsince.logged.history.get_eq (hsince.kept hrecent)
    · rename_i hold
      exact hsince.logged.history.get_pruned (Nat.le_of_not_lt hold)
  refine ⟨hget, fun ifMatch unopened c hc => ?_⟩
  have hp := map_some_ok hc
  unfold AppConfig.rollbackConfig at hp
  split at hp
  · cases hp
  · split at hp
    · cases hp
    · rename_i target htarget
      rw [hget] at htarget
      obtain ⟨-, next, hb, rfl⟩ := attempt_ok hp
      have hsnapshot : target = earlier.snapshot := by
        split at htarget
        · exact (Option.some.inj htarget).symm
        · cases htarget
      rw [buildWithRegistry_ok hb, hsnapshot]
      rfl

/-- A hook is deleted and a group registered; the version before the deletion is still there. -/
theorem rollback_reaches_deleted :
    VersionLog.get (started.after emptyObjects
        [.registerHook none "trace" (aHook true) none, .deleteHook none "trace",
          .registerGroup none "team" (aGroup (some "org"))]).versions
      (started.after emptyObjects [.registerHook none "trace" (aHook true) none]).app.configVersion =
      some (started.after emptyObjects [.registerHook none "trace" (aHook true) none]).snapshot := by
  have hboot : ConfigServer.boot (some "busbar-overlay.json") aBase .absent = .ok started := rfl
  have hreaches := (rollback_reaches emptyObjects hboot [.registerHook none "trace" (aHook true) none]
    [.deleteHook none "trace", .registerGroup none "team" (aGroup (some "org"))] (by simp) (by simp) _ _ rfl rfl).1
  refine hreaches.trans (if_pos ?_)
  decide +kernel

end ConfigServer

end Busbar
