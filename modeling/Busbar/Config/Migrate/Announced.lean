import Busbar.Config.Migrate.CapsRun
import Busbar.Config.Migrate.ClearedExport
import Busbar.Config.Migrate.ClearedIdentity

/-!
# What is left of old has an item

A document that a run puts out is refused at a start only for what the run has listed for the operator.

* `Legible`: what the run asks of its document.
* `markers_announced`: the markers of the output.
-/

namespace Busbar.Migrate

open Logged

variable {lib : YamlLib} {root : Mapping} {todos : List Todo} {out : MigrateOutput}

/-- Some item is for a place that the marker was seen at, or for something around it. -/
def Announced (todos : List Todo) (mk : Marker) : Prop := ∃ place ∈ mk.places, ∃ t ∈ todos, t.path <+: place

/-- Sections and entries that are rewritten are not under tags, a new definition has a module, and there is one role map. -/
structure Legible (root : Mapping) : Prop where
  auth : OfAuth (fun A => AuthRead A ∧ (root.get "group_map" ≠ none → A.get "group_map" = none)) root
  admin : ∀ top, root.get "admin_auth" = some top → ∀ e ∈ adminEntries top, Untagged e
  identities : IdentityRead (root.get "identity-providers")
  providers : ProvidersRead root
  hooks : HooksNamed root
  pools : PoolsRead root
  exports : OfExport EntriesRead root

/-! ## The ledger of a run -/

theorem todos_of_said (hout : migrateConfig lib root = some out) {path : List Yaml} (h : Says (migratePasses lib root).ledger path) :
    ∃ t ∈ out.todos, t.path = path := by
  obtain ⟨t, ht, hpath⟩ := h
  unfold migrateConfig at hout
  dsimp only at hout
  split at hout
  · cases hout
  · obtain rfl := Option.some.inj hout
    exact ⟨t, List.mem_filterMap.2 ⟨_, ht, rfl⟩, hpath⟩

theorem no_panic (hout : migrateConfig lib root = some out) : ¬Panics (migratePasses lib root).ledger := by
  rintro ⟨text, htext⟩
  unfold migrateConfig at hout
  dsimp only at hout
  split at hout
  · cases hout
  · next hno =>
    exact hno (List.any_eq_true.2 ⟨_, htext, rfl⟩)

theorem doc_eq (hout : migrateConfig lib root = some out) : out.doc = rootAt lib root 18 :=
  (migrateConfig_doc hout).trans (rootAt_length lib root).symm

/-- What a pass clears is clear, or there is an item. -/
theorem cleared_or_listed (hout : migrateConfig lib root = some out) {i : Nat} {p : Pass} (hp : (passes lib)[i]? = some p)
    {C : Prop} {path : List Yaml} (h : C ∨ Says (p.run (rootAt lib root i)).ledger path ∨ Panics (p.run (rootAt lib root i)).ledger) :
    C ∨ ∃ t ∈ out.todos, t.path = path := by
  have hmono : ∀ e ∈ (p.run (rootAt lib root i)).ledger, e ∈ (migratePasses lib root).ledger := fun e he => ledger_at hp he
  rcases h with hc | hsaid | hpanics
  · exact Or.inl hc
  · exact Or.inr (todos_of_said hout (hsaid.mono hmono))
  · exact absurd (hpanics.mono hmono) (no_panic hout)

theorem announced_marker {c : Bool} {places : List (List Yaml)} {text : String}
    (h : c = true → ∃ place ∈ places, ∃ t ∈ todos, t.path <+: place) : ∀ mk ∈ marker c places text, Announced todos mk := by
  intro mk hmk
  unfold marker at hmk
  split at hmk
  · next hc =>
    obtain rfl := List.mem_singleton.1 hmk
    exact h hc
  · cases hmk

/-- A key of the document is gone, or listed. -/
def GoneOrListed (out : MigrateOutput) (k : String) : Prop := out.doc.get k = none ∨ ∃ t ∈ out.todos, t.path = [str k]

theorem announced_keyMarker {k text : String} (h : GoneOrListed out k) : ∀ mk ∈ keyMarker out.doc [] k text, Announced out.todos mk := by
  refine announced_marker fun hsome => ?_
  rcases h with hnone | ⟨t, ht, hpath⟩
  · rw [hnone] at hsome
    cases hsome
  · exact ⟨_, List.mem_singleton_self _, t, ht, hpath ▸ List.prefix_rfl⟩

/-- A key of the document that a pass clears, and later ones leave. -/
theorem goneOrListed (hout : migrateConfig lib root = some out) {i : Nat} {p : Pass} (hp : (passes lib)[i]? = some p) {k : String}
    (hlater : (rootAt lib root 18).get k = (rootAt lib root (i + 1)).get k)
    (h : (p.run (rootAt lib root i)).value.get k = none ∨ Says (p.run (rootAt lib root i)).ledger [str k] ∨
      Panics (p.run (rootAt lib root i)).ledger) : GoneOrListed out k := by
  refine (cleared_or_listed hout hp h).imp (fun hnone => ?_) id
  rw [doc_eq hout, hlater, rootAt_succ lib root hp]
  exact hnone

/-! ## The sections -/

theorem markers_authDone {A : Mapping} (h : AuthDone A) : authMarkers A = [] ∧ authLockMarkers A = [] := by
  have hkey : ∀ k text, k ∈ goneAuthKeys → keyMarker A [str "auth"] k text = [] := by
    intro k text hk
    unfold keyMarker marker
    rw [h.gone k hk]
    rfl
  have hstatic : hasStaticTokens A = false := by
    unfold hasStaticTokens
    cases hseq : (A.get "chain").bind Yaml.asSequence with
    | none => rfl
    | some seq =>
      rw [Option.any_some, List.any_eq_false]
      intro e he
      rw [((h.chain seq hseq).2 e he).2]
      exact Bool.false_ne_true
  have hinline : ∀ plane, ListOf Lifted (A.get plane) → hasInline A plane = false := by
    intro plane hplane
    unfold hasInline
    cases hseq : (A.get plane).bind Yaml.asSequence with
    | none => rfl
    | some seq =>
      rw [Option.any_some, List.any_eq_false]
      intro e he
      have hno : e.isMapping = false := (hplane seq hseq).2 e he
      rw [hno]
      exact Bool.false_ne_true
  have hchain : ListOf Lifted (A.get "chain") := fun seq hseq =>
    ⟨(h.chain seq hseq).1, fun e he => ((h.chain seq hseq).2 e he).1⟩
  constructor
  · unfold authMarkers
    rw [hkey _ _ (by decide), hkey _ _ (by decide), hkey _ _ (by decide), hkey _ _ (by decide), hkey _ _ (by decide), hstatic]
    rfl
  · unfold authLockMarkers
    rw [hkey _ _ (by decide), hkey _ _ (by decide), List.flatMap_cons, List.flatMap_cons, hinline _ hchain, hinline _ h.admin]
    rfl

theorem places_auth {A : Mapping} : ∀ mk ∈ authMarkers A ++ authLockMarkers A, ∃ place ∈ mk.places, [str "auth"] <+: place := by
  have hmarker : ∀ c k text, ∀ mk ∈ marker c [[str "auth", k]] text, ∃ place ∈ mk.places, [str "auth"] <+: place := by
    intro c k text mk hmk
    unfold marker at hmk
    split at hmk
    · obtain rfl := List.mem_singleton.1 hmk
      exact ⟨_, List.mem_singleton_self _, ⟨[k], rfl⟩⟩
    · cases hmk
  have hkey : ∀ k text, ∀ mk ∈ keyMarker A [str "auth"] k text, ∃ place ∈ mk.places, [str "auth"] <+: place :=
    fun k text => hmarker _ _ _
  unfold authMarkers authLockMarkers
  simp only [List.forall_mem_append, List.mem_flatMap, List.mem_cons, List.not_mem_nil, or_false]
  refine ⟨⟨⟨⟨⟨⟨hkey _ _, hkey _ _⟩, hkey _ _⟩, hkey _ _⟩, hkey _ _⟩, hmarker _ _ _⟩, ⟨hkey _ _, hkey _ _⟩, ?_⟩
  rintro mk ⟨plane, -, hmk⟩
  exact hmarker _ _ _ mk hmk

section

variable {doc : Document}

theorem distinct_doc (doc : Document) : Mapping.Distinct doc.root := (Mapping.keyed_mapping.1 doc.keyed).1

theorem keyed_doc {k : String} {v : Yaml} (hget : doc.root.get k = some v) : v.keyed = true := Mapping.keyed_get doc.keyed hget

/-- A key that no pass has changed yet. -/
theorem get_before (lib : YamlLib) (doc : Document) (k : String) (i : Nat) (hk : k ∉ ((passKeys.take i).drop 0).flatten) :
    (rootAt lib doc.root i).get k = doc.root.get k := get_rootAt lib (distinct_doc doc) (Nat.zero_le i) hk

/-- A key that none changes any more. -/
theorem get_after (lib : YamlLib) (doc : Document) (k : String) (i : Nat) (hi : i ≤ 18) (hk : k ∉ ((passKeys.take 18).drop i).flatten) :
    (rootAt lib doc.root 18).get k = (rootAt lib doc.root i).get k := get_rootAt lib (distinct_doc doc) hi hk

theorem authReady_at (lib : YamlLib) (h : Legible doc.root) : OfAuth AuthReady (rootAt lib doc.root 15) := by
  have hdistinct := fun i => distinct_rootAt lib (distinct_doc doc) i
  have h1 : OfAuth (AuthSource (doc.root.get "group_map")) (rootAt lib doc.root 1) := by
    have hstep := rootAt_succ (i := 0) lib doc.root rfl
    dsimp only at hstep
    rw [hstep, rootAt_zero]
    refine authSource_migrateGovernance (distinct_doc doc) fun A hA => ?_
    obtain ⟨hread, hgroup⟩ := h.auth A hA
    exact ⟨hread, distinct_of_keyed (keyed_doc hA), hgroup⟩
  rw [← get_before lib doc "group_map" 1 (by decide)] at h1
  have h2 : OfAuth AuthReady (rootAt lib doc.root 2) := by
    have hstep := rootAt_succ (i := 1) lib doc.root rfl
    dsimp only at hstep
    rw [hstep]
    exact authReady_migrateAuth (hdistinct 1) h1
  have h3 : OfAuth AuthReady (rootAt lib doc.root 3) := by
    have hstep := rootAt_succ (i := 2) lib doc.root rfl
    dsimp only at hstep
    rw [hstep]
    refine authReady_migrateAdminAuth (hdistinct 2) (fun top htop => ?_) h2
    rw [get_before lib doc "admin_auth" 2 (by decide)] at htop
    exact h.admin top htop
  have h4 : OfAuth AuthReady (rootAt lib doc.root 4) := by
    have hstep := rootAt_succ (i := 3) lib doc.root rfl
    dsimp only at hstep
    rw [hstep]
    exact authReady_migrateDroppedScopes h3
  exact h4.congr (get_rootAt lib (distinct_doc doc) (by decide) (by decide))

theorem authMoved_at (lib : YamlLib) (h : Legible doc.root) : OfAuth AuthMoved (rootAt lib doc.root 16) := by
  have hstep := rootAt_succ (i := 15) lib doc.root rfl
  dsimp only at hstep
  rw [hstep]
  exact authMoved_migratePoolsUpstreamCredentials (authReady_at lib h)

/-- The block of the output. -/
theorem auth_settled (h : Legible doc.root) (hout : migrateConfig lib doc.root = some out) :
    (∀ A, (out.doc.get "auth").bind Yaml.asMapping = some A → AuthDone A) ∨ ∃ t ∈ out.todos, t.path = [str "auth"] := by
  have hids : IdentityRead ((rootAt lib doc.root 16).get "identity-providers") := by
    rw [get_before lib doc "identity-providers" 16 (by decide)]
    exact h.identities
  have hpass := @identity_cleared lib _ (distinct_rootAt lib (distinct_doc doc) 16) (authMoved_at lib h) hids
  have hlast := get_after lib doc "auth" 17 (by decide) (by decide)
  have hstep := rootAt_succ (i := 16) lib doc.root rfl
  dsimp only at hstep
  rw [hstep] at hlast
  rw [doc_eq hout, hlast]
  have hcleared := cleared_or_listed (i := 16) hout rfl (hpass.imp id Or.inl)
  exact hcleared

theorem hooks_at (lib : YamlLib) (h : Legible doc.root) : hooksMarkers (rootAt lib doc.root 18) = [] := by
  have hpass : hooksMarkers (migrateHooksBlock lib (rootAt lib doc.root 5)).value = [] := by
    refine hookDefs_cleared (distinct_rootAt lib (distinct_doc doc) 5) ⟨fun src hsrc => ?_, fun s hs => ?_, fun pools hpools => ?_⟩
    · rw [get_before lib doc "hooks" 5 (by decide)] at hsrc
      exact h.hooks.registry src hsrc
    · rw [get_before lib doc "global_hooks" 5 (by decide)] at hs
      exact h.hooks.globals s hs
    · rw [get_before lib doc "pools" 5 (by decide)] at hpools
      exact h.hooks.pools pools hpools
  have hstep := rootAt_succ (i := 5) lib doc.root rfl
  dsimp only at hstep
  have hlast := get_after lib doc "hooks" 6 (by decide) (by decide)
  rw [hstep] at hlast
  unfold hooksMarkers at hpass ⊢
  rw [hlast]
  exact hpass

theorem pools_at (lib : YamlLib) (h : Legible doc.root) : poolMarkers (rootAt lib doc.root 18) = [] := by
  have h5 : PoolsOk (rootAt lib doc.root 5) := by
    intro v hv
    rw [get_before lib doc "pools" 5 (by decide)] at hv
    exact ⟨h.pools v hv, sectionKeyed (keyed_doc hv)⟩
  have h6 : PoolsOk (rootAt lib doc.root 6) := by
    have hstep := rootAt_succ (i := 5) lib doc.root rfl
    dsimp only at hstep
    rw [hstep]
    exact poolsOk_migrateHooksBlock (distinct_rootAt lib (distinct_doc doc) 5) h5
  have h7 : PoolsClear (rootAt lib doc.root 7) := by
    have hstep := rootAt_succ (i := 6) lib doc.root rfl
    dsimp only at hstep
    rw [hstep]
    exact pools_cleared h6
  have h8 : PoolsClear (rootAt lib doc.root 8) := by
    have hstep := rootAt_succ (i := 7) lib doc.root rfl
    dsimp only at hstep
    rw [hstep]
    exact hookStages_clear h7
  have h15 : PoolsClear (rootAt lib doc.root 15) := by
    intro v hv
    rw [get_rootAt lib (distinct_doc doc) (by decide : 8 ≤ 15) (by decide)] at hv
    exact h8 v hv
  have h16 : PoolsClear (rootAt lib doc.root 16) := by
    have hstep := rootAt_succ (i := 15) lib doc.root rfl
    dsimp only at hstep
    rw [hstep]
    exact poolsClear_migratePoolsUpstreamCredentials (authReady_at lib h) h15
  refine poolMarkers_clear fun v hv => ?_
  rw [get_after lib doc "pools" 16 (by decide) (by decide)] at hv
  exact h16 v hv

theorem providers_at (lib : YamlLib) (h : Legible doc.root) : providerMarkers (rootAt lib doc.root 18) = [] := by
  have hpass : providerMarkers (migrateProviders (rootAt lib doc.root 4)).value = [] := by
    refine providers_cleared (fun v hv => ?_) fun v ps e hv => ?_
    · rw [get_before lib doc "providers" 4 (by decide)] at hv
      exact keyed_doc hv
    · rw [get_before lib doc "providers" 4 (by decide)] at hv
      exact h.providers v ps e hv
  have hstep := rootAt_succ (i := 4) lib doc.root rfl
  dsimp only at hstep
  have hlast := get_after lib doc "providers" 5 (by decide) (by decide)
  rw [hstep] at hlast
  unfold providerMarkers at hpass ⊢
  rw [hlast]
  exact hpass

/-- What holds of `export` before its projection. -/
theorem export_at {P Q : Mapping → Prop} (hnilP : P []) (hnilQ : Q [])
    (hread : ∀ name v entries, (retiredExport (str name, v)).isSome = true → P entries → P (Mapping.insert name v entries))
    (hnamed : ∀ root, OfExport P root → OfExport Q (migrateExportNamedMap root).value)
    (hinsert : ∀ name v entries, typeKeyed v = false → Q entries → Q (Mapping.insert name v entries))
    (h : OfExport P doc.root) : OfExport Q (rootAt lib doc.root 13) := by
  have hdistinct := fun i => distinct_rootAt lib (distinct_doc doc) i
  have h10 : OfExport P (rootAt lib doc.root 10) := h.congr (get_before lib doc "export" 10 (by decide))
  have h11 : OfExport P (rootAt lib doc.root 11) := by
    have hstep := rootAt_succ (i := 10) lib doc.root rfl
    dsimp only at hstep
    rw [hstep]
    exact ofExport_migrateObservabilityExport hnilP hread (hdistinct 10) h10
  have h12 : OfExport Q (rootAt lib doc.root 12) := by
    have hstep := rootAt_succ (i := 11) lib doc.root rfl
    dsimp only at hstep
    rw [hstep]
    exact hnamed _ h11
  have hstep := rootAt_succ (i := 12) lib doc.root rfl
  dsimp only at hstep
  rw [hstep]
  exact ofExport_migrateObservabilityBlock hnilQ hinsert (hdistinct 12) h12

theorem exports_announced (h : Legible doc.root) (hout : migrateConfig lib doc.root = some out) :
    ∀ mk ∈ exportMarkers out.doc, Announced out.todos mk := by
  have hnamed : OfExport EntriesNamed (rootAt lib doc.root 13) :=
    export_at (P := EntriesRead) (fun e he => absurd he List.not_mem_nil) (fun e he => absurd he List.not_mem_nil)
      (fun name v entries hv => entriesRead_insert hv) (fun root => exportNamed_migrateExportNamedMap)
      (fun name v entries hv => entriesNamed_insert hv) h.exports
  have hdistinct : OfExport Mapping.Distinct (rootAt lib doc.root 13) :=
    export_at (P := Mapping.Distinct) List.nodup_nil List.nodup_nil (fun name v entries _ hentries => Mapping.distinct_insert hentries _ _)
      (fun root => exportDistinct_migrateExportNamedMap) (fun name v entries _ hentries => Mapping.distinct_insert hentries _ _)
      fun entries hentries => distinct_of_keyed (keyed_doc hentries)
  have hstep := rootAt_succ (i := 13) lib doc.root rfl
  dsimp only at hstep
  have hlast := get_after lib doc "export" 14 (by decide) (by decide)
  rw [hstep] at hlast
  unfold exportMarkers
  rw [doc_eq hout, hlast]
  cases hexport : (Mapping.get (migrateExportProjection lib (rootAt lib doc.root 13)).value "export").bind Yaml.mapping? with
  | none =>
    exact fun mk hmk => absurd hmk List.not_mem_nil
  | some entries =>
    obtain ⟨v, hget, hv⟩ := Option.bind_eq_some_iff.1 hexport
    rw [Yaml.mapping?_eq_some] at hv
    subst hv
    refine announced_marker fun hany => ?_
    obtain ⟨e, he, hlack⟩ := List.any_eq_true.1 hany
    have hsaid := export_cleared hdistinct hnamed hget e he hlack
    have hcleared := cleared_or_listed (i := 13) hout rfl (C := False) (Or.inr hsaid)
    obtain ⟨t, ht, hpath⟩ := hcleared.resolve_left id
    exact ⟨_, List.mem_map.2 ⟨e, List.mem_filter.2 ⟨he, hlack⟩, rfl⟩, t, ht, hpath ▸ List.prefix_rfl⟩

theorem store_at (hout : migrateConfig lib doc.root = some out) : storeMarkers out.doc = [] := by
  have hstep := rootAt_succ (i := 17) lib doc.root rfl
  dsimp only at hstep
  rw [doc_eq hout, hstep]
  rcases @store_cleared lib (rootAt lib doc.root 17) with hnone | hpanics
  · exact hnone
  · exact absurd (hpanics.mono fun e he => ledger_at (i := 17) rfl he) (no_panic hout)

/-! ## The keys of the document -/

theorem governance_gone (hout : migrateConfig lib doc.root = some out) : GoneOrListed out "governance" := by
  have hpass := @governance_cleared lib _ (distinct_rootAt lib (distinct_doc doc) 0)
  exact goneOrListed (i := 0) hout rfl (get_after lib doc "governance" 1 (by decide) (by decide)) hpass

theorem groupMap_gone (hout : migrateConfig lib doc.root = some out) : GoneOrListed out "group_map" := by
  have hpass := groupMap_cleared (distinct_rootAt lib (distinct_doc doc) 1)
  exact goneOrListed (i := 1) hout rfl (get_after lib doc "group_map" 2 (by decide) (by decide)) (hpass.imp id Or.inl)

/-- The hooks of all pools are gone or listed, and a later pass only rewrites their stages. -/
theorem globalHooks_gone (hout : migrateConfig lib doc.root = some out) : GoneOrListed out "global_hooks" := by
  have hpass := @globalHooks_cleared lib _ (distinct_rootAt lib (distinct_doc doc) 5)
  have h6 := rootAt_succ (i := 5) lib doc.root rfl
  have h8 := rootAt_succ (i := 7) lib doc.root rfl
  dsimp only at h6 h8
  have hlast := get_after lib doc "global_hooks" 8 (by decide) (by decide)
  have hbetween : (rootAt lib doc.root 7).get "global_hooks" = (rootAt lib doc.root 6).get "global_hooks" :=
    get_rootAt lib (distinct_doc doc) (by decide) (by decide)
  refine (cleared_or_listed (i := 5) hout rfl hpass).imp (fun hnone => ?_) id
  rw [← Option.isNone_iff_eq_none, ← Option.not_isSome, Bool.not_eq_true', doc_eq hout, hlast, h8, hookStages_globalHooks, hbetween, h6,
    hnone]
  rfl

theorem adminAuth_gone (hout : migrateConfig lib doc.root = some out) : out.doc.get "admin_auth" = none := by
  have hstep := rootAt_succ (i := 2) lib doc.root rfl
  dsimp only at hstep
  rw [doc_eq hout, get_after lib doc "admin_auth" 3 (by decide) (by decide), hstep]
  exact adminAuth_cleared (distinct_rootAt lib (distinct_doc doc) 2)

theorem metrics_gone (hout : migrateConfig lib doc.root = some out) : out.doc.get "metrics" = none := by
  have hstep := rootAt_succ (i := 10) lib doc.root rfl
  dsimp only at hstep
  rw [doc_eq hout, get_after lib doc "metrics" 11 (by decide) (by decide), hstep]
  exact metrics_cleared (distinct_rootAt lib (distinct_doc doc) 10)

theorem observability_gone (hout : migrateConfig lib doc.root = some out) : out.doc.get "observability" = none := by
  have hstep := rootAt_succ (i := 12) lib doc.root rfl
  dsimp only at hstep
  rw [doc_eq hout, get_after lib doc "observability" 13 (by decide) (by decide), hstep]
  exact observability_cleared (distinct_rootAt lib (distinct_doc doc) 12)

theorem adminInsecure_gone (hout : migrateConfig lib doc.root = some out) : out.doc.get "admin_insecure" = none := by
  have hstep := rootAt_succ (i := 14) lib doc.root rfl
  dsimp only at hstep
  rw [doc_eq hout, get_after lib doc "admin_insecure" 15 (by decide) (by decide), hstep]
  exact adminInsecure_cleared (distinct_rootAt lib (distinct_doc doc) 14)

theorem auth_announced (h : Legible doc.root) (hout : migrateConfig lib doc.root = some out) {A : Mapping}
    (hA : (out.doc.get "auth").bind Yaml.asMapping = some A) : ∀ mk ∈ authMarkers A ++ authLockMarkers A, Announced out.todos mk := by
  rcases auth_settled h hout with hdone | ⟨t, ht, hpath⟩
  · obtain ⟨hmarkers, hlock⟩ := markers_authDone (hdone A hA)
    rw [hmarkers, hlock]
    exact fun mk hmk => absurd hmk List.not_mem_nil
  · intro mk hmk
    obtain ⟨place, hplace, hbelow⟩ := places_auth mk hmk
    exact ⟨place, hplace, t, ht, hpath ▸ hbelow⟩

end

/-- The keys that every run removes. -/
def removedKeys : List String := ["admin_auth", "metrics", "observability", "admin_insecure"]

/-- The keys that stay where they cannot be read, with an item. -/
def movedKeys : List String := ["governance", "group_map", "global_hooks"]

/-- **Keys of old.** Some are gone, and one that is left is listed. -/
theorem old_keys_gone (lib : YamlLib) (doc : Document) (out : MigrateOutput) (hout : migrateConfig lib doc.root = some out) :
    (∀ k ∈ removedKeys, out.doc.get k = none) ∧ ∀ k ∈ movedKeys, out.doc.get k = none ∨ ∃ t ∈ out.todos, t.path = [str k] := by
  unfold removedKeys movedKeys
  simp only [List.forall_mem_cons, List.not_mem_nil, false_implies, implies_true, and_true]
  exact ⟨⟨adminAuth_gone hout, metrics_gone hout, observability_gone hout, adminInsecure_gone hout⟩,
    governance_gone hout, groupMap_gone hout, globalHooks_gone hout⟩

/-- **Other keys.** A run has nothing to do with them, and no key stands twice. -/
theorem other_keys_kept (lib : YamlLib) (doc : Document) (out : MigrateOutput) (hout : migrateConfig lib doc.root = some out) :
    Mapping.Distinct out.doc ∧ ∀ k ∉ passKeys.flatten, out.doc.get k = doc.root.get k := by
  rw [doc_eq hout]
  refine ⟨distinct_rootAt lib (distinct_doc doc) 18, fun k hk => ?_⟩
  exact get_rootAt lib (distinct_doc doc) (Nat.zero_le 18) hk

/-- A block of old, a provider of old, and a role map that cannot be read. -/
def oldFormats : Document where
  root := [(str "auth", .mapping [(str "mode", str "passthrough"), (str "chain", .sequence [str "tokens"])]),
    (str "group_map", amount 7), (str "providers", .mapping [(str "openai", .mapping [(str "api_key_env", str "KEY")])])]
  keyed := by decide

theorem legible_oldFormats : Legible oldFormats.root where
  auth := by
    rintro A hA
    obtain rfl := Yaml.mapping.inj (Option.some.inj hA)
    refine ⟨⟨listOf_sequence fun e he => ?_, listOf_none, nofun⟩, fun _ => rfl⟩
    obtain rfl := List.mem_singleton.1 he
    exact ⟨not_mapping_string _, nofun⟩
  admin := nofun
  identities := Or.inl rfl
  providers := by
    intro v ps e hv hps he _
    obtain rfl := Option.some.inj hv
    obtain rfl := Option.some.inj hps
    obtain rfl := List.mem_singleton.1 he
    exact ⟨rfl, _, rfl⟩
  hooks := ⟨nofun, nofun, nofun⟩
  pools := nofun
  exports := nofun

theorem old_keys_gone_oldFormats : ∃ out, migrateConfig blankLib oldFormats.root = some out ∧
    ∃ t ∈ out.todos, t.path = [str "group_map"] := by
  have hrun : (migrateConfig blankLib oldFormats.root).any (fun out => (out.doc.get "group_map").isSome) = true := by
    decide +kernel
  obtain ⟨out, hout, hleft⟩ := (Option.any_eq_true _ _).1 hrun
  refine ⟨out, hout, ((old_keys_gone blankLib oldFormats out hout).2 "group_map" (by decide)).resolve_left fun hnone => ?_⟩
  rw [hnone] at hleft
  cases hleft

theorem other_keys_kept_ownCaps : ∃ out, migrateConfig blankLib ownCaps.root = some out ∧ out.doc.get "listen" = none := by
  have hsome : (migrateConfig blankLib ownCaps.root).isSome = true := by decide +kernel
  obtain ⟨out, hout⟩ := Option.isSome_iff_exists.1 hsome
  exact ⟨out, hout, (other_keys_kept blankLib ownCaps out hout).2 "listen" (by decide)⟩

end Busbar.Migrate
