import Busbar.Config.Migrate.Cleared
import Busbar.Config.Migrate.ClearedPools

/-!
# The authentication block without marks

The block is rewritten by six passes. Each keeps its lists as lists of modules, and after the last the entries are names.

* `AuthRead`: the lists of the block before the static tokens are gone.
* `AuthReady`: the lists after that, with the retired keys gone as well.
* `identity_cleared`: the pass that lifts the definitions.
-/

namespace Busbar.Migrate

open Logged

variable {lib : YamlLib} {root : Mapping} {A A' : Mapping} {k : String}

/-- A mapping is not under a tag. -/
def Untagged (e : Yaml) : Prop := e.isMapping = true → ∃ m, e = .mapping m

def staticNames : List String := ["tokens", "static-tokens"]

/-- An entry with a body is not one of the static-token module. -/
def EntryRead (e : Yaml) : Prop := Untagged e ∧ ∀ m s, e = .mapping m → entryModuleName e = some s → s ∉ staticNames

def EntryReady (e : Yaml) : Prop := EntryRead e ∧ isStaticTokens e = false

/-- A list that is not under a tag, with entries of a kind. -/
def ListOf (P : Yaml → Prop) (v : Option Yaml) : Prop := ∀ s, v.bind Yaml.asSequence = some s → v = some (.sequence s) ∧ ∀ e ∈ s, P e

/-- The credentials, which go to the pools, do not look like a pool of old. -/
def CredsRead (v : Option Yaml) : Prop := ∀ w, v = some w → Unmarked w

structure AuthRead (A : Mapping) : Prop where
  chain : ListOf EntryRead (A.get "chain")
  admin : ListOf Untagged (A.get "admin_auth")
  creds : CredsRead (A.get "upstream_credentials")

structure AuthLists (A : Mapping) : Prop where
  chain : ListOf EntryReady (A.get "chain")
  admin : ListOf Untagged (A.get "admin_auth")
  creds : CredsRead (A.get "upstream_credentials")

theorem listOf_sequence {P : Yaml → Prop} {s : List Yaml} (h : ∀ e ∈ s, P e) : ListOf P (some (.sequence s)) := by
  rintro _ ⟨⟩
  exact ⟨rfl, h⟩

theorem listOf_none {P : Yaml → Prop} : ListOf P none := by
  intro s h
  cases h

theorem ListOf.mem {P : Yaml → Prop} {v : Option Yaml} {s : List Yaml} (h : ListOf P v) (hv : v = some (.sequence s)) : ∀ e ∈ s, P e := by
  subst hv
  exact (h s rfl).2

/-- A list is rewritten where it is one. -/
theorem ListOf.map {P Q : Yaml → Prop} {v : Option Yaml} {f : List Yaml → Logged (List Yaml)} (h : ListOf P v)
    (hf : ∀ s, (∀ e ∈ s, P e) → ∀ e ∈ (f s).value, Q e) : ListOf Q (v.map fun v => (onSequence f v).value) := by
  intro s' hs'
  cases v with
  | none => cases hs'
  | some v =>
    cases hv : v.sequence? with
    | some s =>
      rw [Yaml.sequence?_eq_some] at hv
      subst hv
      obtain rfl := Option.some.inj hs'
      exact ⟨rfl, hf s (h.mem rfl)⟩
    | none =>
      rw [Option.map_some, value_onSequence_other hv] at hs' ⊢
      obtain ⟨heq, -⟩ := h s' hs'
      obtain rfl := Option.some.inj heq
      cases hv

theorem not_mapping_string (s : String) : Untagged (.string s) := nofun

theorem isStaticTokens_eq (e : Yaml) : isStaticTokens e = true ↔ ∃ s, e.asStr = some s ∧ s ∈ staticNames := by
  unfold isStaticTokens staticNames
  rw [Bool.or_eq_true, decide_eq_true_eq, decide_eq_true_eq]
  constructor
  · rintro (h | h)
    · exact ⟨_, h, List.mem_cons_self⟩
    · exact ⟨_, h, List.mem_cons_of_mem _ List.mem_cons_self⟩
  · rintro ⟨s, h, hs⟩
    rcases List.mem_cons.1 hs with rfl | hs
    · exact Or.inl h
    · obtain rfl := List.mem_singleton.1 hs
      exact Or.inr h

theorem entryReady_string {s : String} (hs : s ∉ staticNames) : EntryReady (.string s) := by
  refine ⟨⟨not_mapping_string s, fun m t h => nomatch h⟩, ?_⟩
  rw [Bool.eq_false_iff, ne_eq, isStaticTokens_eq]
  rintro ⟨t, ht, hmem⟩
  obtain rfl := Option.some.inj ht
  exact hs hmem

theorem entryReady_mapping {m : Mapping} (h : EntryRead (.mapping m)) : EntryReady (.mapping m) := ⟨h, rfl⟩

/-! ## The chain -/

theorem entryReady_rewriteChain {seen : List String} {chain : List Yaml} (h : ∀ e ∈ chain, EntryRead e) :
    ∀ e ∈ rewriteChain seen chain, EntryReady e := by
  induction chain generalizing seen with
  | nil => exact fun e he => absurd he List.not_mem_nil
  | cons x chain ih =>
    have htail : ∀ seen, ∀ e ∈ rewriteChain seen chain, EntryReady e :=
      fun seen => ih fun e he => h e (List.mem_cons_of_mem _ he)
    have hx : EntryReady (if isStaticTokens x then str "keys" else x) := by
      split
      · exact entryReady_string (by decide)
      · next hno => exact ⟨h x List.mem_cons_self, Bool.eq_false_iff.2 hno⟩
    intro e he
    unfold rewriteChain at he
    dsimp only at he
    split at he
    · split at he
      · exact htail _ e he
      · rcases List.mem_cons.1 he with rfl | he
        · exact hx
        · exact htail _ e he
    · rcases List.mem_cons.1 he with rfl | he
      · exact hx
      · exact htail _ e he

theorem value_migrateChain (auth : Mapping) :
    (migrateChain auth).value = (atSequence "chain" (fun chain => pure (rewriteChain [] chain)) auth).value := by
  unfold migrateChain
  rw [value_bind]
  split
  · split
    · rw [value_bind, value_bind]
      split
      · rfl
      · rfl
    · rfl
  · rfl

theorem authLists_migrateChain (h : AuthRead A) : AuthLists (migrateChain A).value := by
  rw [value_migrateChain]
  have hother : ∀ k, k ≠ "chain" → (atSequence "chain" (fun chain => pure (rewriteChain [] chain)) A).value.get k = A.get k :=
    fun k hk => (get_atKey ..).trans (if_neg hk)
  constructor
  · unfold atSequence
    rw [get_atKey, if_pos rfl]
    exact h.chain.map fun s hs => entryReady_rewriteChain hs
  · rw [hother _ (by decide)]
    exact h.admin
  · rw [hother _ (by decide)]
    exact h.creds

/-! ## A list or the credentials replaced -/

theorem AuthLists.insertChain (h : AuthLists A) {s : List Yaml} (hs : ∀ e ∈ s, EntryReady e) :
    AuthLists (Mapping.insert "chain" (.sequence s) A) := by
  constructor
  · rw [Mapping.get_insert, if_pos rfl]
    exact listOf_sequence hs
  · rw [Mapping.get_insert, if_neg (by decide)]
    exact h.admin
  · rw [Mapping.get_insert, if_neg (by decide)]
    exact h.creds

theorem AuthLists.insertAdmin (h : AuthLists A) {s : List Yaml} (hs : ∀ e ∈ s, Untagged e) :
    AuthLists (Mapping.insert "admin_auth" (.sequence s) A) := by
  constructor
  · rw [Mapping.get_insert, if_neg (by decide)]
    exact h.chain
  · rw [Mapping.get_insert, if_pos rfl]
    exact listOf_sequence hs
  · rw [Mapping.get_insert, if_neg (by decide)]
    exact h.creds

theorem AuthLists.insertCreds (h : AuthLists A) {v : Yaml} (hv : Unmarked v) :
    AuthLists (Mapping.insert "upstream_credentials" v A) := by
  constructor
  · rw [Mapping.get_insert, if_neg (by decide)]
    exact h.chain
  · rw [Mapping.get_insert, if_neg (by decide)]
    exact h.admin
  · rw [Mapping.get_insert, if_pos rfl]
    rintro w ⟨⟩
    exact hv

/-! ## Scopes -/

theorem entryModuleName_modify (module : String) (f : Yaml → Yaml) (m : Mapping) :
    entryModuleName (.mapping (Mapping.modify module f m)) = entryModuleName (.mapping m) := by
  cases m with
  | nil => rfl
  | cons e m =>
    unfold entryModuleName Mapping.modify
    dsimp only
    rw [List.map_cons, List.head?_cons, List.head?_cons]
    by_cases h : Mapping.isKey module e.1 = true
    · rw [if_pos h]
      rfl
    · rw [if_neg h]

theorem forall_setMaxAdminScope {P : Yaml → Prop} {module : String} {scope : Yaml} {seq seq' : List Yaml}
    (hset : setMaxAdminScope module scope seq = some seq') (hseq : ∀ e ∈ seq, P e)
    (hentry : ∀ e ∈ seq, entryModuleName e = some module → ∀ m, entryModuleName (.mapping m) = some module → P (.mapping m)) :
    ∀ e ∈ seq', P e := by
  induction seq generalizing seq' with
  | nil => cases hset
  | cons x seq ih =>
    have htail : ∀ e ∈ seq, P e := fun e he => hseq e (List.mem_cons_of_mem _ he)
    unfold setMaxAdminScope at hset
    split at hset
    · next hname =>
      obtain rfl := Option.some.inj hset
      intro e he
      rcases List.mem_cons.1 he with rfl | he
      · refine hentry x List.mem_cons_self hname _ ?_
        rw [entryModuleName_modify]
        cases x with
        | mapping m => exact hname
        | string s => rfl
        | _ => cases hname
      · exact htail e he
    · obtain ⟨rest, hrest, rfl⟩ := Option.map_eq_some_iff.1 hset
      intro e he
      rcases List.mem_cons.1 he with rfl | he
      · exact hseq e List.mem_cons_self
      · exact ih hrest htail (fun e he => hentry e (List.mem_cons_of_mem _ he)) e he

theorem entryReady_name {e : Yaml} {s : String} (h : EntryReady e) (hs : entryModuleName e = some s) : s ∉ staticNames := by
  cases e with
  | mapping m => exact h.1.2 m s rfl hs
  | string t =>
    obtain rfl := Option.some.inj hs
    intro hmem
    have hno := h.2
    rw [Bool.eq_false_iff, ne_eq, isStaticTokens_eq] at hno
    exact hno ⟨_, rfl, hmem⟩
  | _ => cases hs

theorem authLists_applyScope {module : String} {scope : Yaml} (h : AuthLists A)
    (happly : applyScope module scope A ["chain", "admin_auth"] = some A') : AuthLists A' := by
  unfold applyScope at happly
  cases hchain : ((A.get "chain").bind Yaml.sequence?).bind (setMaxAdminScope module scope) with
  | some seq' =>
    rw [hchain] at happly
    obtain rfl := Option.some.inj happly
    obtain ⟨seq, hseq, hset⟩ := Option.bind_eq_some_iff.1 hchain
    obtain ⟨v, hv, hsequence⟩ := Option.bind_eq_some_iff.1 hseq
    rw [Yaml.sequence?_eq_some] at hsequence
    subst hsequence
    have hmem := h.chain.mem hv
    refine h.insertChain (forall_setMaxAdminScope hset hmem fun e he hname m hm => ?_)
    refine entryReady_mapping ⟨fun _ => ⟨m, rfl⟩, ?_⟩
    rintro _ s ⟨⟩ hs
    obtain rfl := Option.some.inj (hm.symm.trans hs)
    exact entryReady_name (hmem e he) hname
  | none =>
    rw [hchain] at happly
    unfold applyScope at happly
    cases hadmin : ((A.get "admin_auth").bind Yaml.sequence?).bind (setMaxAdminScope module scope) with
    | none =>
      rw [hadmin] at happly
      cases happly
    | some seq' =>
      rw [hadmin] at happly
      obtain rfl := Option.some.inj happly
      obtain ⟨seq, hseq, hset⟩ := Option.bind_eq_some_iff.1 hadmin
      obtain ⟨v, hv, hsequence⟩ := Option.bind_eq_some_iff.1 hseq
      rw [Yaml.sequence?_eq_some] at hsequence
      subst hsequence
      exact h.insertAdmin (forall_setMaxAdminScope hset (h.admin.mem hv) fun _ _ _ m _ _ => ⟨m, rfl⟩)

theorem authLists_migrateModuleCaps (name caps : Yaml) (h : AuthLists A) : AuthLists (migrateModuleCaps name caps A).value := by
  unfold migrateModuleCaps
  dsimp only
  cases (asMap caps).get "max_admin_scope" with
  | none =>
    dsimp only
    split
    · exact h
    · exact h
  | some scope =>
    dsimp only
    cases happly : applyScope (keyText name) scope A ["chain", "admin_auth"] with
    | none =>
      dsimp only
      split
      · exact h
      · exact h
    | some A' =>
      have hscope := authLists_applyScope h happly
      dsimp only
      split
      · exact hscope
      · exact hscope

theorem authLists_migrateModulesLoop (modules : Mapping) (h : AuthLists A) : AuthLists (migrateModulesLoop modules A).value := by
  induction modules generalizing A with
  | nil => exact h
  | cons e modules ih => exact ih (authLists_migrateModuleCaps e.1 e.2 h)

/-! ## The block -/

theorem AuthLists.congr (h : AuthLists A) (hget : ∀ k ∈ ["chain", "admin_auth", "upstream_credentials"], A'.get k = A.get k) :
    AuthLists A' := by
  constructor
  · rw [hget _ (by decide)]
    exact h.chain
  · rw [hget _ (by decide)]
    exact h.admin
  · rw [hget _ (by decide)]
    exact h.creds

theorem AuthLists.swapRemove (h : AuthLists A) (hA : Mapping.Distinct A) (hk : k ∉ ["chain", "admin_auth", "upstream_credentials"]) :
    AuthLists (A.swapRemove k) := by
  refine h.congr fun k' hk' => ?_
  rw [Mapping.get_swapRemove hA, if_neg]
  rintro rfl
  exact hk hk'

/-- The keys of the block that are gone after its own pass. -/
def retiredAuthKeys : List String := ["modules", "mode", "client_tokens"]

structure AuthReady (A : Mapping) : Prop extends AuthLists A where
  distinct : Mapping.Distinct A
  retired : ∀ k ∈ retiredAuthKeys, A.get k = none
  groupMap : A.get "group_map" = none

theorem migrateModules_step (h : AuthLists A) (hA : Mapping.Distinct A) :
    AuthLists (migrateModules A).value ∧ Mapping.Distinct (migrateModules A).value ∧ (migrateModules A).value.get "modules" = none := by
  have hremoved := h.swapRemove hA (k := "modules") (by decide)
  have hdistinct := Mapping.distinct_swapRemove hA "modules"
  have hnone : (A.swapRemove "modules").get "modules" = none := by
    rw [Mapping.get_swapRemove hA, if_pos rfl]
  unfold migrateModules take
  generalize A.swapRemove "modules" = A at hremoved hdistinct hnone ⊢
  split
  · next modules A' heq =>
    obtain rfl := (Prod.mk.inj heq).2
    obtain ⟨hloop, hget⟩ := migrateModulesLoop_changes modules A hdistinct
    exact ⟨authLists_migrateModulesLoop modules hremoved, hloop, (hget _ (by decide)).trans hnone⟩
  · next A' _ heq =>
    obtain rfl := (Prod.mk.inj heq).2
    exact ⟨hremoved, hdistinct, hnone⟩

/-- What the mode becomes. -/
theorem migrateMode_step (h : AuthLists A) (hA : Mapping.Distinct A) :
    AuthLists (migrateMode A).value ∧ Changes ["mode", "chain", "upstream_credentials"] A (migrateMode A).value ∧
      (migrateMode A).value.get "mode" = none := by
  have hremoved := h.swapRemove hA (k := "mode") (by decide)
  have hchanges : Changes ["mode", "chain", "upstream_credentials"] A (A.swapRemove "mode") := changes_swapRemove (by decide) A
  have hnone : (A.swapRemove "mode").get "mode" = none := by
    rw [Mapping.get_swapRemove hA, if_pos rfl]
  unfold migrateMode take
  dsimp only
  split
  · exact ⟨hremoved, hchanges, hnone⟩
  · exact ⟨hremoved.insertCreds ⟨rfl, rfl⟩, hchanges.trans (changes_insert (by decide) _ _),
      (Mapping.get_insert ..).trans ((if_neg (by decide)).trans hnone)⟩
  · exact ⟨hremoved, hchanges, hnone⟩
  · refine ⟨hremoved.insertChain fun e he => ?_, hchanges.trans (changes_insert (by decide) _ _),
      (Mapping.get_insert ..).trans ((if_neg (by decide)).trans hnone)⟩
    obtain rfl := List.mem_singleton.1 he
    exact entryReady_string (by decide)

theorem value_migrateClientTokens (A : Mapping) : (migrateClientTokens A).value = A.swapRemove "client_tokens" := by
  unfold migrateClientTokens take
  cases A.get "client_tokens" <;> rfl

/-- **The block.** Its lists are ready, and its retired keys are gone. -/
theorem authReady_migrateAuthBlock (h : AuthRead A) (hA : Mapping.Distinct A) (hgroup : A.get "group_map" = none) :
    AuthReady (migrateAuthBlock A).value := by
  have hblock := (migrateAuthBlock_changes A hA).2 "group_map" (by decide)
  have hchain := authLists_migrateChain h
  have hdistinct := (migrateChain_changes A hA).1
  unfold migrateAuthBlock at hblock ⊢
  simp only [value_bind] at hblock ⊢
  generalize (migrateChain A).value = A1 at hblock hchain hdistinct ⊢
  obtain ⟨hlists2, hdistinct2, hmodules⟩ := migrateModules_step hchain hdistinct
  generalize (migrateModules A1).value = A2 at hblock hlists2 hdistinct2 hmodules ⊢
  obtain ⟨hlists3, hchanges3, hmode⟩ := migrateMode_step hlists2 hdistinct2
  obtain ⟨hdistinct3, hget3⟩ := hchanges3 hdistinct2
  generalize (migrateMode A2).value = A3 at hblock hlists3 hdistinct3 hget3 hmode ⊢
  rw [value_migrateClientTokens] at hblock ⊢
  refine ⟨hlists3.swapRemove hdistinct3 (by decide), Mapping.distinct_swapRemove hdistinct3 _, ?_, hblock.trans hgroup⟩
  intro k hk
  rw [Mapping.get_swapRemove hdistinct3]
  by_cases htokens : k = "client_tokens"
  · rw [if_pos htokens]
  · rw [if_neg htokens]
    by_cases hkmode : k = "mode"
    · rw [hkmode]
      exact hmode
    · have hkmodules : k = "modules" := by
        unfold retiredAuthKeys at hk
        simpa [htokens, hkmode] using hk
      rw [hkmodules]
      exact (hget3 _ (by decide)).trans hmodules

/-! ## The block in its document -/

/-- What holds of the block of a document, if it has one. -/
def OfAuth (P : Mapping → Prop) (root : Mapping) : Prop := ∀ A, root.get "auth" = some (.mapping A) → P A

section

variable {P Q : Mapping → Prop}

theorem OfAuth.congr {root' : Mapping} (hget : root'.get "auth" = root.get "auth") (h : OfAuth P root) : OfAuth P root' :=
  fun A hA => h A (hget ▸ hA)

theorem OfAuth.changes {root' : Mapping} {ks : List String} (hroot : Mapping.Distinct root) (hchanges : Changes ks root root')
    (hk : "auth" ∉ ks) (h : OfAuth P root) : OfAuth P root' := h.congr ((hchanges hroot).2 _ hk)

theorem ofAuth_orEmpty (hnil : P []) (h : OfAuth P root) : OfAuth P (orEmpty "auth" root) := by
  intro A hA
  rw [get_orEmpty, if_pos rfl] at hA
  cases hget : root.get "auth" with
  | none =>
    rw [hget] at hA
    obtain rfl := Yaml.mapping.inj (Option.some.inj hA)
    exact hnil
  | some v =>
    rw [hget] at hA
    obtain rfl := Option.some.inj hA
    exact h A hget

theorem ofAuth_atMapping {f : Mapping → Logged Mapping} (hf : ∀ A, P A → Q (f A).value) (h : OfAuth P root) :
    OfAuth Q (atMapping "auth" f root).value := by
  intro A hA
  rw [get_atMapping, if_pos rfl] at hA
  obtain ⟨v, hget, hv⟩ := Option.map_eq_some_iff.1 hA
  have hmap := mapping?_onMapping f v
  rw [hv] at hmap
  obtain ⟨B, hB, hfB⟩ := Option.map_eq_some_iff.1 hmap.symm
  rw [Yaml.mapping?_eq_some] at hB
  subst hB
  rw [← hfB]
  exact hf B (h B hget)

theorem ofAuth_insert {A : Mapping} (h : P A) : OfAuth P (Mapping.insert "auth" (.mapping A) root) := by
  intro B hB
  rw [Mapping.get_insert, if_pos rfl] at hB
  obtain rfl := Yaml.mapping.inj (Option.some.inj hB)
  exact h

/-- The administration token becomes an entry of its list. -/
theorem ofAuth_migrateAdminToken {b : Block} (hnil : P [])
    (hadmin : ∀ A s, (∀ e ∈ s, Untagged e) → P A → P (Mapping.insert "admin_auth" (.sequence s) A)) (h : OfAuth P b.root) :
    OfAuth P (migrateAdminToken b).value.root := by
  unfold migrateAdminToken take
  cases b.gov.get "admin_token" with
  | none => exact h
  | some token =>
    refine ofAuth_atMapping (fun A hA => ?_) (ofAuth_orEmpty hnil h)
    refine hadmin A _ (fun e he => ?_) hA
    obtain rfl := List.mem_singleton.1 he
    exact fun _ => ⟨_, rfl⟩

theorem ofAuth_migrateGovernance (hroot : Mapping.Distinct root) (hnil : P [])
    (hadmin : ∀ A s, (∀ e ∈ s, Untagged e) → P A → P (Mapping.insert "admin_auth" (.sequence s) A)) (h : OfAuth P root) :
    OfAuth P (migrateGovernance lib root).value := by
  unfold migrateGovernance
  rw [value_bind, value_takeMapping]
  cases hget : root.get "governance" with
  | none => exact h
  | some v =>
    cases v with
    | mapping gov =>
      simp only [value_bind, value_pure]
      rw [root_migrateEnabled]
      have hremoved : OfAuth P (root.swapRemove "governance") :=
        h.changes hroot (changes_swapRemove (List.mem_singleton_self _) root) (by decide)
      have hdistinct := Mapping.distinct_swapRemove hroot "governance"
      have hmoney : Changes moneyKeys (root.swapRemove "governance") (migrateMoney lib ⟨root.swapRemove "governance", gov⟩).value.root :=
        @migrateMoney_changes lib ⟨root.swapRemove "governance", gov⟩
      generalize (migrateMoney lib ⟨root.swapRemove "governance", gov⟩).value = b1 at hmoney ⊢
      have hbudget : Changes ["groups"] b1.root (migrateBudgetGroups lib b1).value.root := migrateBudgetGroups_changes (by decide)
      generalize (migrateBudgetGroups lib b1).value = b2 at hbudget ⊢
      have hadvanced : Changes ["advanced"] b2.root (migrateAdvanced b2).value.root := migrateAdvanced_changes (by decide)
      generalize (migrateAdvanced b2).value = b3 at hadvanced ⊢
      have h1 := hremoved.changes hdistinct hmoney (by decide)
      have h2 := h1.changes (hmoney hdistinct).1 hbudget (by decide)
      have h3 := h2.changes (hbudget (hmoney hdistinct).1).1 hadvanced (by decide)
      exact ofAuth_migrateAdminToken hnil hadmin h3
    | _ => exact h

end

theorem AuthRead.insertAdmin (h : AuthRead A) {s : List Yaml} (hs : ∀ e ∈ s, Untagged e) :
    AuthRead (Mapping.insert "admin_auth" (.sequence s) A) := by
  constructor
  · rw [Mapping.get_insert, if_neg (by decide)]
    exact h.chain
  · rw [Mapping.get_insert, if_pos rfl]
    exact listOf_sequence hs
  · rw [Mapping.get_insert, if_neg (by decide)]
    exact h.creds

/-- The block before its own pass. Of two role maps one would be left. -/
structure AuthSource (top : Option Yaml) (A : Mapping) : Prop extends AuthRead A where
  distinct : Mapping.Distinct A
  groupMap : top ≠ none → A.get "group_map" = none

theorem authRead_nil : AuthRead [] := ⟨listOf_none, listOf_none, nofun⟩

theorem authSource_nil (top : Option Yaml) : AuthSource top [] := ⟨authRead_nil, List.nodup_nil, fun _ => rfl⟩

theorem authSource_migrateGovernance {top : Option Yaml} (hroot : Mapping.Distinct root) (h : OfAuth (AuthSource top) root) :
    OfAuth (AuthSource top) (migrateGovernance lib root).value := by
  refine ofAuth_migrateGovernance hroot (authSource_nil top) (fun A s hs hA => ?_) h
  refine ⟨hA.toAuthRead.insertAdmin hs, Mapping.distinct_insert hA.distinct _ _, fun htop => ?_⟩
  rw [Mapping.get_insert, if_neg (by decide)]
  exact hA.groupMap htop

/-- A key that is not of the lists and not retired. -/
theorem AuthReady.insert (h : AuthReady A) {k : String} (v : Yaml) (hlists : k ∉ ["chain", "admin_auth", "upstream_credentials"])
    (hretired : k ∉ "group_map" :: retiredAuthKeys) : AuthReady (Mapping.insert k v A) := by
  have hsame : ∀ k', k' ≠ k → (Mapping.insert k v A).get k' = A.get k' := fun k' hk' => by
    rw [Mapping.get_insert, if_neg hk']
  refine ⟨h.toAuthLists.congr fun k' hk' => hsame k' ?_, Mapping.distinct_insert h.distinct _ _, fun k' hk' => ?_, ?_⟩
  · rintro rfl
    exact hlists hk'
  · rw [hsame k' ?_]
    · exact h.retired k' hk'
    · rintro rfl
      exact hretired (List.mem_cons_of_mem _ hk')
  · rw [hsame _ ?_]
    · exact h.groupMap
    · rintro rfl
      exact hretired List.mem_cons_self

theorem authReady_migrateGroupMap {gm : Yaml} (hroot : Mapping.Distinct root) (h : OfAuth AuthReady root) :
    OfAuth AuthReady (migrateGroupMap gm root).value := by
  unfold migrateGroupMap
  rw [value_bind]
  generalize (bindingModule (((root.get "auth").bind Yaml.mapping?).getD [])).value = module
  cases gm with
  | mapping gm =>
    have hbound : OfAuth AuthReady (atMapping "auth" (fun auth =>
        pure (Mapping.insert "role_bindings" (.mapping [(str module, .mapping (migrateRoles module gm []).value.1)]) auth)) root).value :=
      ofAuth_atMapping (fun A hA => hA.insert _ (by decide) (by decide)) h
    have hdistinct := (changes_atMapping (k := "auth") (List.mem_singleton_self _) (fun auth => pure (Mapping.insert "role_bindings"
      (.mapping [(str module, .mapping (migrateRoles module gm []).value.1)]) auth)) root hroot).1
    simp only [value_bind]
    split
    · exact hbound
    · refine @OfAuth.changes _ _ _ ["groups"] hdistinct ?_ (by decide) hbound
      exact (orEmpty_changes (by decide) _).trans (changes_atMapping (by decide) _ _)
  | _ => exact h.changes hroot (changes_insert (List.mem_singleton_self _) _ _) (by decide)

/-- **The pass of the block.** -/
theorem authReady_migrateAuth (hroot : Mapping.Distinct root) (h : OfAuth (AuthSource (root.get "group_map")) root) :
    OfAuth AuthReady (migrateAuth root).value := by
  have hremoved : OfAuth (AuthSource (root.get "group_map")) (root.swapRemove "group_map") :=
    h.changes hroot (changes_swapRemove (List.mem_singleton_self _) root) (by decide)
  have hdistinct := Mapping.distinct_swapRemove hroot "group_map"
  unfold migrateAuth take
  dsimp only
  generalize root.get "group_map" = top at hremoved ⊢
  generalize root.swapRemove "group_map" = root at hremoved hdistinct ⊢
  split
  · next hno =>
    intro A hA
    rw [value_pure] at hA
    rw [hA] at hno
    cases hno
  · replace hremoved := ofAuth_orEmpty (authSource_nil top) hremoved
    replace hdistinct := (orEmpty_changes (k := "auth") (List.mem_singleton_self _) root hdistinct).1
    generalize orEmpty "auth" root = root at hremoved hdistinct ⊢
    cases hauth : (root.get "auth").bind Yaml.mapping? with
    | none =>
      have hno : OfAuth AuthReady root := by
        intro A hA
        rw [hA] at hauth
        cases hauth
      cases top with
      | none => exact hno
      | some gm => exact hno.changes hdistinct (changes_insert (List.mem_singleton_self _) _ _) (by decide)
    | some auth =>
      obtain ⟨v, hget, hv⟩ := Option.bind_eq_some_iff.1 hauth
      rw [Yaml.mapping?_eq_some] at hv
      subst hv
      have hsource := hremoved auth hget
      have hblock : ∀ auth, AuthRead auth → Mapping.Distinct auth → auth.get "group_map" = none →
          OfAuth AuthReady (Mapping.insert "auth" (.mapping (migrateAuthBlock auth).value) root) :=
        fun auth hread hauth hgroup => ofAuth_insert (authReady_migrateAuthBlock hread hauth hgroup)
      have hwritten : ∀ v, Mapping.Distinct (Mapping.insert "auth" v root) := fun v => Mapping.distinct_insert hdistinct _ _
      simp only [value_bind]
      cases top with
      | some gm =>
        exact authReady_migrateGroupMap (hwritten _) (hblock auth hsource.toAuthRead hsource.distinct (hsource.groupMap nofun))
      | none =>
        have hnone : (auth.swapRemove "group_map").get "group_map" = none := by
          rw [Mapping.get_swapRemove hsource.distinct, if_pos rfl]
        have hread : AuthRead (auth.swapRemove "group_map") := by
          have hsame : ∀ k, k ≠ "group_map" → (auth.swapRemove "group_map").get k = auth.get k := fun k hk => by
            rw [Mapping.get_swapRemove hsource.distinct, if_neg hk]
          refine ⟨?_, ?_, ?_⟩
          · rw [hsame _ (by decide)]
            exact hsource.chain
          · rw [hsame _ (by decide)]
            exact hsource.admin
          · rw [hsame _ (by decide)]
            exact hsource.creds
        have hfinal := hblock _ hread (Mapping.distinct_swapRemove hsource.distinct _) hnone
        dsimp only
        split
        · exact authReady_migrateGroupMap (hwritten _) hfinal
        · exact hfinal

/-! ## The administration chain and the scopes -/

theorem mem_addNames {present : List String} {names : List Yaml} : ∀ e ∈ addNames present names, e ∈ names := by
  induction names generalizing present with
  | nil => exact fun e he => he
  | cons name names ih =>
    intro e he
    unfold addNames at he
    split at he
    · split at he
      · exact List.mem_cons_of_mem _ (ih e he)
      · exact (List.mem_cons.1 he).elim (· ▸ List.mem_cons_self) fun he => List.mem_cons_of_mem _ (ih e he)
    · exact (List.mem_cons.1 he).elim (· ▸ List.mem_cons_self) fun he => List.mem_cons_of_mem _ (ih e he)

/-- The entries that join the administration chain. -/
def adminEntries (top : Yaml) : List Yaml :=
  match top with
  | .sequence s => s
  | other => [other]

theorem AuthReady.insertAdmin (h : AuthReady A) {s : List Yaml} (hs : ∀ e ∈ s, Untagged e) :
    AuthReady (Mapping.insert "admin_auth" (.sequence s) A) := by
  have hsame : ∀ k, k ≠ "admin_auth" → (Mapping.insert "admin_auth" (.sequence s) A).get k = A.get k := fun k hk => by
    rw [Mapping.get_insert, if_neg hk]
  refine ⟨h.toAuthLists.insertAdmin hs, Mapping.distinct_insert h.distinct _ _, fun k hk => ?_, ?_⟩
  · rw [hsame k]
    · exact h.retired k hk
    · rintro rfl
      exact absurd hk (by decide)
  · rw [hsame _ (by decide)]
    exact h.groupMap

theorem authReady_nil : AuthReady [] := ⟨⟨listOf_none, listOf_none, nofun⟩, List.nodup_nil, fun _ _ => rfl, rfl⟩

theorem AuthReady.swapRemoveAdmin (h : AuthReady A) : AuthReady (A.swapRemove "admin_auth") := by
  have hsame : ∀ k, k ≠ "admin_auth" → (A.swapRemove "admin_auth").get k = A.get k := fun k hk => by
    rw [Mapping.get_swapRemove h.distinct, if_neg hk]
  refine ⟨⟨?_, ?_, ?_⟩, Mapping.distinct_swapRemove h.distinct _, fun k hk => ?_, ?_⟩
  · rw [hsame _ (by decide)]
    exact h.chain
  · rw [Mapping.get_swapRemove h.distinct, if_pos rfl]
    exact listOf_none
  · rw [hsame _ (by decide)]
    exact h.creds
  · rw [hsame k]
    · exact h.retired k hk
    · rintro rfl
      exact absurd hk (by decide)
  · rw [hsame _ (by decide)]
    exact h.groupMap

theorem authReady_migrateAdminAuth (hroot : Mapping.Distinct root)
    (htop : ∀ top, root.get "admin_auth" = some top → ∀ e ∈ adminEntries top, Untagged e) (h : OfAuth AuthReady root) :
    OfAuth AuthReady (migrateAdminAuth root).value := by
  have hremoved : OfAuth AuthReady (root.swapRemove "admin_auth") :=
    h.changes hroot (changes_swapRemove (List.mem_singleton_self _) root) (by decide)
  unfold migrateAdminAuth take
  cases hget : root.get "admin_auth" with
  | none => exact hremoved
  | some top =>
    have hnames : ∀ e ∈ adminEntries top, Untagged e := htop top hget
    have hempty := ofAuth_orEmpty authReady_nil hremoved
    dsimp only
    generalize orEmpty "auth" (root.swapRemove "admin_auth") = root at hempty ⊢
    cases hauth : (root.get "auth").bind Yaml.mapping? with
    | none => exact hempty
    | some auth =>
      obtain ⟨v, hgetAuth, hv⟩ := Option.bind_eq_some_iff.1 hauth
      rw [Yaml.mapping?_eq_some] at hv
      subst hv
      have hready := hempty auth hgetAuth
      have hold : ∀ e ∈ ((auth.get "admin_auth").bind Yaml.asSequence).getD [], Untagged e := by
        intro e he
        cases hseq : (auth.get "admin_auth").bind Yaml.asSequence with
        | none =>
          rw [hseq] at he
          cases he
        | some s =>
          rw [hseq] at he
          exact (hready.admin s hseq).2 e he
      refine ofAuth_insert ?_
      change AuthReady (if List.isEmpty (_ ++ addNames _ (adminEntries top)) = true then _ else _)
      split
      · exact hready.swapRemoveAdmin
      · refine hready.swapRemoveAdmin.insertAdmin fun e he => ?_
        rcases List.mem_append.1 he with he | he
        · exact hold e he
        · exact hnames e (mem_addNames e he)

theorem value_collapseEntry (list : String) (e : Yaml) :
    (collapseEntry list e).value = e ∨ ∃ m m', e = .mapping m ∧ (collapseEntry list e).value = .mapping m' ∧
      entryModuleName (.mapping m') = entryModuleName (.mapping m) := by
  cases e with
  | mapping m =>
    refine Or.inr ⟨m, _, rfl, rfl, ?_⟩
    unfold entryModuleName
    dsimp only
    cases m with
    | nil => rfl
    | cons e m =>
      dsimp only [List.head?_cons, Option.bind_some]
      cases hname : e.1.asStr with
      | none => exact hname
      | some module =>
        dsimp only
        unfold atMapping atKey
        rw [value_mapValues]
        exact hname
  | _ => exact Or.inl rfl

theorem authReady_migrateDroppedScopes (h : OfAuth AuthReady root) : OfAuth AuthReady (migrateDroppedScopes root).value := by
  have hplain : ∀ (list : String) (s : List Yaml), (∀ e ∈ s, Untagged e) → ∀ e ∈ (mapItems (collapseEntry list) s).value, Untagged e := by
    intro list s hs e he
    rw [value_mapItems] at he
    obtain ⟨x, hx, rfl⟩ := List.mem_map.1 he
    rcases value_collapseEntry list x with hsame | ⟨m, m', rfl, hnew, -⟩
    · rw [hsame]
      exact hs x hx
    · rw [hnew]
      exact fun _ => ⟨m', rfl⟩
  have hready : ∀ (list : String) (s : List Yaml), (∀ e ∈ s, EntryReady e) →
      ∀ e ∈ (mapItems (collapseEntry list) s).value, EntryReady e := by
    intro list s hs e he
    rw [value_mapItems] at he
    obtain ⟨x, hx, rfl⟩ := List.mem_map.1 he
    rcases value_collapseEntry list x with hsame | ⟨m, m', rfl, hnew, hname⟩
    · rw [hsame]
      exact hs x hx
    · rw [hnew]
      refine entryReady_mapping ⟨fun _ => ⟨m', rfl⟩, ?_⟩
      rintro _ s ⟨⟩ hs'
      exact (hs _ hx).1.2 m s rfl (hname ▸ hs')
  refine ofAuth_atMapping (fun A hA => ?_) h
  simp only [value_bind]
  have hget1 := fun k => get_atKey "chain" k (onSequence (mapItems (collapseEntry "chain"))) A
  have hdistinct1 := (changes_atKey (List.mem_singleton_self "chain") (onSequence (mapItems (collapseEntry "chain"))) A hA.distinct).1
  unfold atSequence
  generalize (atKey "chain" (onSequence (mapItems (collapseEntry "chain"))) A).value = A1 at hget1 hdistinct1 ⊢
  have hget2 := fun k => get_atKey "admin_auth" k (onSequence (mapItems (collapseEntry "admin_auth"))) A1
  have hdistinct2 := (changes_atKey (List.mem_singleton_self "admin_auth") (onSequence (mapItems (collapseEntry "admin_auth"))) A1
    hdistinct1).1
  generalize (atKey "admin_auth" (onSequence (mapItems (collapseEntry "admin_auth"))) A1).value = A2 at hget2 hdistinct2 ⊢
  obtain ⟨hdistinct3, hget3⟩ := changes_atMapping (List.mem_singleton_self "role_bindings") (mapValues fun module =>
    onMapping (mapValues fun role => onMapping (atKey "admin_scope" (collapse ("role_bindings." ++ (module.asStr.getD "") ++ "."
      ++ (role.asStr.getD "") ++ ".admin_scope: "))))) A2 hdistinct2
  have hother : ∀ k, k ≠ "chain" → k ≠ "admin_auth" → A2.get k = A.get k := fun k hchain hadmin => by
    rw [hget2 k, if_neg hadmin, hget1 k, if_neg hchain]
  refine ⟨⟨?_, ?_, ?_⟩, hdistinct3, fun k hk => ?_, ?_⟩
  · rw [hget3 _ (by decide), hget2, if_neg (by decide), hget1, if_pos rfl]
    exact hA.chain.map fun s hs => hready "chain" s hs
  · rw [hget3 _ (by decide), hget2, if_pos rfl, hget1, if_neg (by decide)]
    exact hA.admin.map fun s hs => hplain "admin_auth" s hs
  · rw [hget3 _ (by decide), hother _ (by decide) (by decide)]
    exact hA.creds
  · rw [hget3 k, hother k]
    · exact hA.retired k hk
    · rintro rfl
      exact absurd hk (by decide)
    · rintro rfl
      exact absurd hk (by decide)
    · intro hrole
      obtain rfl := List.mem_singleton.1 hrole
      exact absurd hk (by decide)
  · rw [hget3 _ (by decide), hother _ (by decide) (by decide)]
    exact hA.groupMap

end Busbar.Migrate
