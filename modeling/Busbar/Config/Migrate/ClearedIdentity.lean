import Busbar.Config.Migrate.ClearedAuth

/-!
# Credentials and identities without marks

The last two passes over the block take its credentials and leave names in its lists.

* `AuthMoved`: the block without credentials.
* `AuthDone`: the block of names.
* `identity_cleared`: after the pass, the block is one of names, or there is an item for it.
-/

namespace Busbar.Migrate

open Logged

variable {lib : YamlLib} {root : Mapping} {A A' : Mapping} {p : Providers}

/-! ## The credentials -/

structure AuthMoved (A : Mapping) : Prop extends AuthReady A where
  moved : A.get "upstream_credentials" = none

theorem AuthReady.swapRemoveCreds (h : AuthReady A) : AuthMoved (A.swapRemove "upstream_credentials") := by
  have hsame : ∀ k, k ≠ "upstream_credentials" → (A.swapRemove "upstream_credentials").get k = A.get k := fun k hk => by
    rw [Mapping.get_swapRemove h.distinct, if_neg hk]
  have hnone : (A.swapRemove "upstream_credentials").get "upstream_credentials" = none := by
    rw [Mapping.get_swapRemove h.distinct, if_pos rfl]
  refine ⟨⟨⟨?_, ?_, ?_⟩, Mapping.distinct_swapRemove h.distinct _, fun k hk => ?_, ?_⟩, hnone⟩
  · rw [hsame _ (by decide)]
    exact h.chain
  · rw [hsame _ (by decide)]
    exact h.admin
  · rw [hnone]
    exact nofun
  · rw [hsame k]
    · exact h.retired k hk
    · rintro rfl
      exact absurd hk (by decide)
  · rw [hsame _ (by decide)]
    exact h.groupMap

theorem authMoved_migratePoolsUpstreamCredentials (h : OfAuth AuthReady root) :
    OfAuth AuthMoved (migratePoolsUpstreamCredentials root).value := by
  unfold migratePoolsUpstreamCredentials take
  cases hauth : (root.get "auth").bind Yaml.mapping? with
  | none =>
    intro A hA
    rw [value_pure] at hA
    rw [hA] at hauth
    cases hauth
  | some auth =>
    obtain ⟨v, hget, hv⟩ := Option.bind_eq_some_iff.1 hauth
    rw [Yaml.mapping?_eq_some] at hv
    subst hv
    have hready := h auth hget
    dsimp only
    cases hcreds : Mapping.get auth "upstream_credentials" with
    | none =>
      intro A hA
      rw [value_pure, hget] at hA
      obtain rfl := Yaml.mapping.inj (Option.some.inj hA)
      exact ⟨hready, hcreds⟩
    | some mode =>
      have hwritten : OfAuth AuthMoved (Mapping.insert "auth" (.mapping (Mapping.swapRemove "upstream_credentials" auth)) root) :=
        ofAuth_insert hready.swapRemoveCreds
      have hpools : ∀ v, OfAuth AuthMoved
          (Mapping.insert "pools" v (Mapping.insert "auth" (.mapping (Mapping.swapRemove "upstream_credentials" auth)) root)) :=
        fun v => hwritten.congr ((Mapping.get_insert ..).trans (if_neg (by decide)))
      dsimp only
      split
      · exact hpools _
      · exact hpools _

/-- The credentials are an entry of the pools that is not marked. -/
theorem poolsClear_migratePoolsUpstreamCredentials (hauth : OfAuth AuthReady root) (h : PoolsClear root) :
    PoolsClear (migratePoolsUpstreamCredentials root).value := by
  unfold migratePoolsUpstreamCredentials take
  cases hget : (root.get "auth").bind Yaml.mapping? with
  | none => exact h
  | some auth =>
    obtain ⟨v, hgetAuth, hv⟩ := Option.bind_eq_some_iff.1 hget
    rw [Yaml.mapping?_eq_some] at hv
    subst hv
    have hready := hauth auth hgetAuth
    dsimp only
    cases hcreds : Mapping.get auth "upstream_credentials" with
    | none => exact h
    | some mode =>
      have hmode : Unmarked mode := hready.creds mode hcreds
      have hsame : (Mapping.insert "auth" (.mapping (Mapping.swapRemove "upstream_credentials" auth)) root).get "pools" =
          root.get "pools" := (Mapping.get_insert ..).trans (if_neg (by decide))
      have hold : ∀ e ∈ asMap ((root.get "pools").getD .null), Unmarked e.2 := by
        intro e he
        cases hpools : root.get "pools" with
        | none =>
          rw [hpools] at he
          cases he
        | some v =>
          rw [hpools] at he
          cases v with
          | mapping ps => exact h _ hpools ps rfl e he
          | _ => cases he
      have hwritten : ∀ (pm m : Mapping), (∀ e ∈ pm, Unmarked e.2) → PoolsClear (Mapping.insert "pools" (.mapping pm) m) := by
        intro pm m hpm w hw ps hps
        rw [Mapping.get_insert, if_pos rfl] at hw
        obtain rfl := Option.some.inj hw
        obtain rfl := Option.some.inj hps
        exact hpm
      dsimp only
      rw [hsame]
      split
      · exact hwritten _ _ hold
      · refine hwritten _ _ fun e he => ?_
        rcases Mapping.mem_insert he with he | rfl
        · exact hold e he
        · exact hmode

/-! ## Names -/

theorem not_static_of_last {s : String} {c : Char} (hlast : s.toList.getLast? = some c) (hc : c ≠ 's') : s ∉ staticNames := by
  intro hs
  have hall : ∀ s ∈ staticNames, s.toList.getLast? = some 's' := by decide
  exact hc (Option.some.inj (hlast.symm.trans (hall s hs)))

theorem not_static_numbered (base : String) (n : Nat) : base ++ "-" ++ toString n ∉ staticNames := by
  obtain ⟨c, hc⟩ := Option.ne_none_iff_exists'.1 (mt List.getLast?_eq_none_iff.1 (@Nat.toDigits_ne_nil n 10))
  have hdigit := Nat.isDigit_of_mem_toDigits (by decide) (by decide) (List.mem_of_getLast? hc)
  refine not_static_of_last (c := c) ?_ ?_
  · rw [String.toList_append, Nat.toString_eq_repr, Nat.toList_repr, List.getLast?_append, hc]
    rfl
  · rintro rfl
    exact absurd hdigit (by decide)

theorem not_static_uniqName {defs : Mapping} {base : String} (h : base ∉ staticNames) : uniqName defs base ∉ staticNames := by
  have hnumbered : ∀ fuel n, uniqName.numbered defs base n fuel ∉ staticNames := by
    intro fuel
    induction fuel with
    | zero => exact fun _ => h
    | succ fuel ih =>
      intro n
      unfold uniqName.numbered
      dsimp only
      split
      · exact ih _
      · exact not_static_numbered base n
  unfold uniqName
  split
  · exact hnumbered _ _
  · exact h

/-- No definition has a name of the static-token module. -/
def NamesOk (p : Providers) : Prop := ∀ e ∈ p.byModule, e.2 ∉ staticNames

theorem mem_of_reusable {candidates : List String} {want : Option Yaml} {site name : String}
    (h : reusable p candidates want site = some name) : name ∈ candidates := by
  unfold reusable at h
  split at h
  · exact List.mem_of_head? h
  · split at h
    · next n hn =>
      obtain rfl := Option.some.inj h
      exact List.mem_of_find?_eq_some hn
    · exact List.mem_of_find?_eq_some h

theorem lift_names {module : String} {body : Mapping} (hmodule : module ∉ staticNames) (hp : NamesOk p) :
    (lift module body "chain" p).value.1 ∉ staticNames ∧ NamesOk (lift module body "chain" p).value.2 := by
  unfold lift
  dsimp only
  split
  · next name hname =>
    have hmem := mem_of_reusable hname
    obtain ⟨e, he, rfl⟩ := List.mem_map.1 hmem
    exact ⟨hp e (List.mem_filter.1 he).1, hp⟩
  · have hsecond : module ++ "-" ++ splitSuffix "chain" ∉ staticNames := by
      refine not_static_of_last (c := 'n') ?_ (by decide)
      rw [String.toList_append, List.getLast?_append]
      rfl
    have hnew : ∀ {base : String} (defs : Mapping), base ∉ staticNames → uniqName p.defs base ∉ staticNames ∧
        NamesOk ⟨defs, p.byModule ++ [(module, uniqName p.defs base)]⟩ := by
      intro base defs hbase
      have hname : uniqName p.defs base ∉ staticNames := not_static_uniqName hbase
      refine ⟨hname, fun e he => ?_⟩
      rcases List.mem_append.1 he with he | he
      · exact hp e he
      · obtain rfl := List.mem_singleton.1 he
        exact hname
    split
    · exact hnew _ hsecond
    · exact hnew _ hmodule

/-- What a list is left with. -/
def Lifted (e : Yaml) : Prop := e.isMapping = false

def LiftedReady (e : Yaml) : Prop := e.isMapping = false ∧ isStaticTokens e = false

theorem liftChain_named {plane : String} {seq : List Yaml} (h : ∀ e ∈ seq, Untagged e) :
    ∀ e ∈ (liftChain plane seq p).value.1, Lifted e := by
  induction seq generalizing p with
  | nil => exact fun e he => absurd he List.not_mem_nil
  | cons x seq ih =>
    have htail : ∀ p, ∀ e ∈ (liftChain plane seq p).value.1, Lifted e := fun p => ih fun e he => h e (List.mem_cons_of_mem _ he)
    have hother : (∀ m, x ≠ .mapping m) → Lifted x := by
      intro hno
      by_contra hmap
      obtain ⟨m, hm⟩ := h x List.mem_cons_self (Bool.not_eq_false _ ▸ hmap)
      exact hno m hm
    intro e he
    cases x with
    | mapping m =>
      unfold liftChain at he
      split at he
      · exact htail _ e he
      · rcases List.mem_cons.1 he with rfl | he
        · rfl
        · exact htail _ e he
    | _ =>
      rcases List.mem_cons.1 he with rfl | he
      · exact hother nofun
      · exact htail _ e he

theorem liftChain_ready {seq : List Yaml} (h : ∀ e ∈ seq, EntryReady e) (hp : NamesOk p) :
    ∀ e ∈ (liftChain "chain" seq p).value.1, isStaticTokens e = false := by
  induction seq generalizing p with
  | nil => exact fun e he => absurd he List.not_mem_nil
  | cons x seq ih =>
    have htail : ∀ p, NamesOk p → ∀ e ∈ (liftChain "chain" seq p).value.1, isStaticTokens e = false :=
      fun p hp => ih (fun e he => h e (List.mem_cons_of_mem _ he)) hp
    have hx := h x List.mem_cons_self
    intro e he
    cases x with
    | mapping m =>
      unfold liftChain at he
      cases hhead : m.head?.bind fun e => e.1.asStr.map fun module => (module, asMap e.2) with
      | none =>
        rw [hhead] at he
        exact htail p hp e he
      | some entry =>
        obtain ⟨module, body⟩ := entry
        rw [hhead] at he
        have hmodule : module ∉ staticNames := by
          refine hx.1.2 m module rfl ?_
          obtain ⟨e', he', hmap⟩ := Option.bind_eq_some_iff.1 hhead
          obtain ⟨s, hs, hpair⟩ := Option.map_eq_some_iff.1 hmap
          obtain rfl := (Prod.mk.inj hpair).1
          exact Option.bind_eq_some_iff.2 ⟨e', he', hs⟩
        obtain ⟨hname, hnames⟩ := @lift_names _ _ body hmodule hp
        rcases List.mem_cons.1 he with rfl | he
        · exact (entryReady_string hname).2
        · exact htail _ hnames e he
    | _ =>
      rcases List.mem_cons.1 he with rfl | he
      · exact hx.2
      · exact htail p hp e he

/-! ## The block of names -/

def goneAuthKeys : List String := ["modules", "mode", "client_tokens", "group_map", "upstream_credentials", "methods"]

structure AuthDone (A : Mapping) : Prop where
  chain : ListOf LiftedReady (A.get "chain")
  admin : ListOf Lifted (A.get "admin_auth")
  gone : ∀ k ∈ goneAuthKeys, A.get k = none

theorem AuthMoved.gone (h : AuthMoved A) : ∀ k ∈ goneAuthKeys, k ≠ "methods" → A.get k = none := by
  intro k hk hmethods
  by_cases hcreds : k = "upstream_credentials"
  · rw [hcreds]
    exact h.moved
  · by_cases hgroup : k = "group_map"
    · rw [hgroup]
      exact h.groupMap
    · refine h.retired k ?_
      unfold goneAuthKeys at hk
      unfold retiredAuthKeys
      simpa [hmethods, hcreds, hgroup] using hk

/-- A plane is replaced by its names, if it is a list. -/
theorem get_liftPlane (plane k : String) (s : Lifting) : (liftPlane plane s).value.auth.get k =
    if k = plane then (s.auth.get plane).map (fun v => (onSequence (fun seq => pure (liftChain plane seq s.providers).value.1) v).value)
    else s.auth.get k := by
  unfold liftPlane
  by_cases hk : k = plane
  · subst hk
    rw [if_pos rfl]
    cases hget : s.auth.get k with
    | none => exact hget
    | some v =>
      cases v with
      | sequence seq => exact (Mapping.get_insert ..).trans (if_pos rfl)
      | _ => exact hget
  · rw [if_neg hk]
    split
    · rfl
    · exact (Mapping.get_insert ..).trans (if_neg hk)

theorem distinct_liftPlane {plane : String} {s : Lifting} (hs : Mapping.Distinct s.auth) :
    Mapping.Distinct (liftPlane plane s).value.auth := by
  unfold liftPlane
  split
  · exact hs
  · exact Mapping.distinct_insert hs _ _

theorem authDone_liftAuth {s : Lifting} (h : AuthMoved s.auth) (hp : NamesOk s.providers) : AuthDone (liftAuth s).value.auth := by
  unfold liftAuth
  simp only [value_bind, value_pure]
  have hget1 := fun k => get_liftPlane "chain" k s
  have hdistinct1 := @distinct_liftPlane "chain" _ h.distinct
  generalize (liftPlane "chain" s).value = s1 at hget1 hdistinct1 ⊢
  have hget2 := fun k => get_liftPlane "admin_auth" k s1
  have hdistinct2 := @distinct_liftPlane "admin_auth" _ hdistinct1
  generalize (liftPlane "admin_auth" s1).value = s2 at hget2 hdistinct2 ⊢
  have hget : ∀ k, k ≠ "methods" → (s2.auth.swapRemove "methods").get k = s2.auth.get k := fun k hk => by
    rw [Mapping.get_swapRemove hdistinct2, if_neg hk]
  constructor
  · rw [hget _ (by decide), hget2, if_neg (by decide), hget1, if_pos rfl]
    exact h.chain.map fun seq hseq e he =>
      ⟨liftChain_named (fun e he => (hseq e he).1.1) e he, liftChain_ready hseq hp e he⟩
  · rw [hget _ (by decide), hget2, if_pos rfl, hget1, if_neg (by decide)]
    exact h.admin.map fun seq hseq => liftChain_named hseq
  · intro k hk
    by_cases hmethods : k = "methods"
    · rw [hmethods, Mapping.get_swapRemove hdistinct2, if_pos rfl]
    · have hother := h.gone k hk hmethods
      rw [hget _ hmethods, hget2, if_neg, hget1, if_neg, hother]
      · rintro rfl
        exact absurd hk (by decide)
      · rintro rfl
        exact absurd hk (by decide)

/-- What the definitions of a document are called. -/
def IdentityRead (v : Option Yaml) : Prop := v = none ∨ ∃ defs, v = some (.mapping defs) ∧ NamesOk (.ofDefs defs)

/-- A document without the block, with one of names, or with an item for it. -/
def AuthSettled (root : Mapping) (l : List Entry) : Prop :=
  (∀ A, (root.get "auth").bind Yaml.asMapping = some A → AuthDone A) ∨ Says l [str "auth"]

/-- **Identities.** What is not lifted has an item. -/
theorem identity_cleared (hroot : Mapping.Distinct root) (h : OfAuth AuthMoved root) (hids : IdentityRead (root.get "identity-providers")) :
    AuthSettled (migrateIdentityProviders lib root).value (migrateIdentityProviders lib root).ledger := by
  have hdefs : ∀ auth defs (root' : Mapping), AuthMoved auth → NamesOk (.ofDefs defs) →
      AuthSettled (migrateProviderDefs auth defs root').value (migrateProviderDefs auth defs root').ledger := by
    intro auth defs root' hauth hnames
    refine Or.inl fun A hA => ?_
    obtain ⟨v, hget, hv⟩ := Option.bind_eq_some_iff.1 hA
    have hwritten : (migrateProviderDefs auth defs root').value.get "auth" =
        some (.mapping (liftAuth ⟨auth, .ofDefs defs⟩).value.auth) := by
      unfold migrateProviderDefs writeProviders
      simp only [value_bind, value_pure]
      split
      · exact (Mapping.get_insert ..).trans (if_pos rfl)
      · exact (Mapping.get_insert ..).trans ((if_neg (by decide)).trans ((Mapping.get_insert ..).trans (if_pos rfl)))
    rw [hwritten] at hget
    obtain rfl := Option.some.inj hget
    obtain rfl := Option.some.inj hv
    exact authDone_liftAuth (s := ⟨auth, .ofDefs defs⟩) hauth hnames
  unfold migrateIdentityProviders take
  cases hget : root.get "auth" with
  | none =>
    refine Or.inl fun A hA => ?_
    rw [value_pure, Mapping.get_swapRemove hroot, if_pos rfl] at hA
    cases hA
  | some v =>
    cases v with
    | mapping auth =>
      have hmoved := h auth hget
      have hsame : (root.swapRemove "auth").get "identity-providers" = root.get "identity-providers" := by
        rw [Mapping.get_swapRemove hroot, if_neg (by decide)]
      dsimp only
      rw [hsame]
      rcases hids with hnone | ⟨defs, hsome, hnames⟩
      · rw [hnone]
        exact hdefs auth [] _ hmoved fun e he => absurd he List.not_mem_nil
      · rw [hsome]
        exact hdefs auth defs _ hmoved hnames
    | _ => exact Or.inr (says_bind_left (says_todoKept _ _ _))

end Busbar.Migrate
