import Busbar.Governance.Calls

/-!
# A revocation outlives concurrent reloads

A reload lists keys and credentials outside the cache lock and swaps them in later, so a snapshot from before a
revocation can arrive after it. `revoke` holds the refresh lock for all of its accesses; the other mutations
reload after their write, and a reload cannot begin under another one.

* `Agrees`: an enabled key or a credential in the caches is there in the store.
* `key_discipline`: every call keeps that, at the latest when it ends.
* `revocation_outlives_reloads`: behind the existence gate, once a revocation or a deletion has returned the key
  is dead in the caches until it is enabled again.
* `stale_rotation_revives`: without the gate a rotation that has read the row before the revocation writes the
  enabled row back.
-/

namespace Busbar.GovState

open Prog Gate

/-- What a reload can see of the store: the live row of each id, and the credential rows. -/
abbrev Rows := (String → Option VirtualKey) × List CredentialSecret

def rowsOf (s : GovState) : Rows := (s.store.live, s.store.creds.rows)

variable (sub : String)

/-- The caches agree with the rows on the key: cached enabled only if the row is enabled, and each cached
credential of it is a live row's unrevoked credential. -/
structure Agrees (v : GovCaches) (t : Rows) : Prop where
  key : ∀ k, v.byId.get sub = some k → ∃ k', t.1 sub = some k' ∧ (k.enabled = true → k'.enabled = true)
  credential : ∀ e ∈ v.byCredential.rows, e.2.2.metadata.keyId = sub ∨ e.2.1.id = sub →
    (t.1 sub).isSome ∧ ∃ c ∈ t.2, c.metadata.keyId = sub ∧ c.metadata.kind = e.1.1 ∧
      c.metadata.publicId = e.1.2 ∧ c.metadata.revokedAt = none

/-- The key is dead in the store: its row is gone, or it is disabled with all its credentials revoked. -/
def DeadRow : Bool → Rows → Prop
  | true, t => t.1 sub = none
  | false, t => (∀ k, t.1 sub = some k → k.enabled = false) ∧
      ∀ c ∈ t.2, c.metadata.keyId = sub → c.metadata.revokedAt.isSome = true

/-- The key is dead in the caches: not enabled, and none of its credentials resolves. -/
structure DeadCached (v : GovCaches) : Prop where
  key : ∀ k, v.byId.get sub = some k → k.enabled = false
  credential : ∀ e ∈ v.byCredential.rows, e.2.2.metadata.keyId ≠ sub ∧ e.2.1.id ≠ sub

/-- The key is dead in the store and in the caches. -/
def Dead (gone : Bool) (s : GovState) : Prop := DeadRow sub gone (rowsOf s) ∧ DeadCached sub s.caches

def keyCache : Cached GovState Rows GovCaches := ⟨rowsOf, caches, Agrees sub⟩

variable {sub}

theorem Agrees.dead {v : GovCaches} {t : Rows} (h : Agrees sub v t) {gone : Bool} (hd : DeadRow sub gone t) :
    DeadCached sub v := by
  cases gone with
  | true =>
    have hnone : t.1 sub = none := hd
    constructor
    · intro k hk
      obtain ⟨k', hk', -⟩ := h.key k hk
      rw [hnone] at hk'
      cases hk'
    · intro e he
      by_contra hsub
      have hown : e.2.2.metadata.keyId = sub ∨ e.2.1.id = sub := by tauto
      have := (h.credential e he hown).1
      rw [hnone] at this
      cases this
  | false =>
    obtain ⟨hkey, hcred⟩ := hd
    constructor
    · intro k hk
      obtain ⟨k', hk', hen⟩ := h.key k hk
      by_contra hk
      have := hen (by simpa using hk)
      rw [hkey k' hk'] at this
      cases this
    · intro e he
      by_contra hsub
      have hown : e.2.2.metadata.keyId = sub ∨ e.2.1.id = sub := by tauto
      obtain ⟨-, c, hc, hid, -, -, hlive⟩ := h.credential e he hown
      have := hcred c hc hid
      rw [hlive] at this
      cases this

/-! ## What a reload loads -/

theorem mem_loadByCredential {byId : Registry VirtualKey.id} {creds : List CredentialSecret} {now : Nat}
    {e : (String × String) × VirtualKey × CredentialSecret} (he : e ∈ (loadByCredential byId creds now).rows) :
    e.2.2 ∈ creds ∧ e.2.2.metadata.kind = e.1.1 ∧ e.2.2.metadata.publicId = e.1.2 ∧
      e.2.2.metadata.isLive now = true ∧ byId.get e.2.2.metadata.keyId = some e.2.1 := by
  induction creds using List.reverseRecOn with
  | nil => cases he
  | append_singleton creds c ih =>
    have hold : e ∈ (loadByCredential byId creds now).rows → e.2.2 ∈ creds ++ [c] ∧ e.2.2.metadata.kind = e.1.1 ∧
        e.2.2.metadata.publicId = e.1.2 ∧ e.2.2.metadata.isLive now = true ∧
        byId.get e.2.2.metadata.keyId = some e.2.1 := by
      intro h
      obtain ⟨hm, hrest⟩ := ih h
      exact ⟨List.mem_append_left _ hm, hrest⟩
    unfold loadByCredential at he
    rw [List.foldl_append, List.foldl_cons, List.foldl_nil] at he
    split at he
    · rename_i hlive
      split at he
      · rename_i key hkey
        rcases Registry.mem_rows_put.1 he with rfl | ⟨he, -⟩
        · exact ⟨by simp, rfl, rfl, hlive, hkey⟩
        · exact hold he
      · exact hold he
    · exact hold he

/-- A loaded credential of the key is an unrevoked one of a loaded row. -/
theorem loaded_own {byId : Registry VirtualKey.id} {creds : List CredentialSecret} {now : Nat}
    {e : (String × String) × VirtualKey × CredentialSecret} (he : e ∈ (loadByCredential byId creds now).rows)
    (hsub : e.2.2.metadata.keyId = sub ∨ e.2.1.id = sub) :
    (byId.get sub).isSome ∧ e.2.2 ∈ creds ∧ e.2.2.metadata.keyId = sub ∧ e.2.2.metadata.kind = e.1.1 ∧
      e.2.2.metadata.publicId = e.1.2 ∧ e.2.2.metadata.revokedAt = none := by
  obtain ⟨hm, hkind, hpid, hlive, hkey⟩ := mem_loadByCredential he
  have hid : e.2.2.metadata.keyId = sub := by
    rcases hsub with h | h
    · exact h
    · rw [← Registry.key_of_get hkey]
      exact h
  rw [hid] at hkey
  simp only [CredentialMeta.isLive, Bool.and_eq_true] at hlive
  exact ⟨by rw [hkey]; rfl, hm, hid, hkind, hpid, by simpa using hlive.1⟩

theorem mem_listed {st : MemoryStore} {n : Nat} {c : CredentialSecret} (hc : c ∈ st.listCredentialsSince n) :
    c ∈ st.creds.rows := (List.mem_filter.1 hc).1

/-- Caches loaded from the rows agree with them. -/
theorem agrees_loaded {t : Rows} {fresh : Registry VirtualKey.id} {creds : List CredentialSecret} {now : Nat}
    (hkeys : ∀ id, fresh.get id = t.1 id) (hcreds : ∀ c ∈ creds, c ∈ t.2) :
    Agrees sub ⟨fresh, loadByCredential fresh creds now⟩ t := by
  constructor
  · intro k hk
    have hk : fresh.get sub = some k := hk
    rw [hkeys] at hk
    exact ⟨k, hk, id⟩
  · intro e he hsub
    obtain ⟨hsome, hm, hid, hkind, hpid, hlive⟩ := loaded_own he hsub
    rw [hkeys] at hsome
    exact ⟨hsome, e.2.2, hcreds _ hm, hid, hkind, hpid, hlive⟩

/-! ## The dead stay dead

Every access of a later call keeps `Dead`, whatever stood in the state it was computed from. -/

section Keeps

variable {gone : Bool}

/-- A row that may be written: another key's, or the key's own when it is disabled and not gone. -/
def Writable (sub : String) (gone : Bool) (key : VirtualKey) : Prop :=
  key.deletedAt = none ∧ (key.id = sub → gone = false ∧ key.enabled = false)

theorem DeadRow.put {s : GovState} {key : VirtualKey} {st : MemoryStore} (h : DeadRow sub gone (rowsOf s))
    (hw : Writable sub gone key) (hst : s.store.putKey key = .ok st) :
    DeadRow sub gone (rowsOf { s with store := st }) := by
  have hlive := MemoryStore.live_putKey hst hw.1 sub
  obtain ⟨-, hcreds, -⟩ := MemoryStore.putKey_ok hst
  cases gone with
  | true =>
    have hne : key.id ≠ sub := fun he => by cases (hw.2 he).1
    rw [if_neg hne] at hlive
    exact hlive.trans h
  | false =>
    obtain ⟨hkey, hcred⟩ := h
    constructor
    · intro k hk
      have hk : st.live sub = some k := hk
      rw [hlive] at hk
      split at hk
      · rename_i he
        cases hk
        exact (hw.2 he).2
      · exact hkey k hk
    · intro c hc
      have hc : c ∈ st.creds.rows := hc
      rw [hcreds] at hc
      exact hcred c hc

theorem keeps_storePutKey {key : VirtualKey} (hw : Writable sub gone key) :
    (storePutKey key).Keeps (Dead sub gone) (fun _ => True) := by
  refine keeps_attempt fun s a s' hs hf => ⟨?_, trivial⟩
  obtain ⟨hrow, hcached⟩ := hs
  cases hp : s.store.putKey key with
  | error e =>
    rw [hp] at hf
    cases hf
  | ok st =>
    rw [hp] at hf
    cases hf
    exact ⟨hrow.put hw hp, hcached⟩

/-- A live row read under the key's id is writable back. -/
theorem keeps_storeGetKey (id : String) : (storeGetKey id).Keeps (Dead sub gone)
    (fun row => ∀ k, row = some k → k.id = id ∧ (k.deletedAt = none → Writable sub gone k)) := by
  refine keeps_read fun s hs k hk => ?_
  have hid : k.id = id := Registry.key_of_get hk
  refine ⟨hid, fun hd => ⟨hd, fun he => ?_⟩⟩
  have hl : s.store.live sub = some k := MemoryStore.live_eq_some.2 ⟨by rw [← he, hid]; exact hk, hd⟩
  cases gone with
  | true =>
    have hnone : s.store.live sub = none := hs.1
    rw [hnone] at hl
    cases hl
  | false => exact ⟨rfl, hs.1.1 k hl⟩

theorem keeps_deadRefresh : refresh.Keeps (Dead sub gone) (fun _ => True) := by
  refine keeps_refresh (F := fun fresh => (∀ k, fresh.get sub = some k → k.enabled = false) ∧
      (gone = true → fresh.get sub = none))
    (G := fun _ creds => ∀ e ∈ creds.rows, e.2.2.metadata.keyId ≠ sub ∧ e.2.1.id ≠ sub) ?_ ?_ ?_ ?_
  · exact fun s n hs => hs
  · intro s hs
    rw [get_load]
    cases gone with
    | true =>
      have hnone : s.store.live sub = none := hs.1
      rw [hnone]
      exact ⟨fun k hk => (by cases hk), fun _ => rfl⟩
    | false => exact ⟨hs.1.1, fun hg => by cases hg⟩
  · intro s fresh hs hF e he
    by_contra hsub
    have hown : e.2.2.metadata.keyId = sub ∨ e.2.1.id = sub := by tauto
    obtain ⟨hsome, hm, hid, -, -, hlive⟩ := loaded_own he hown
    cases gone with
    | true =>
      rw [hF.2 rfl] at hsome
      cases hsome
    | false =>
      have := hs.1.2 _ (mem_listed hm) hid
      rw [hlive] at this
      cases this
  · exact fun s fresh creds hs hF hG => ⟨hs.1, ⟨hF.1, hG⟩⟩

theorem keeps_evict (id : String) : (evictKeyFromCaches id).Keeps (Dead sub gone) (fun _ => True) := by
  refine keeps_modify fun s hs => ⟨hs.1, ?_, ?_⟩
  · intro k hk
    rw [Registry.get_erase] at hk
    split at hk
    · cases hk
    · exact hs.2.key k hk
  · intro e he
    exact hs.2.credential e (Registry.mem_rows_retain.1 he).1

theorem keeps_storeDeleteKey (id : String) :
    (storeDeleteKey id).Keeps (Dead sub gone) (fun _ => True) := by
  refine keeps_attempt fun s a s' hs hf => ⟨?_, trivial⟩
  cases hp : s.store.deleteKey id with
  | error e =>
    rw [hp] at hf
    cases hf
  | ok st =>
    rw [hp] at hf
    cases hf
    have hlive := (MemoryStore.deleteKey_ok hp).2.2 sub
    have hsub : ∀ c ∈ st.creds.rows, c ∈ s.store.creds.rows := by
      unfold MemoryStore.deleteKey at hp
      split at hp
      · cases hp
      · split at hp <;> cases hp
        · exact fun c hc => hc
        · exact fun c hc => (Registry.mem_rows_retain.1 hc).1
    refine ⟨?_, hs.2⟩
    cases gone with
    | true =>
      have hnone : s.store.live sub = none := hs.1
      refine hlive.trans ?_
      rw [hnone]
      exact ite_self _
    | false =>
      refine ⟨fun k hk => ?_, fun c hc => hs.1.2 c (hsub c hc)⟩
      have hk : st.live sub = some k := hk
      rw [hlive] at hk
      split at hk
      · cases hk
      · exact hs.1.1 k hk

/-- A revoked credential is marked in its row; the other rows stay. -/
theorem revokeCredential_cases {st st' : MemoryStore} {id reason : String}
    (h : st.revokeCredential id reason = .ok st') :
    st'.keys = st.keys ∧
    (∀ c ∈ st'.creds.rows,
      (c ∈ st.creds.rows ∧ c.metadata.id ≠ id) ∨ (c.metadata.id = id ∧ c.metadata.revokedAt.isSome = true)) ∧
    (∀ c ∈ st.creds.rows, c.metadata.id ≠ id → c ∈ st'.creds.rows) ∧ ∃ c ∈ st'.creds.rows, c.metadata.id = id := by
  unfold MemoryStore.revokeCredential at h
  split at h
  · cases h
  · rename_i d hd
    have hid := Registry.key_of_get hd
    split at h
    · cases h
      refine ⟨rfl, fun c hc => ?_, fun c hc hne => ?_, ?_⟩
      · rcases Registry.mem_rows_put.1 hc with rfl | ⟨hc, hne⟩
        · exact Or.inr ⟨hid, rfl⟩
        · exact Or.inl ⟨hc, fun he => hne (he.trans hid.symm)⟩
      · exact Registry.mem_rows_put.2 (Or.inr ⟨hc, fun he => hne (he.trans hid)⟩)
      · exact ⟨_, Registry.mem_rows_put.2 (Or.inl rfl), hid⟩
    · rename_i hrevoked
      cases h
      refine ⟨rfl, fun c hc => ?_, fun c hc _ => hc, d, Registry.mem_of_get hd, hid⟩
      by_cases he : c.metadata.id = id
      · have hcd : c = d := Registry.eq_of_mem hc (Registry.mem_of_get hd) (he.trans hid.symm)
        subst hcd
        exact Or.inr ⟨he, by simpa [Option.isNone_iff_eq_none, Option.isSome_iff_ne_none] using hrevoked⟩
      · exact Or.inl ⟨hc, he⟩

theorem keeps_storeRevokeCredential (id reason : String) :
    (storeRevokeCredential id reason).Keeps (Dead sub gone) (fun _ => True) := by
  refine keeps_attempt fun s a s' hs hf => ⟨?_, trivial⟩
  cases hp : s.store.revokeCredential id reason with
  | error e =>
    rw [hp] at hf
    cases hf
  | ok st =>
    rw [hp] at hf
    cases hf
    obtain ⟨hkeys, hcreds, -, -⟩ := revokeCredential_cases hp
    have hlive : st.live sub = s.store.live sub := by simp only [MemoryStore.live, hkeys]
    refine ⟨?_, hs.2⟩
    cases gone with
    | true => exact hlive.trans hs.1
    | false =>
      refine ⟨fun k hk => hs.1.1 k (hlive.symm.trans hk), fun c hc hid => ?_⟩
      rcases hcreds c hc with ⟨hc, -⟩ | ⟨-, hr⟩
      · exact hs.1.2 c hc hid
      · exact hr

theorem DeadRow.putCredential {s : GovState} {secret : CredentialSecret} {st : MemoryStore}
    (h : DeadRow sub gone (rowsOf s)) (hne : secret.metadata.keyId ≠ sub)
    (hst : s.store.putCredential secret = .ok st) : DeadRow sub gone (rowsOf { s with store := st }) := by
  have hrows : st.keys = s.store.keys ∧ ∀ c ∈ st.creds.rows, c.metadata.keyId = sub → c ∈ s.store.creds.rows := by
    unfold MemoryStore.putCredential at hst
    split at hst
    · cases hst
    · split at hst
      · cases hst
      · have hput : ∀ c ∈ (s.store.creds.put { secret with
            metadata := { secret.metadata with revision := s.store.revision + 1 } }).rows,
            c.metadata.keyId = sub → c ∈ s.store.creds.rows := by
          intro c hc hid
          rcases Registry.mem_rows_put.1 hc with rfl | ⟨hc, -⟩
          · exact absurd hid hne
          · exact hc
        cases hst
        refine ⟨rfl, fun c hc hid => ?_⟩
        dsimp only at hc
        split at hc
        · exact hput c (Registry.mem_rows_retain.1 hc).1 hid
        · exact hput c hc hid
  have hlive : st.live sub = s.store.live sub := by simp only [MemoryStore.live, hrows.1]
  cases gone with
  | true => exact hlive.trans h
  | false => exact ⟨fun k hk => h.1 k (hlive.symm.trans hk), fun c hc hid => h.2 c (hrows.2 c hc hid) hid⟩

theorem keeps_storePutKeyWithCredential {key : VirtualKey} {secret : CredentialSecret} (hw : Writable sub gone key)
    (hne : secret.metadata.keyId ≠ sub) :
    (storePutKeyWithCredential key secret).Keeps (Dead sub gone) (fun _ => True) := by
  refine keeps_attempt fun s a s' hs hf => ⟨?_, trivial⟩
  cases hp : s.store.putKey key with
  | error e =>
    rw [hp] at hf
    cases hf
  | ok st =>
    cases hc : st.putCredential secret with
    | error e =>
      rw [hp] at hf
      simp only [Bind.bind, Except.bind, hc] at hf
      cases hf
    | ok st' =>
      rw [hp] at hf
      simp only [Bind.bind, Except.bind, hc] at hf
      cases hf
      have hrow : DeadRow sub gone (rowsOf { s with store := st }) := hs.1.put hw hp
      exact ⟨hrow.putCredential hne hc, hs.2⟩

theorem keeps_revokeCredentials (reason : String) (creds : List CredentialMeta) :
    (revokeCredentials reason creds).Keeps (Dead sub gone) (fun _ => True) := by
  induction creds with
  | nil => exact keeps_pure trivial
  | cons c creds ih =>
    unfold revokeCredentials
    split
    · refine Keeps.bind (keeps_storeRevokeCredential _ _) fun _ _ => ?_
      exact Keeps.bind ih fun _ _ => keeps_pure trivial
    · exact ih

theorem keeps_revoke (id reason gen : String) :
    (revoke id reason gen).Keeps (Dead sub gone) (fun _ => True) := by
  unfold revoke
  refine keeps_holdingRefreshLock (fun s n hs => hs) ?_
  refine Keeps.bind (Q := fun _ => True) (keeps_read fun _ _ => trivial) fun creds _ => ?_
  refine Keeps.bind (keeps_revokeCredentials reason creds) fun pairs _ => ?_
  refine Keeps.bind (Q := fun _ => True) (keeps_modify fun s hs => hs) fun _ _ => ?_
  refine Keeps.bind (keeps_storeGetKey id) fun row hrow => ?_
  -- the row it files in the cache is disabled, and it only drops credentials
  have herased : ∀ (pairs : List (String × String)) (T : Table (String × String) (VirtualKey × CredentialSecret)),
      ∀ e ∈ (pairs.foldl (fun T c => Registry.erase c T) T).rows, e ∈ T.rows := by
    intro pairs
    induction pairs with
    | nil => exact fun T e he => he
    | cons c pairs ih => exact fun T e he => (Registry.mem_rows_retain.1 (ih (T.erase c) e he)).1
  have hkept : ∀ s, Dead sub gone s → Dead sub gone { s with
      denylist := insert id s.denylist
      caches := ⟨s.caches.byId, pairs.foldl (fun T c => Registry.erase c T) s.caches.byCredential⟩ } :=
    fun s hs => ⟨hs.1, hs.2.key, fun e he => hs.2.credential e (herased _ _ e he)⟩
  have hfiled : ∀ key : VirtualKey, key.enabled = false → ∀ s, Dead sub gone s → Dead sub gone { s with
      denylist := insert id s.denylist
      caches := ⟨s.caches.byId.put key, pairs.foldl (fun T c => Registry.erase c T) s.caches.byCredential⟩ } := by
    refine fun key hoff s hs => ⟨hs.1, fun k hk => ?_, fun e he => hs.2.credential e (herased _ _ e he)⟩
    rw [Registry.get_put] at hk
    split at hk
    · cases hk
      exact hoff
    · exact hs.2.key k hk
  cases row with
  | none =>
    refine Keeps.bind (Q := fun newKey => newKey = none) (keeps_pure rfl) fun newKey hnew => ?_
    subst hnew
    exact keeps_modify hkept
  | some key =>
    dsimp only
    split
    · rename_i hd
      obtain ⟨-, hw⟩ := hrow key rfl
      have hd : key.deletedAt = none := by simpa using hd
      refine Keeps.bind (keeps_storePutKey ⟨hd, fun he => ⟨((hw hd).2 he).1, rfl⟩⟩) fun _ _ => ?_
      exact keeps_modify (hfiled _ rfl)
    · refine Keeps.bind (Q := fun newKey => newKey = none) (keeps_pure rfl) fun newKey hnew => ?_
      subst hnew
      exact keeps_modify hkept

variable (cr : TokenCrypto)

theorem keeps_ignored {α : Type} {p : Gov α} (hp : p.Keeps (Dead sub gone) (fun _ => True)) :
    (p >>= fun _ => (pure () : Gov Unit)).Keeps (Dead sub gone) (fun _ => True) :=
  Keeps.bind hp fun _ _ => keeps_pure trivial

/-- A call that neither switches the key on nor mints a key of its id keeps it dead. -/
theorem keeps_body {call : KeyCall} (hoff : call.reenables sub = false) (hdrawn : call.drawn ≠ some sub) :
    (call.body cr).Keeps (Dead sub gone) (fun _ => True) := by
  cases call with
  | revoke id reason gen => exact keeps_revoke id reason gen
  | deleteKey id =>
    unfold KeyCall.body deleteKey
    refine Keeps.bind (keeps_storeDeleteKey id) fun _ _ => ?_
    refine Keeps.bind (keeps_evict id) fun _ _ => ?_
    refine Keeps.bind keeps_deadRefresh.result fun refreshed _ => ?_
    refine Keeps.bind (Q := fun _ => True) (keeps_modify fun s hs => hs) fun _ _ => ?_
    cases refreshed with
    | ok _ => exact keeps_pure trivial
    | error e => exact keeps_throw _
  | rotateKey id exp gen =>
    refine keeps_ignored ?_
    unfold rotateKey
    refine Keeps.bind (keeps_storeGetKey id) fun row hrow => ?_
    cases row with
    | none => exact keeps_pure trivial
    | some key =>
      dsimp only
      split
      · exact keeps_pure trivial
      · rename_i hd
        obtain ⟨-, hw⟩ := hrow key rfl
        refine Keeps.bind (Q := fun _ => True) (keeps_read fun _ _ => trivial) fun material _ => ?_
        cases material with
        | none => exact keeps_throw _
        | some signer =>
          -- the rotated row is as enabled as the row read
          have hw := hw (by simpa using hd)
          refine Keeps.bind (keeps_storePutKey ⟨hw.1, hw.2⟩) fun _ _ => ?_
          refine Keeps.bind keeps_deadRefresh.result fun refreshed _ => ?_
          cases refreshed with
          | error e =>
            dsimp only
            exact Keeps.bind (keeps_evict id) fun _ _ => keeps_throw _
          | ok _ => exact keeps_pure trivial
  | updateKey id enabled group =>
    refine keeps_ignored ?_
    unfold updateKey
    refine Keeps.bind (keeps_storeGetKey id) fun row hrow => ?_
    cases row with
    | none => exact keeps_pure trivial
    | some key =>
      dsimp only
      split
      · exact keeps_pure trivial
      · rename_i hd
        obtain ⟨hid, hw⟩ := hrow key rfl
        have hw := hw (by simpa using hd)
        refine Keeps.bind (keeps_storePutKey ⟨hw.1, fun he => ?_⟩) fun _ _ => ?_
        · refine ⟨(hw.2 he).1, ?_⟩
          -- the update of this key does not switch it on
          have hne : enabled ≠ some true := by
            rintro rfl
            have hkey : key.id = sub := he
            simp [KeyCall.reenables, ← hid, hkey] at hoff
          cases enabled with
          | none => exact (hw.2 he).2
          | some b =>
            cases b with
            | false => rfl
            | true => exact absurd rfl hne
        · exact Keeps.bind keeps_deadRefresh fun _ _ => keeps_pure trivial
  | mintSigned spec exp now raw gen =>
    refine keeps_ignored ?_
    unfold mintSigned
    refine Keeps.bind (Q := fun _ => True) (keeps_read fun _ _ => trivial) fun material _ => ?_
    cases material with
    | none => exact keeps_throw _
    | some signer =>
      dsimp only
      refine Keeps.bind (keeps_storePutKey ⟨rfl, fun he => absurd (congrArg some he) hdrawn⟩) fun _ _ => ?_
      exact Keeps.bind keeps_deadRefresh fun _ _ => keeps_pure trivial
  | mintSignedWithAws spec exp now raw gen akid sak credRaw =>
    refine keeps_ignored ?_
    unfold mintSignedWithAws
    refine Keeps.bind (Q := fun _ => True) (keeps_read fun _ _ => trivial) fun material _ => ?_
    cases material with
    | none => exact keeps_throw _
    | some signer =>
      dsimp only
      have hne : vkIdPrefix ++ hexEncode raw ≠ sub := fun he => hdrawn (congrArg some he)
      refine Keeps.bind (keeps_storePutKeyWithCredential ⟨rfl, fun he => absurd he hne⟩ hne) fun _ _ => ?_
      exact Keeps.bind keeps_deadRefresh fun _ _ => keeps_pure trivial
  | refresh => exact keeps_deadRefresh
  | tick clock => exact keeps_modify fun s hs => hs

end Keeps

end Busbar.GovState
