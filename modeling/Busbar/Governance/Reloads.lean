import Busbar.Governance.Revocation

/-!
# Key mutations amid cache reloads

* `orderly_refresh`: a reload after a write leaves the caches in agreement with the rows, whatever other reloads
  were under way.
* `orderly_revoke`: so does a revocation, which holds the refresh lock throughout and patches the caches.
* `revocation_outlives_reloads`: once a revocation or a deletion has returned, the key stays dead in the caches.
* `stale_rotation_revives`: without the existence gate it does not.
-/

namespace Busbar.GovState

open Prog Gate

variable {sub : String}

abbrev KeyMode := Mode Rows GovCaches

/-- A call ends with the caches in agreement, and if it killed the key, with the key dead in the store. -/
def Settled (sub : String) (call : KeyCall) (r : Except StoreError Unit) (m : KeyMode) : Prop :=
  ∃ t, m = .fits t ∧ (call.kills sub = true → r = .ok () → ∃ gone, DeadRow sub gone t)

/-! ## Reloads -/

theorem src_lock (s : GovState) (n : Nat) : (keyCache sub).src { s with refreshLock := n } = (keyCache sub).src s := rfl

/-- A section under the lock that leaves the caches in agreement, and the release. -/
theorem orderly_section {α : Type} {p : Gov α} {t : Rows} {v : GovCaches} {Q : Except StoreError α → KeyMode → Prop}
    (hp : Orderly refreshLock (keyCache sub)
      (fun r m => ∃ t' v', m = .locked t' v' ∧ Agrees sub v' t' ∧ Q r (.fits t')) (.locked t v) p) :
    Orderly refreshLock (keyCache sub) Q (.locked t v) (p.result >>= fun r =>
      (Prog.modify (fun s : GovState => { s with refreshLock := s.refreshLock - 1 }) : Gov Unit)
        >>= fun _ => Prog.done r) := by
  refine Orderly.bind (Orderly.result (hp.mono fun r m hm => ?_))
  obtain ⟨t', v', rfl, hagree, hQ⟩ := hm
  refine Orderly.bind (orderly_modify fun s hs hl => ⟨.fits t', ?_, hQ⟩)
  obtain ⟨rfl, rfl⟩ := hs
  exact .leave (Nat.sub_add_cancel hl) hagree

/-- **A reload puts the caches right**, from wherever the source stands. -/
theorem orderly_refresh (t : Rows) :
    Orderly refreshLock (keyCache sub) (fun r m => r = .ok () ∧ m = .fits t) (.torn t) refresh := by
  unfold refresh holdingRefreshLock
  refine Orderly.bind (orderly_modify fun s hs _ => ⟨.locked t s.caches, ?_, ?_⟩)
  · have hs : rowsOf s = t := hs
    subst hs
    exact .enterTorn rfl
  generalize s.caches = v
  refine orderly_section (Orderly.bind (orderly_read fun s hs => ?_))
  -- the keys listed are the live rows of `t`, which stays put under the lock
  have hkeys : ∀ id, (load s.store.listKeys).get id = t.1 id := by
    intro id
    rw [get_load, ← hs.1]
    rfl
  refine Orderly.bind (orderly_read fun s' hs' => ?_)
  have hcreds : ∀ c ∈ s'.store.listCredentialsSince 0, c ∈ t.2 := by
    intro c hc
    rw [← hs'.1]
    exact mem_listed hc
  have hagree : Agrees sub ⟨load s.store.listKeys, loadByCredential (load s.store.listKeys)
      (s'.store.listCredentialsSince 0) s'.store.clock⟩ t := agrees_loaded hkeys hcreds
  generalize load s.store.listKeys = fresh at hagree ⊢
  generalize loadByCredential fresh (s'.store.listCredentialsSince 0) s'.store.clock = freshCred at hagree ⊢
  refine orderly_modify fun s hs _ => ⟨.locked t ⟨fresh, freshCred⟩, ?_, t, _, rfl, hagree, rfl, rfl⟩
  rw [← hs.1]
  exact .hold rfl

/-- A reload keeps caches that agree with rows that stay put. -/
theorem keeps_agreement (t : Rows) :
    refresh.Keeps (Mode.Stands (keyCache sub) (.fits t)) (fun _ => True) := by
  refine keeps_refresh (F := fun fresh => ∀ id, fresh.get id = t.1 id)
    (G := fun fresh creds => Agrees sub ⟨fresh, creds⟩ t) ?_ ?_ ?_ ?_
  · exact fun s n hs => hs
  · intro s hs id
    rw [get_load, ← hs.1]
    rfl
  · intro s fresh hs hF
    refine agrees_loaded hF fun c hc => ?_
    rw [← hs.1]
    exact mem_listed hc
  · exact fun s fresh creds hs _ hG => ⟨hs.1, hG⟩

/-- A reload leaves the rows alone and swaps the caches under the lock. -/
theorem lone_refresh : Lone refreshLock (keyCache sub) (Dead sub) false refresh := by
  have hno : ∀ {p : Gov Unit}, true = false → Free (keyCache sub) (Dead sub) p := fun h => by cases h
  refine lone_access (fun _ => ⟨keeps_agreement, fun gone => keeps_deadRefresh⟩) fun s _ =>
    ⟨rfl, true, ⟨rfl, rfl⟩, ?_⟩
  refine lone_access hno fun s _ => ⟨rfl, true, rfl, ?_⟩
  refine lone_access hno fun s _ => ⟨rfl, true, rfl, ?_⟩
  refine lone_access hno fun s _ => ⟨rfl, true, rfl, ?_⟩
  refine lone_access hno fun s hl => ⟨rfl, false, Nat.sub_add_cancel hl, ?_⟩
  exact rfl

theorem lone_tick (cr : TokenCrypto) (clock : Nat) :
    Lone refreshLock (keyCache sub) (Dead sub) false ((KeyCall.tick clock).body cr) := by
  refine lone_access (fun _ => ⟨fun t => ?_, fun gone => ?_⟩) fun s _ => ⟨rfl, false, ⟨rfl, rfl⟩, rfl⟩
  · exact keeps_modify fun s hs => hs
  · exact keeps_modify fun s hs => hs

/-! ## Mutations -/

section Mutations

variable {α : Type} {Q : Except StoreError α → KeyMode → Prop} {t : Rows}

/-- A write of a row leaves the caches behind; a refused one leaves everything as it was. -/
theorem orderly_storePutKey {key : VirtualKey} {Q : Except StoreError Unit → KeyMode → Prop}
    (hok : ∀ t', Q (.ok ()) (.torn t')) (herr : ∀ e, Q (.error e) (.fits t)) :
    Orderly refreshLock (keyCache sub) Q (.fits t) (storePutKey key) := by
  refine orderly_attempt (fun s a s' hs _ hf => ?_) fun s e hs hf => herr e
  cases hp : s.store.putKey key with
  | error e =>
    rw [hp] at hf
    cases hf
  | ok st =>
    rw [hp] at hf
    cases hf
    exact ⟨_, .tear rfl, hok _⟩

/-- What follows a write: a reload, and then nothing that moves anything. -/
theorem orderly_reloading {f : Unit → Gov α} (hf : ∀ t', Orderly refreshLock (keyCache sub) Q (.fits t') (f ())) :
    Orderly refreshLock (keyCache sub) Q (.torn t) (refresh >>= f) := by
  refine Orderly.bind (Orderly.mono (orderly_refresh t) ?_)
  rintro r m ⟨rfl, rfl⟩
  exact hf t

theorem orderly_ignored {call : KeyCall} {p : Gov α} (hk : call.kills sub = false)
    (hp : Orderly refreshLock (keyCache sub) (fun _ m => ∃ t, m = .fits t) (.fits t) p) :
    Orderly refreshLock (keyCache sub) (Settled sub call) (.fits t) (p >>= fun _ => (pure () : Gov Unit)) := by
  have hno : call.kills sub = true → ∀ {a : Prop}, a := fun h => by rw [hk] at h; cases h
  refine Orderly.bind (hp.mono fun r m hm => ?_)
  obtain ⟨t', rfl⟩ := hm
  cases r with
  | ok a => exact ⟨t', rfl, fun h => hno h⟩
  | error e => exact ⟨t', rfl, fun h => hno h⟩

theorem orderly_deleteKey (id : String) :
    Orderly refreshLock (keyCache sub) (Settled sub (.deleteKey id)) (.fits t) (deleteKey id) := by
  unfold deleteKey
  refine Orderly.bind (orderly_attempt (fun s a s' hs _ hf => ?_) fun s e hs hf => ⟨t, rfl, fun _ h => by cases h⟩)
  cases hp : s.store.deleteKey id with
  | error e =>
    rw [hp] at hf
    cases hf
  | ok st =>
    rw [hp] at hf
    cases hf
    refine ⟨_, .tear rfl, ?_⟩
    -- the row is tombstoned from here on
    have hgone : id = sub → DeadRow sub true (rowsOf { s with store := st }) := by
      rintro rfl
      have hlive := (MemoryStore.deleteKey_ok hp).2.2 id
      rwa [if_pos rfl] at hlive
    have hgone : id = sub → DeadRow sub true ((keyCache sub).src { s with store := st }) := hgone
    generalize (keyCache sub).src { s with store := st } = t' at hgone
    refine Orderly.bind (orderly_modify fun s hs _ => ⟨.torn t', ?_, ?_⟩)
    · have hs : rowsOf s = t' := hs
      subst hs
      exact .tearOn rfl
    refine Orderly.bind (Orderly.result (Orderly.mono (orderly_refresh t') ?_))
    rintro r m ⟨rfl, rfl⟩
    refine Orderly.bind (orderly_modify fun s hs _ => ⟨.fits t', .calm rfl hs.1 hs.2, ?_⟩)
    refine ⟨t', rfl, fun hk _ => ⟨true, hgone ?_⟩⟩
    simpa [KeyCall.kills] using hk

theorem orderly_rotateKey (cr : TokenCrypto) (id : String) (exp : Nat) (gen : String) :
    Orderly refreshLock (keyCache sub) (fun _ m => ∃ t, m = .fits t) (.fits t) (rotateKey cr id exp gen) := by
  unfold rotateKey
  refine Orderly.bind (orderly_read fun s hs => ?_)
  cases s.store.getKey id with
  | none => exact ⟨t, rfl⟩
  | some key =>
    dsimp only
    split
    · exact ⟨t, rfl⟩
    · refine Orderly.bind (orderly_read fun s hs => ?_)
      cases s.signing with
      | none => exact ⟨t, rfl⟩
      | some signer =>
        refine Orderly.bind (orderly_storePutKey (fun t' => ?_) fun e => ⟨t, rfl⟩)
        refine Orderly.bind (Orderly.result (Orderly.mono (orderly_refresh t') ?_))
        rintro r m ⟨rfl, rfl⟩
        exact ⟨t', rfl⟩

theorem orderly_updateKey (id : String) (enabled : Option Bool) (group : Option (Option String)) :
    Orderly refreshLock (keyCache sub) (fun _ m => ∃ t, m = .fits t) (.fits t) (updateKey id enabled group) := by
  unfold updateKey
  refine Orderly.bind (orderly_read fun s hs => ?_)
  cases s.store.getKey id with
  | none => exact ⟨t, rfl⟩
  | some key =>
    dsimp only
    split
    · exact ⟨t, rfl⟩
    · refine Orderly.bind (orderly_storePutKey (fun t' => ?_) fun e => ⟨t, rfl⟩)
      exact orderly_reloading fun t' => ⟨t', rfl⟩

theorem orderly_mintSigned (cr : TokenCrypto) (spec : NewKeySpec) (exp now : Nat) (raw : Bytes) (gen : String) :
    Orderly refreshLock (keyCache sub) (fun _ m => ∃ t, m = .fits t) (.fits t)
      (mintSigned cr spec exp now raw gen) := by
  unfold mintSigned
  refine Orderly.bind (orderly_read fun s hs => ?_)
  cases s.signing with
  | none => exact ⟨t, rfl⟩
  | some signer =>
    refine Orderly.bind (orderly_storePutKey (fun t' => ?_) fun e => ⟨t, rfl⟩)
    exact orderly_reloading fun t' => ⟨t', rfl⟩

theorem orderly_mintSignedWithAws (cr : TokenCrypto) (spec : NewKeySpec) (exp now : Nat) (raw : Bytes)
    (gen akid sak : String) (credRaw : Bytes) :
    Orderly refreshLock (keyCache sub) (fun _ m => ∃ t, m = .fits t) (.fits t)
      (mintSignedWithAws cr spec exp now raw gen akid sak credRaw) := by
  unfold mintSignedWithAws
  refine Orderly.bind (orderly_read fun s hs => ?_)
  cases s.signing with
  | none => exact ⟨t, rfl⟩
  | some signer =>
    refine Orderly.bind (orderly_attempt (fun s a s' hs _ hf => ?_) fun s e hs hf => ⟨t, rfl⟩)
    have hlock : s'.refreshLock = s.refreshLock := by
      simp only [Bind.bind, Except.bind] at hf
      split at hf
      · cases hf
      · split at hf <;> cases hf
        rfl
    exact ⟨_, .tear hlock, orderly_reloading fun t' => ⟨t', rfl⟩⟩

end Mutations

/-! ## Revocation -/

theorem orderly_revokeCredentials (reason : String) (l : List CredentialMeta) {t : Rows} {v : GovCaches}
    {Q : Except StoreError (List (String × String)) → KeyMode → Prop}
    (hids : ∀ m ∈ l, ∃ c ∈ t.2, c.metadata.id = m.id)
    (hQ : ∀ (t' : Rows) (pairs : List (String × String)), t'.1 = t.1 →
      (∀ c ∈ t'.2, c.metadata.revokedAt.isSome = true ∨
        c ∈ t.2 ∧ ∀ m ∈ l, m.revokedAt = none → m.id ≠ c.metadata.id) →
      (∀ c ∈ t.2, (∀ m ∈ l, m.id ≠ c.metadata.id) → c ∈ t'.2) →
      (∀ m ∈ l, m.revokedAt = none → (m.kind, m.publicId) ∈ pairs) → Q (.ok pairs) (.locked t' v)) :
    Orderly refreshLock (keyCache sub) Q (.locked t v) (revokeCredentials reason l) := by
  induction l generalizing t Q with
  | nil => exact hQ t [] rfl (fun c hc => Or.inr ⟨hc, by simp⟩) (fun c hc _ => hc) (by simp)
  | cons m l ih =>
    unfold revokeCredentials
    split
    · rename_i hm
      have hm : m.revokedAt = none := by simpa using hm
      refine Orderly.bind (orderly_attempt (fun s a s' hs _ hf => ?_) fun s e hs hf => ?_)
      · obtain ⟨rfl, hv⟩ := hs
        cases hp : s.store.revokeCredential m.id reason with
        | error e =>
          rw [hp] at hf
          cases hf
        | ok st =>
          rw [hp] at hf
          cases hf
          obtain ⟨hkeys, hback, hkept, hthere⟩ := revokeCredential_cases hp
          refine ⟨.locked (rowsOf { s with store := st }) v, hv ▸ .hold rfl, ?_⟩
          have hids' : ∀ m' ∈ l, ∃ c ∈ st.creds.rows, c.metadata.id = m'.id := by
            intro m' hm'
            by_cases he : m'.id = m.id
            · rw [he]
              exact hthere
            · obtain ⟨c, hc, hid⟩ := hids m' (List.mem_cons_of_mem _ hm')
              exact ⟨c, hkept c hc (fun h => he (hid.symm.trans h)), hid⟩
          refine Orderly.bind (ih hids' fun t' pairs hlive hrev hkept' hpairs => ?_)
          refine hQ t' _ (hlive.trans ?_) (fun c hc => ?_) (fun c hc hne => ?_) (fun m' hm' hlive' => ?_)
          · funext i
            simp only [rowsOf, MemoryStore.live, hkeys, keyCache]
          · rcases hrev c hc with h | ⟨hc', hne⟩
            · exact Or.inl h
            · rcases hback c hc' with ⟨hc'', hid⟩ | ⟨-, h⟩
              · refine Or.inr ⟨hc'', fun m' hm' hlive' => ?_⟩
                rcases List.mem_cons.1 hm' with rfl | hm'
                · exact fun he => hid he.symm
                · exact hne m' hm' hlive'
              · exact Or.inl h
          · refine hkept' c (hkept c hc fun he => hne m List.mem_cons_self he.symm) fun m' hm' => ?_
            exact hne m' (List.mem_cons_of_mem _ hm')
          · rcases List.mem_cons.1 hm' with rfl | hm'
            · exact List.mem_cons_self
            · exact List.mem_cons_of_mem _ (hpairs m' hm' hlive')
      · -- the credentials listed are all there
        exfalso
        obtain ⟨rfl, -⟩ := hs
        obtain ⟨c, hc, hid⟩ := hids m List.mem_cons_self
        have hget : s.store.creds.get m.id = some c := Registry.get_eq_some.2 ⟨hc, hid⟩
        have hok : ∃ st, s.store.revokeCredential m.id reason = .ok st := by
          unfold MemoryStore.revokeCredential
          rw [hget]
          dsimp only
          split
          · exact ⟨_, rfl⟩
          · exact ⟨_, rfl⟩
        obtain ⟨st, hst⟩ := hok
        rw [hst] at hf
        cases hf
    · rename_i hm
      have hm : m.revokedAt ≠ none := by simpa using hm
      refine ih (fun m' hm' => hids m' (List.mem_cons_of_mem _ hm')) fun t' pairs hlive hrev hkept hpairs => ?_
      refine hQ t' pairs hlive (fun c hc => ?_) (fun c hc hne => ?_) (fun m' hm' hlive' => ?_)
      · rcases hrev c hc with h | ⟨hc', hne⟩
        · exact Or.inl h
        · refine Or.inr ⟨hc', fun m' hm' hlive' => ?_⟩
          rcases List.mem_cons.1 hm' with rfl | hm'
          · exact absurd hlive' hm
          · exact hne m' hm' hlive'
      · exact hkept c hc fun m' hm' => hne m' (List.mem_cons_of_mem _ hm')
      · rcases List.mem_cons.1 hm' with rfl | hm'
        · exact absurd hlive' hm
        · exact hpairs m' hm' hlive'

theorem mem_foldl_erase {pairs : List (String × String)}
    {T : Table (String × String) (VirtualKey × CredentialSecret)} {e : (String × String) × VirtualKey × CredentialSecret}
    (he : e ∈ (pairs.foldl (fun T c => Registry.erase c T) T).rows) : e ∈ T.rows ∧ e.1 ∉ pairs := by
  induction pairs generalizing T with
  | nil => exact ⟨he, by simp⟩
  | cons c pairs ih =>
    obtain ⟨hT, hne⟩ := ih he
    obtain ⟨hT, hc⟩ := Registry.mem_rows_retain.1 hT
    have hc : e.1 ≠ c := by simpa using hc
    exact ⟨hT, by simp [hc, hne]⟩

/-- What a revocation of `id` does to the live rows and to the key cache: nothing, when there is no live row, or
both get the row disabled. -/
def Patched (id : String) (live live' : String → Option VirtualKey) (byId byId' : Registry VirtualKey.id) : Prop :=
  (live id = none ∧ live' = live ∧ byId' = byId) ∨
    ∃ key stamped : VirtualKey, (live id).isSome = true ∧ key.id = id ∧ key.enabled = false ∧
      stamped.enabled = false ∧ (live' = fun i => if id = i then some stamped else live i) ∧ byId' = byId.put key

/-- The caches agree with the rows after the patch of any revocation. -/
theorem Agrees.patched {id : String} {t : Rows} {live' : String → Option VirtualKey} {creds' : List CredentialSecret}
    {v : GovCaches} {byId' : Registry VirtualKey.id} {pairs : List (String × String)} (h : Agrees sub v t)
    (hkept : ∀ c ∈ t.2, c.metadata.keyId ≠ id → c ∈ creds')
    (hpairs : ∀ c ∈ t.2, c.metadata.keyId = id → c.metadata.revokedAt = none →
      (c.metadata.kind, c.metadata.publicId) ∈ pairs)
    (hrow : Patched id t.1 live' v.byId byId') :
    Agrees sub ⟨byId', pairs.foldl (fun T c => Registry.erase c T) v.byCredential⟩ (live', creds') := by
  have hlive : ∀ i, (t.1 i).isSome = true → (live' i).isSome = true := by
    intro i hi
    rcases hrow with ⟨-, rfl, -⟩ | ⟨key, stamped, -, -, -, -, rfl, -⟩
    · exact hi
    · dsimp only
      split
      · rfl
      · exact hi
  constructor
  · intro k hk
    have hk : byId'.get sub = some k := hk
    rcases hrow with ⟨-, rfl, rfl⟩ | ⟨key, stamped, -, hid, hoff, -, rfl, rfl⟩
    · exact h.key k hk
    · rw [Registry.get_put, hid] at hk
      by_cases he : id = sub
      · rw [if_pos he] at hk
        cases hk
        exact ⟨stamped, if_pos he, fun hen => by rw [hoff] at hen; cases hen⟩
      · rw [if_neg he] at hk
        obtain ⟨k', hk', hen⟩ := h.key k hk
        exact ⟨k', (if_neg he).trans hk', hen⟩
  · intro e he hown
    obtain ⟨he, hne⟩ := mem_foldl_erase he
    obtain ⟨hsome, c, hc, hid, hkind, hpid, hunrevoked⟩ := h.credential e he hown
    by_cases hs : id = sub
    · -- a credential of the revoked key has been erased
      have := hpairs c hc (hid.trans hs.symm) hunrevoked
      rw [hkind, hpid] at this
      exact absurd this hne
    · exact ⟨hlive sub hsome, c, hkept c hc fun h => hs (h.symm.trans hid), hid, hkind, hpid, hunrevoked⟩

/-- The key is dead after its own revocation. -/
theorem dead_of_patched {t : Rows} {live' : String → Option VirtualKey} {creds' : List CredentialSecret}
    {byId byId' : Registry VirtualKey.id} (hrow : Patched sub t.1 live' byId byId')
    (hcreds : ∀ c ∈ creds', c.metadata.keyId = sub → c.metadata.revokedAt.isSome = true) :
    ∃ gone, DeadRow sub gone (live', creds') := by
  rcases hrow with ⟨hnone, rfl, -⟩ | ⟨key, stamped, -, -, -, hoff, rfl, -⟩
  · exact ⟨true, hnone⟩
  · refine ⟨false, fun k hk => ?_, hcreds⟩
    dsimp only at hk
    rw [if_pos rfl] at hk
    cases hk
    exact hoff

theorem mem_listCredentials {st : MemoryStore} {id : String} {m : CredentialMeta} :
    m ∈ st.listCredentials id ↔ ∃ c ∈ st.creds.rows, c.metadata.keyId = id ∧ c.metadata = m := by
  simp [MemoryStore.listCredentials, and_assoc]

/-- **A revocation puts the caches right** under the lock it holds throughout. -/
theorem orderly_revoke (id reason gen : String) (t : Rows) :
    Orderly refreshLock (keyCache sub) (Settled sub (.revoke id reason gen)) (.fits t) (revoke id reason gen) := by
  unfold revoke holdingRefreshLock
  refine Orderly.bind (orderly_modify fun s hs _ => ?_)
  obtain ⟨rfl, hfits⟩ := hs
  have hagree : Agrees sub s.caches (rowsOf s) := hfits
  refine ⟨.locked (rowsOf s) s.caches, .enter rfl, ?_⟩
  generalize rowsOf s = t at hagree
  generalize s.caches = v at hagree
  refine orderly_section (Orderly.bind (orderly_read fun s hs => ?_))
  obtain ⟨hsrc, -⟩ := hs
  have hrows : s.store.creds.rows = t.2 := by rw [← hsrc]; rfl
  refine Orderly.bind (orderly_revokeCredentials reason _ ?_ ?_)
  · intro m hm
    obtain ⟨c, hc, -, rfl⟩ := mem_listCredentials.1 hm
    exact ⟨c, hrows ▸ hc, rfl⟩
  intro t₁ pairs hlive hrevoked hkept hpairs
  -- what the loop has done to the credentials of the key, and to those of the others
  have hall : ∀ c ∈ t₁.2, c.metadata.keyId = id → c.metadata.revokedAt.isSome = true := by
    intro c hc hid
    rcases hrevoked c hc with h | ⟨hc', hne⟩
    · exact h
    · by_contra hnot
      have hmem := mem_listCredentials.2 ⟨c, hrows.symm ▸ hc', hid, rfl⟩
      exact hne _ hmem (by simpa using hnot) rfl
  have hothers : ∀ c ∈ t.2, c.metadata.keyId ≠ id → c ∈ t₁.2 := by
    intro c hc hne
    refine hkept c hc fun m hm he => ?_
    obtain ⟨c', hc', hid', rfl⟩ := mem_listCredentials.1 hm
    have hcc : c' = c := Registry.eq_of_mem hc' (hrows.symm ▸ hc) he
    exact hne (hcc ▸ hid')
  have hown : ∀ c ∈ t.2, c.metadata.keyId = id → c.metadata.revokedAt = none →
      (c.metadata.kind, c.metadata.publicId) ∈ pairs :=
    fun c hc hid hn => hpairs _ (mem_listCredentials.2 ⟨c, hrows.symm ▸ hc, hid, rfl⟩) hn
  refine Orderly.bind (orderly_modify fun s hs _ => ⟨.locked t₁ v, ?_, ?_⟩)
  · obtain ⟨rfl, rfl⟩ := hs
    exact .hold rfl
  -- the patch of the caches
  have hpatch : ∀ (file : Registry VirtualKey.id → Registry VirtualKey.id) (live' : String → Option VirtualKey),
      Patched id t.1 live' v.byId (file v.byId) →
      Orderly refreshLock (keyCache sub)
        (fun r m => ∃ t' v', m = .locked t' v' ∧ Agrees sub v' t' ∧
          Settled sub (.revoke id reason gen) r (.fits t')) (.locked (live', t₁.2) v)
        (Prog.modify (fun s : GovState => { s with
          denylist := insert id s.denylist
          caches := ⟨file s.caches.byId, pairs.foldl (fun T c => Registry.erase c T) s.caches.byCredential⟩ })) := by
    intro file live' hrow
    refine orderly_modify fun s hs _ => ?_
    obtain ⟨hsrc, rfl⟩ := hs
    refine ⟨.locked (live', t₁.2) _, ?_, _, _, rfl, hagree.patched hothers hown hrow, _, rfl, fun hk _ => ?_⟩
    · rw [← hsrc]
      exact .hold rfl
    · have hid : id = sub := by simpa [KeyCall.kills] using hk
      subst hid
      exact dead_of_patched hrow hall
  refine Orderly.bind (orderly_read fun s hs => ?_)
  obtain ⟨hsrc₁, -⟩ := hs
  have hlive₁ : s.store.live id = t.1 id := by
    rw [← hlive, ← hsrc₁]
    rfl
  -- without a live row there is nothing to disable
  have hidle : t.1 id = none → Orderly refreshLock (keyCache sub) _ (.locked t₁ v) _ := fun hnone =>
    hpatch (fun T => T) t₁.1 (Or.inl ⟨hnone, hlive, rfl⟩)
  cases hrow : s.store.getKey id with
  | none =>
    refine hidle (hlive₁.symm.trans ?_)
    simp only [MemoryStore.live, show s.store.keys.get id = none from hrow, Option.filter_none]
  | some key =>
    have hid : key.id = id := Registry.key_of_get hrow
    dsimp only
    split
    · rename_i hd
      have hd : key.deletedAt = none := by simpa using hd
      have hkey : t.1 id = some key := hlive₁.symm.trans (MemoryStore.live_eq_some.2 ⟨hrow, hd⟩)
      refine Orderly.bind (orderly_attempt (fun s' a s'' hs' _ hf => ?_) fun s' e hs' hf => ?_)
      · cases hp : s'.store.putKey { key with generationHash := bindingMarker key.id gen, enabled := false } with
        | error e =>
          rw [hp] at hf
          cases hf
        | ok st =>
          rw [hp] at hf
          cases hf
          obtain ⟨-, hcreds, -⟩ := MemoryStore.putKey_ok hp
          obtain ⟨hsrc', rfl⟩ := hs'
          have hrows' : rowsOf { s' with store := st } = (fun i => if id = i then some { key with
              generationHash := bindingMarker key.id gen, enabled := false, revision := s'.store.revision + 1 }
              else t.1 i, t₁.2) := by
            refine Prod.ext (funext fun i => ?_) ?_
            · refine (MemoryStore.live_putKey hp hd i).trans ?_
              rw [← hlive, ← hsrc']
              simp only [hid]
              rfl
            · refine (congrArg Registry.rows hcreds).trans ?_
              rw [← hsrc']
              rfl
          refine ⟨.locked (rowsOf { s' with store := st }) s'.caches, .hold rfl, ?_⟩
          rw [hrows']
          refine hpatch (fun T => T.put { key with generationHash := bindingMarker key.id gen, enabled := false }) _
            (Or.inr ⟨{ key with generationHash := bindingMarker key.id gen, enabled := false }, _, ?_, hid, rfl, ?_,
              rfl, rfl⟩)
          · rw [hkey]
            rfl
          · rfl
      · -- the row is live, so the write is not refused
        exfalso
        have hlive' : s'.store.live id = some key := by
          refine Eq.trans ?_ hkey
          rw [← hlive, ← hs'.1]
          rfl
        obtain ⟨st, hst⟩ := MemoryStore.putKey_isOk (s := s'.store)
          { key with generationHash := bindingMarker key.id gen, enabled := false }
          (by simpa [hid] using MemoryStore.not_tombstoned_of_live hlive')
        rw [hst] at hf
        cases hf
    · rename_i hd
      refine hidle (hlive₁.symm.trans ?_)
      have hd : key.deletedAt.isNone = false := Bool.eq_false_iff.2 hd
      simp only [MemoryStore.live, show s.store.keys.get id = some key from hrow, Option.filter_some, hd,
        Bool.false_eq_true, if_false]

/-! ## Whole runs -/

/-- Every call keeps the discipline of caches and rows. -/
theorem key_discipline (cr : TokenCrypto) (sub : String) :
    Disciplined refreshLock (keyPlan cr) (keyCache sub) (Dead sub) (DeadRow sub) (Settled sub) where
  agree := by
    rintro gone t s ⟨rfl, hfits⟩ hd
    exact ⟨hd, hfits.dead hd⟩
  ends := by
    rintro call r m ⟨t, rfl, -⟩
    exact ⟨t, rfl⟩
  lone := by
    intro call hg
    cases call with
    | refresh => exact lone_refresh
    | tick clock => exact lone_tick cr clock
    | revoke | deleteKey | rotateKey | updateKey | mintSigned | mintSignedWithAws => cases hg
  gated := by
    intro call hg t
    cases call with
    | revoke id reason gen => exact orderly_revoke id reason gen t
    | deleteKey id => exact orderly_deleteKey id
    | rotateKey id exp gen => exact orderly_ignored rfl (orderly_rotateKey cr id exp gen)
    | updateKey id enabled group => exact orderly_ignored rfl (orderly_updateKey id enabled group)
    | mintSigned spec exp now raw gen => exact orderly_ignored rfl (orderly_mintSigned cr spec exp now raw gen)
    | mintSignedWithAws spec exp now raw gen akid sak credRaw =>
      exact orderly_ignored rfl (orderly_mintSignedWithAws cr spec exp now raw gen akid sak credRaw)
    | refresh | tick => cases hg

/-- The caches agree with the store at boot. -/
theorem boot_agrees (store : MemoryStore) (signer : Option TokenSigner) :
    Mode.Stands (keyCache sub) (.fits (rowsOf (newWithSigner store signer))) (newWithSigner store signer) :=
  ⟨rfl, agrees_loaded (fun id => get_load store id) fun _ hc => mem_listed hc⟩

/-- **A revocation outlives concurrent reloads.** Calls behind the existence gate, reloads at any time, one access
after the other: once a revocation or a deletion of a key has returned, the key is not found enabled and none of
its credentials resolves, until a later update switches it on. -/
theorem revocation_outlives_reloads (cr : TokenCrypto) (store : MemoryStore) (signer : Option TokenSigner)
    (sub : String) {pre post : List (Event KeyCall)} {i : Nat} {call : KeyCall} (hkills : call.kills sub = true)
    (hrunning : ((after refreshLock (keyPlan cr) true (newWithSigner store signer) pre).calls[i]?.map
      (fun c => c.prog.ended)) = some false)
    (hreturned : (after refreshLock (keyPlan cr) true (newWithSigner store signer) (pre ++ [.advance i])).calls[i]?
      = some ⟨call, .done (.ok ())⟩)
    (hoff : ∀ later, Event.call later ∈ post → later.reenables sub = false)
    (hdrawn : ∀ later, Event.call later ∈ post → later.drawn ≠ some sub) :
    let s := (after refreshLock (keyPlan cr) true (newWithSigner store signer) (pre ++ .advance i :: post)).shared
    (∀ k, s.lookupBySub sub = some k → k.enabled = false) ∧
      ∀ kind publicId k c, s.lookupCredential kind publicId = some (k, c) → k.id ≠ sub ∧ c.metadata.keyId ≠ sub := by
  intro s
  have hgated : (keyPlan cr).gated call = true := by
    cases call with
    | refresh | tick => cases hkills
    | revoke | deleteKey | rotateKey | updateKey | mintSigned | mintSignedWithAws => rfl
  have hbefore : ∀ c, (after refreshLock (keyPlan cr) true (newWithSigner store signer) pre).calls[i]? = some c →
      c.prog.ended = false := by
    intro c hc
    rw [hc] at hrunning
    exact Option.some.inj hrunning
  -- which way the key is dead is settled when the call returns
  obtain ⟨gone, -, hcached⟩ : ∃ gone, Dead sub gone s := by
    refine Gate.settled (key_discipline cr sub) rfl (boot_agrees store signer) hgated hbefore hreturned ?_ ?_
    · rintro t ⟨t', ht, hend⟩
      cases ht
      exact hend hkills rfl
    · exact fun gone later hlater => keeps_body cr (hoff later hlater) (hdrawn later hlater)
  refine ⟨hcached.key, fun kind publicId k c hc => ?_⟩
  obtain ⟨hid, hkey⟩ := hcached.credential _ (Table.lookup_eq_some.1 hc)
  exact ⟨hkey, hid⟩

/-! ## Runs

One enabled key; a rotation of it, a revocation and a reload. -/

namespace StaleRotation

def row : VirtualKey :=
  { id := "k", generationHash := bindingMarker "k" "g0", name := "n", allowedScopes := none, enabled := true
    createdAt := 0, group := none, labels := [], expiresAt := none, deletedAt := none, revision := 1 }

def store : MemoryStore := { MemoryStore.new with keys := Registry.empty.put row, revision := 1 }

def boot : GovState := newWithSigner store (some ⟨[7], "k1"⟩)

def rotation : KeyCall := .rotateKey "k" 100 "g1"

def revocation : KeyCall := .revoke "k" "leaked" "g2"

/-- The rotation reads the row; then the revocation runs up to its last access. -/
def pre : List (Event KeyCall) := [.call rotation, .advance 0, .call revocation] ++ List.replicate 6 (.advance 1)

/-- The rotation goes on. -/
def post : List (Event KeyCall) := List.replicate 7 (.advance 0)

/-- A reload under way, then the revocation up to its last access. -/
def gatedPre : List (Event KeyCall) :=
  [.call .refresh, .advance 0, .advance 0, .call revocation, .advance 1, .advance 0, .advance 0, .advance 0]
    ++ List.replicate 6 (.advance 1)

/-- A rotation and a reload. -/
def gatedPost : List (Event KeyCall) :=
  [.call rotation, .call .refresh] ++ List.replicate 8 (.advance 2) ++ List.replicate 5 (.advance 3)

end StaleRotation

/-- **A rotation amid a revocation revives the key** where no gate keeps it out: it has read the enabled row and
writes it back. -/
theorem stale_rotation_revives : ¬ ∀ (cr : TokenCrypto) (store : MemoryStore) (signer : Option TokenSigner)
    (sub : String) (pre post : List (Event KeyCall)) (i : Nat) (call : KeyCall), call.kills sub = true →
    ((after refreshLock (keyPlan cr) false (newWithSigner store signer) pre).calls[i]?.map
      (fun c => c.prog.ended)) = some false →
    (after refreshLock (keyPlan cr) false (newWithSigner store signer) (pre ++ [.advance i])).calls[i]?
      = some ⟨call, .done (.ok ())⟩ →
    (∀ later, Event.call later ∈ post → later.reenables sub = false) →
    (∀ later, Event.call later ∈ post → later.drawn ≠ some sub) →
    ∀ k, (after refreshLock (keyPlan cr) false (newWithSigner store signer)
      (pre ++ .advance i :: post)).shared.lookupBySub sub = some k → k.enabled = false := by
  intro h
  have hdead := h plainCrypto StaleRotation.store (some ⟨[7], "k1"⟩) "k" StaleRotation.pre StaleRotation.post 1
    StaleRotation.revocation rfl (by decide +kernel) (by exact rfl)
    (by simp [StaleRotation.post]) (by simp [StaleRotation.post])
  have hlive : ((after refreshLock (keyPlan plainCrypto) false StaleRotation.boot
      (StaleRotation.pre ++ .advance 1 :: StaleRotation.post)).shared.lookupBySub "k").map VirtualKey.enabled
      = some true := by decide +kernel
  obtain ⟨k, hk, hen⟩ := Option.map_eq_some_iff.1 hlive
  rw [hdead k hk] at hen
  cases hen

/-- A reload from before the revocation, a rotation and a reload after it. -/
theorem revocation_outlives_reloads_rotated :
    ((after refreshLock (keyPlan plainCrypto) true StaleRotation.boot (StaleRotation.gatedPre ++ .advance 1 ::
      StaleRotation.gatedPost)).shared.lookupBySub "k").map VirtualKey.enabled = some false ∧
    ∀ k, (after refreshLock (keyPlan plainCrypto) true StaleRotation.boot (StaleRotation.gatedPre ++ .advance 1 ::
      StaleRotation.gatedPost)).shared.lookupBySub "k" = some k → k.enabled = false :=
  ⟨by decide +kernel, (revocation_outlives_reloads plainCrypto StaleRotation.store (some ⟨[7], "k1"⟩) "k" rfl
    (by decide +kernel) (by exact rfl) (by simp [StaleRotation.gatedPost, StaleRotation.rotation, KeyCall.reenables])
    (by simp [StaleRotation.gatedPost, StaleRotation.rotation, KeyCall.drawn])).1⟩

end Busbar.GovState
