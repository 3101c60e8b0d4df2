import Busbar.Admin.KeyCap
import Mathlib.Data.Finset.Card

/-!
# No bucket passes its ceiling

The live keys of a bucket are those an edit could have added to it: a mint, a rotation's write-back, an update
that enables or rebinds. Each of them has counted under the gate, and what runs beside it writes rows of
self-serve groups only.

* `liveKeys`: the enabled, not tombstoned, not denylisted keys of a bucket.
* `Beside`: what every access outside the gate does to the rows.
* `safe_mintSection`, `safe_rotateSection`, `safe_updateSection`: each section keeps the ceiling.
* `key_cap_holds`: so does every run, as long as nothing beside the gate changes the row of an update under way.
-/

namespace Busbar.GovState

open Prog Gate

/-- The live keys bound to a group, or unbound. -/
def liveKeys (s : GovState) (bucket : Option String) : Finset String :=
  ((s.store.keys.rows.filter (fun k => k.group == bucket && k.enabled && k.deletedAt.isNone
    && !s.isRevoked k.id)).map VirtualKey.id).toFinset

/-- The unbound bucket and those of groups without the self-serve prefix. -/
def Counted (bucket : Option String) : Prop := ∀ g, bucket = some g → isSelfGroup g = false

/-- Every counted bucket is within the ceiling. -/
def Capped (cap : Nat) (s : GovState) : Prop := ∀ b, Counted b → (liveKeys s b).card ≤ cap

/-- What runs beside the gate enables no row but those of self-serve groups, and lifts no revocation. -/
def Beside (s s' : GovState) : Prop :=
  (∀ id k, s'.store.live id = some k → k.enabled = true →
    (∃ g, k.group = some g ∧ isSelfGroup g = true) ∨ s.store.live id = some k) ∧ s.denylist ⊆ s'.denylist

/-- And the row under an id stays as it is. -/
def Spares (id : String) (s s' : GovState) : Prop := Beside s s' ∧ s'.store.live id = s.store.live id

variable {s s' : GovState} {b : Option String} {cap : Nat}

theorem mem_liveKeys {id : String} : id ∈ liveKeys s b ↔
    ∃ k, s.store.live id = some k ∧ k.group = b ∧ k.enabled = true ∧ id ∉ s.denylist := by
  simp only [liveKeys, List.mem_toFinset, List.mem_map, List.mem_filter, Bool.and_eq_true, beq_iff_eq,
    Option.isNone_iff_eq_none, Bool.not_eq_true', isRevoked, decide_eq_false_iff_not]
  constructor
  · rintro ⟨k, ⟨hk, ⟨⟨hg, hen⟩, hd⟩, hr⟩, rfl⟩
    exact ⟨k, MemoryStore.live_eq_some.2 ⟨Registry.get_of_mem hk, hd⟩, hg, hen, hr⟩
  · rintro ⟨k, hk, hg, hen, hr⟩
    obtain ⟨hget, hd⟩ := MemoryStore.live_eq_some.1 hk
    obtain ⟨hm, rfl⟩ := Registry.get_eq_some.1 hget
    exact ⟨k, ⟨hm, ⟨⟨hg, hen⟩, hd⟩, hr⟩, rfl⟩

theorem Beside.refl (s : GovState) : Beside s s := ⟨fun _ _ hk _ => Or.inr hk, Finset.Subset.refl _⟩

theorem Beside.trans {s s' s'' : GovState} (h : Beside s s') (h' : Beside s' s'') : Beside s s'' := by
  refine ⟨fun id k hk hen => ?_, h.2.trans h'.2⟩
  rcases h'.1 id k hk hen with hself | hk
  · exact Or.inl hself
  · exact h.1 id k hk hen

theorem Spares.refl (id : String) (s : GovState) : Spares id s s := ⟨Beside.refl s, rfl⟩

theorem Spares.trans {id : String} {s s' s'' : GovState} (h : Spares id s s') (h' : Spares id s' s'') :
    Spares id s s'' := ⟨h.1.trans h'.1, h'.2.trans h.2⟩

/-- A counted bucket only loses keys beside the gate. -/
theorem Beside.liveKeys (h : Beside s s') (hb : Counted b) : liveKeys s' b ⊆ liveKeys s b := by
  intro id hid
  obtain ⟨k, hk, hg, hen, hr⟩ := mem_liveKeys.1 hid
  refine mem_liveKeys.2 ⟨k, ?_, hg, hen, fun hin => hr (h.2 hin)⟩
  rcases h.1 id k hk hen with ⟨g, hgroup, hself⟩ | hk
  · rw [hb g (hg.symm.trans hgroup)] at hself
    cases hself
  · exact hk

theorem Beside.capped (h : Beside s s') (hs : Capped cap s) : Capped cap s' :=
  fun b hb => (Finset.card_le_card (h.liveKeys hb)).trans (hs b hb)

/-- A write adds at most its own row to a bucket, and only as a live key of that bucket. -/
theorem liveKeys_put {key : VirtualKey} {st : MemoryStore} (hp : s.store.putKey key = .ok st)
    (hd : key.deletedAt = none) : liveKeys { s with store := st } b ⊆ insert key.id (liveKeys s b) ∧
      (¬ (key.group = b ∧ key.enabled = true ∧ key.id ∉ s.denylist) →
        liveKeys { s with store := st } b ⊆ liveKeys s b) := by
  have hlive := MemoryStore.live_putKey hp hd
  constructor
  · intro id hid
    obtain ⟨k, hk, hg, hen, hr⟩ := mem_liveKeys.1 hid
    have hk : st.live id = some k := hk
    rw [hlive] at hk
    split at hk
    · rename_i he
      exact Finset.mem_insert.2 (Or.inl he.symm)
    · exact Finset.mem_insert_of_mem (mem_liveKeys.2 ⟨k, hk, hg, hen, hr⟩)
  · intro hno id hid
    obtain ⟨k, hk, hg, hen, hr⟩ := mem_liveKeys.1 hid
    have hk : st.live id = some k := hk
    rw [hlive] at hk
    split at hk
    · rename_i he
      cases hk
      exact absurd ⟨hg, hen, he ▸ hr⟩ hno
    · exact mem_liveKeys.2 ⟨k, hk, hg, hen, hr⟩

theorem Capped.congr (hs : Capped cap s) (hkeys : s'.store.keys = s.store.keys) (hdeny : s'.denylist = s.denylist) :
    Capped cap s' := by
  intro b hb
  have hsame : liveKeys s' b = liveKeys s b := by simp only [liveKeys, isRevoked, hkeys, hdeny]
  rw [hsame]
  exact hs b hb

/-- A write that its bucket has room for keeps the ceiling. -/
theorem Capped.put {key : VirtualKey} {st : MemoryStore} (hs : Capped cap s) (hp : s.store.putKey key = .ok st)
    (hd : key.deletedAt = none)
    (hroom : key.enabled = true → key.id ∉ s.denylist → Counted key.group →
      (insert key.id (liveKeys s key.group)).card ≤ cap) : Capped cap { s with store := st } := by
  intro b hb
  obtain ⟨hinsert, hsame⟩ := liveKeys_put (b := b) hp hd
  by_cases hadd : key.group = b ∧ key.enabled = true ∧ key.id ∉ s.denylist
  · obtain ⟨rfl, hen, hr⟩ := hadd
    exact (Finset.card_le_card hinsert).trans (hroom hen hr hb)
  · exact (Finset.card_le_card (hsame hadd)).trans (hs b hb)

/-! ## Accesses beside the gate -/

theorem beside_store {st : MemoryStore} (h : ∀ id k, st.live id = some k → k.enabled = true →
    (∃ g, k.group = some g ∧ isSelfGroup g = true) ∨ s.store.live id = some k) :
    Beside s { s with store := st } := ⟨h, Finset.Subset.refl _⟩

/-- A write of a row that is disabled or of a self-serve group. -/
theorem beside_put {key : VirtualKey} {st : MemoryStore} (hp : s.store.putKey key = .ok st)
    (hd : key.deletedAt = none)
    (hkey : key.enabled = true → ∃ g, key.group = some g ∧ isSelfGroup g = true) :
    Beside s { s with store := st } := by
  refine beside_store fun id k hk hen => ?_
  rw [MemoryStore.live_putKey hp hd] at hk
  split at hk
  · cases hk
    exact Or.inl (hkey hen)
  · exact Or.inr hk

theorem within_storePutKey {key : VirtualKey} (hd : key.deletedAt = none)
    (hkey : key.enabled = true → ∃ g, key.group = some g ∧ isSelfGroup g = true) :
    (storePutKey key).Within Beside (fun _ => True) := by
  refine within_attempt Beside.refl fun s a s' hf => ?_
  cases hp : s.store.putKey key with
  | error e =>
    rw [hp] at hf
    cases hf
  | ok st =>
    rw [hp] at hf
    cases hf
    exact beside_put hp hd hkey

theorem within_storeDeleteKey (id : String) : (storeDeleteKey id).Within Beside (fun _ => True) := by
  refine within_attempt Beside.refl fun s a s' hf => ?_
  cases hp : s.store.deleteKey id with
  | error e =>
    rw [hp] at hf
    cases hf
  | ok st =>
    rw [hp] at hf
    cases hf
    refine beside_store fun id' k hk _ => ?_
    rw [(MemoryStore.deleteKey_ok hp).2.2 id'] at hk
    split at hk
    · cases hk
    · exact Or.inr hk

theorem within_storeRevokeCredential (id reason : String) :
    (storeRevokeCredential id reason).Within Beside (fun _ => True) := by
  refine within_attempt Beside.refl fun s a s' hf => ?_
  cases hp : s.store.revokeCredential id reason with
  | error e =>
    rw [hp] at hf
    cases hf
  | ok st =>
    rw [hp] at hf
    cases hf
    obtain ⟨hkeys, -, -⟩ := revokeCredential_ok hp
    refine beside_store fun id' k hk _ => Or.inr ?_
    simpa only [MemoryStore.live, hkeys] using hk

theorem within_read {α : Type} (f : GovState → α) :
    (Prog.read f : Gov α).Within Beside (fun _ => True) := Prog.within_read Beside.refl fun _ => trivial

theorem within_holdingRefreshLock {α : Type} {p : Gov α} {Q : α → Prop} (hp : p.Within Beside Q) :
    (holdingRefreshLock p).Within Beside Q := by
  unfold holdingRefreshLock
  refine Within.bind (within_modify Beside.refl) fun _ _ => ?_
  refine Within.bind hp.result fun r hr => ?_
  exact Within.bind (within_modify Beside.refl) fun _ _ => hr

theorem within_refresh : refresh.Within Beside (fun _ => True) := by
  unfold refresh
  refine within_holdingRefreshLock (Within.bind (within_read _) fun rows _ => ?_)
  exact Within.bind (within_read _) fun creds _ => within_modify Beside.refl

theorem within_evict (id : String) : (evictKeyFromCaches id).Within Beside (fun _ => True) :=
  within_modify Beside.refl

theorem within_deleteKey (id : String) : (deleteKey id).Within Beside (fun _ => True) := by
  unfold deleteKey
  refine Within.bind (within_storeDeleteKey id) fun _ _ => ?_
  refine Within.bind (within_evict id) fun _ _ => ?_
  refine Within.bind within_refresh.result fun refreshed _ => ?_
  refine Within.bind (within_modify Beside.refl) fun _ _ => ?_
  cases refreshed with
  | ok _ => exact within_pure trivial
  | error e => exact within_throw _

theorem within_revokeCredentials (reason : String) (creds : List CredentialMeta) :
    (revokeCredentials reason creds).Within Beside (fun _ => True) := by
  induction creds with
  | nil => exact within_pure trivial
  | cons c creds ih =>
    unfold revokeCredentials
    split
    · refine Within.bind (within_storeRevokeCredential _ _) fun _ _ => ?_
      exact Within.bind ih fun _ _ => within_pure trivial
    · exact ih

theorem within_revoke (id reason gen : String) : (revoke id reason gen).Within Beside (fun _ => True) := by
  unfold revoke
  refine within_holdingRefreshLock (Within.bind (within_read _) fun creds _ => ?_)
  refine Within.bind (within_revokeCredentials reason creds) fun pairs _ => ?_
  refine Within.bind (within_modify fun s => ?_) fun _ _ => ?_
  · exact beside_store fun id' k hk _ => Or.inr hk
  refine Within.bind (within_read _) fun row _ => ?_
  have hpatch : ∀ (s : GovState) (v : GovCaches),
      Beside s { s with denylist := insert id s.denylist, caches := v } :=
    fun s v => ⟨fun _ _ hk _ => Or.inr hk, Finset.subset_insert _ _⟩
  cases row with
  | none => exact Within.bind (within_pure trivial) fun newKey (_ : True) => within_modify fun s => hpatch s _
  | some key =>
    dsimp only
    split
    · rename_i hd
      have hd : key.deletedAt = none := by simpa using hd
      -- the row it writes is disabled
      refine Within.bind (within_storePutKey hd fun h => by cases h) fun _ _ => ?_
      exact within_modify fun s => hpatch s _
    · exact Within.bind (within_pure trivial) fun newKey (_ : True) => within_modify fun s => hpatch s _

/-! ## The self-serve plane -/

theorem isSelfGroup_selfGroup (u : String) : isSelfGroup (selfGroup u) = true := by
  rw [isSelfGroup, selfGroup, stripPrefix_append]
  rfl

variable (cr : TokenCrypto)

theorem within_probeEpochs (seed : Bytes) (u : String) (start probes stride : Nat) :
    (probeEpochs cr seed u start probes stride).Within Beside (fun _ => True) := by
  induction probes generalizing stride with
  | zero => exact within_pure trivial
  | succ probes ih =>
    unfold probeEpochs
    refine Within.bind (within_read _) fun row _ => ?_
    split
    · exact ih _
    · exact within_pure trivial

theorem within_writeSelfBinding (signer : TokenSigner) (u : String) (pools : Option (List String))
    (epoch exp now : Nat) : (writeSelfBinding cr signer u pools epoch exp now).Within Beside (fun _ => True) := by
  unfold writeSelfBinding firstFreeSelfEpoch
  refine Within.bind (Q := fun _ => True) ?_ fun r _ => ?_
  · refine Within.bind (within_probeEpochs cr _ _ _ _ _) fun found _ => ?_
    cases found with
    | some r => exact within_pure trivial
    | none => exact within_throw _
  · obtain ⟨id, epoch⟩ := r
    refine Within.bind (within_storePutKey rfl fun _ => ⟨_, rfl, isSelfGroup_selfGroup u⟩) fun _ _ => ?_
    exact Within.bind within_refresh fun _ _ => within_pure trivial

theorem within_issueSelf (u : String) (pools : Option (List String)) (exp now probe : Nat) :
    (issueSelf cr u pools exp now probe).Within Beside (fun _ => True) := by
  unfold issueSelf
  refine Within.bind (within_read _) fun material _ => ?_
  cases material with
  | none => exact within_throw _
  | some signer =>
    refine Within.bind (Q := fun found => ∀ k : VirtualKey, found = some k → k.deletedAt = none ∧
      k.group = some (selfGroup u)) ?_ fun found hfound => ?_
    · refine Prog.within_read Beside.refl fun s k hk => ?_
      obtain ⟨-, -, hd, hg⟩ := findSelfBinding_some hk
      exact ⟨hd, hg⟩
    · cases found with
      | none => exact within_writeSelfBinding cr signer u pools 0 exp now
      | some k =>
        obtain ⟨hd, hg⟩ := hfound k rfl
        dsimp only
        split
        · -- the row goes back in the user's own group
          refine Within.bind (within_storePutKey hd fun _ => ⟨_, hg, isSelfGroup_selfGroup u⟩) fun _ _ => ?_
          exact Within.bind within_refresh fun _ _ => within_pure trivial
        · exact within_pure trivial

theorem within_refreshSelf (u : String) (pools : Option (List String)) (exp now probe : Nat) :
    (refreshSelf cr u pools exp now probe).Within Beside (fun _ => True) := by
  unfold refreshSelf
  refine Within.bind (within_read _) fun material _ => ?_
  cases material with
  | none => exact within_throw _
  | some signer =>
    refine Within.bind (within_read _) fun found _ => ?_
    refine Within.bind (within_writeSelfBinding cr signer u pools _ exp now) fun out _ => ?_
    cases found with
    | none => exact within_pure trivial
    | some old =>
      dsimp only
      split
      · exact within_pure trivial
      · refine Within.bind (within_storeDeleteKey old.id).result fun deleted _ => ?_
        cases deleted with
        | error e =>
          refine Within.bind (within_deleteKey out.1.id).result fun rolledBack _ => ?_
          cases rolledBack with
          | ok _ => exact within_throw _
          | error e' => exact within_throw _
        | ok _ =>
          refine Within.bind within_refresh.result fun refreshed _ => ?_
          cases refreshed with
          | ok _ => exact within_pure trivial
          | error e => exact Within.bind (within_evict old.id) fun _ _ => within_throw _

/-! ## The sections behind the gate -/

variable {R : GovState → GovState → Prop}

/-- A section's tail that writes no row keeps the ceiling. -/
theorem safe_of_within {α : Type} {Q : α → Prop} {p : Gov α} (hp : p.Within Beside Q) (s : GovState) :
    p.Safe (Capped cap) R (fun _ _ => True) s :=
  hp.safe (fun _ _ hE hs => hE.capped hs) s

theorem safe_reload {α : Type} (a : α) (s : GovState) :
    (refresh >>= fun _ => pure a).Safe (Capped cap) R (fun _ _ => True) s :=
  safe_of_within (Within.bind (R := fun _ => True) within_refresh fun _ _ => within_pure trivial) s

theorem safe_storePutKey {α : Type} {key : VirtualKey} {f : Unit → Gov α} (hd : key.deletedAt = none)
    (hroom : ∀ s', R s s' → Capped cap s' → key.enabled = true → key.id ∉ s'.denylist → Counted key.group →
      (insert key.id (liveKeys s' key.group)).card ≤ cap)
    (hnext : ∀ t, (f ()).Safe (Capped cap) R (fun _ _ => True) t) :
    (storePutKey key >>= f).Safe (Capped cap) R (fun _ _ => True) s := by
  refine safe_attempt fun s' hR hs a t hf => ?_
  cases hp : s'.store.putKey key with
  | error e =>
    rw [hp] at hf
    cases hf
  | ok st =>
    rw [hp] at hf
    cases hf
    exact ⟨hs.put hp hd (hroom s' hR hs), hnext⟩

theorem safe_storePutKeyWithCredential {α : Type} {key : VirtualKey} {secret : CredentialSecret} {f : Unit → Gov α}
    (hd : key.deletedAt = none)
    (hroom : ∀ s', R s s' → Capped cap s' → key.enabled = true → key.id ∉ s'.denylist → Counted key.group →
      (insert key.id (liveKeys s' key.group)).card ≤ cap)
    (hnext : ∀ t, (f ()).Safe (Capped cap) R (fun _ _ => True) t) :
    (storePutKeyWithCredential key secret >>= f).Safe (Capped cap) R (fun _ _ => True) s := by
  refine safe_attempt fun s' hR hs a t hf => ?_
  cases hp : s'.store.putKey key with
  | error e =>
    rw [hp] at hf
    cases hf
  | ok st =>
    cases hc : st.putCredential secret with
    | error e =>
      rw [hp] at hf
      simp only [Bind.bind, Except.bind, hc] at hf
      cases hf
    | ok st' =>
      rw [hp] at hf
      simp only [Bind.bind, Except.bind, hc] at hf
      cases hf
      -- the credential's row is not among the keys
      have hput := hs.put hp hd (hroom s' hR hs)
      exact ⟨hput.congr (MemoryStore.putCredential_keys hc) rfl, hnext⟩

/-- The rows the check counts, listed earlier, include the bucket's live keys but for the excluded one. -/
theorem card_le_count {group excludeId : Option String} (h : Beside s s') (hb : Counted group) :
    ((liveKeys s' group).filter (fun id => some id ≠ excludeId)).card
      ≤ (s.store.listKeys.filter (countsFor s' group excludeId)).length := by
  have hsub : (liveKeys s' group).filter (fun id => some id ≠ excludeId)
      ⊆ ((s.store.listKeys.filter (countsFor s' group excludeId)).map VirtualKey.id).toFinset := by
    intro id hid
    obtain ⟨hlive, hne⟩ := Finset.mem_filter.1 hid
    obtain ⟨-, -, -, -, hr⟩ := mem_liveKeys.1 hlive
    obtain ⟨k, hk, hg, hen, -⟩ := mem_liveKeys.1 (h.liveKeys hb hlive)
    obtain ⟨hget, -⟩ := MemoryStore.live_eq_some.1 hk
    obtain ⟨hm, rfl⟩ := Registry.get_eq_some.1 hget
    subst hg
    refine List.mem_toFinset.2 (List.mem_map.2 ⟨k, List.mem_filter.2 ⟨MemoryStore.mem_listKeys.2 hm, ?_⟩, rfl⟩)
    have hself : (k.group.map (fun g => !isSelfGroup g)).getD true = true := by
      cases hgroup : k.group with
      | none => rfl
      | some g =>
        simp [hb g hgroup]
    have hcounts : some k.id ≠ excludeId := by simpa using hne
    simp [countsFor, hen, hcounts, isRevoked, hr, hself]
  calc ((liveKeys s' group).filter (fun id => some id ≠ excludeId)).card
      ≤ ((s.store.listKeys.filter (countsFor s' group excludeId)).map VirtualKey.id).toFinset.card :=
        Finset.card_le_card hsub
    _ ≤ ((s.store.listKeys.filter (countsFor s' group excludeId)).map VirtualKey.id).length :=
        List.toFinset_card_le _
    _ = (s.store.listKeys.filter (countsFor s' group excludeId)).length := List.length_map _

/-- The check: what follows a pass has room in the bucket. -/
theorem safe_checkKeyCap {α : Type} {group excludeId : Option String} {f : Option (String × Nat) → Gov α}
    (hcap : cap ≠ 0) (hR : ∀ s s', R s s' → Beside s s') (htrans : ∀ {a b c}, R a b → R b c → R a c)
    (hfull : ∀ r s, (f (some r)).Safe (Capped cap) R (fun _ _ => True) s)
    (hroom : ∀ s', R s s' → Capped cap s' →
      (Counted group → ((liveKeys s' group).filter (fun id => some id ≠ excludeId)).card < cap) →
      (f none).Safe (Capped cap) R (fun _ _ => True) s') :
    (checkKeyCap cap group excludeId >>= f).Safe (Capped cap) R (fun _ _ => True) s := by
  unfold checkKeyCap
  rw [if_neg hcap]
  refine safe_read fun s₁ h₁ _ => safe_read fun s₂ h₂ hs => ?_
  by_cases hle : cap ≤ (s₁.store.listKeys.filter (countsFor s₂ group excludeId)).length
  · rw [if_pos hle]
    exact hfull _ s₂
  · rw [if_neg hle]
    refine hroom s₂ (htrans h₁ h₂) hs fun hb => ?_
    have hcount : ((liveKeys s₂ group).filter (fun id => some id ≠ excludeId)).card
        ≤ (s₁.store.listKeys.filter (countsFor s₂ group excludeId)).length := card_le_count (hR _ _ h₂) hb
    omega

theorem card_insert_of_lt {F G : Finset String} {id : String} (hsub : F ⊆ G) (h : G.card < cap) :
    (insert id F).card ≤ cap := by
  have hinsert := Finset.card_insert_le id F
  have hle := Finset.card_le_card hsub
  omega

/-- A mint's writes come after a count that found room. -/
theorem safe_mintSection (hcap : cap ≠ 0) (spec : NewKeySpec) (exp now : Nat) (issueAws : Bool)
    (draws : MintDraws) (s : GovState) :
    (mintSection cr cap spec exp now issueAws draws).Safe (Capped cap) Beside (fun _ _ => True) s := by
  refine safe_checkKeyCap hcap (fun _ _ h => h) Beside.trans (fun r s => ?_) fun s' _ _ hroom => ?_
  · obtain ⟨group, n⟩ := r
    exact fun _ _ _ => trivial
  have hfit : ∀ (id : String) (t : GovState), Beside s' t → Counted spec.group →
      (insert id (liveKeys t spec.group)).card ≤ cap := by
    intro id t ht hb
    have hall : (liveKeys s' spec.group).filter (fun id => some id ≠ none) = liveKeys s' spec.group :=
      Finset.filter_true_of_mem fun _ _ => by simp
    have hlt := hroom hb
    rw [hall] at hlt
    exact card_insert_of_lt (ht.liveKeys hb) hlt
  cases issueAws with
  | false =>
    refine Safe.followed (p := mintSigned cr spec exp now draws.raw draws.generation) ?_
      fun _ _ => fun _ _ _ => trivial
    refine safe_read fun s₁ h₁ _ => ?_
    cases s₁.signing with
    | none => exact fun _ _ _ => trivial
    | some signer =>
      refine safe_storePutKey rfl (fun t ht _ _ _ hb => hfit _ t (h₁.trans ht) hb) fun t => ?_
      exact safe_reload _ t
  | true =>
    refine Safe.followed (p := mintSignedWithAws cr spec exp now draws.raw draws.generation draws.accessKeyId
      draws.secretAccessKey draws.credRaw) ?_ fun _ _ => fun _ _ _ => trivial
    refine safe_read fun s₁ h₁ _ => ?_
    cases s₁.signing with
    | none => exact fun _ _ _ => trivial
    | some signer =>
      refine safe_storePutKeyWithCredential rfl (fun t ht _ _ _ hb => hfit _ t (h₁.trans ht) hb) fun t => ?_
      exact safe_reload _ t

/-- A rotation writes back a row that it has read live. -/
theorem safe_rotateSection (id : String) (exp : Nat) (gen : String) (s : GovState) :
    (rotateSection cr id exp gen).Safe (Capped cap) Beside (fun _ _ => True) s := by
  refine Safe.followed (p := rotateKey cr id exp gen) ?_ fun r s => ?_
  swap
  · cases r with
    | none => exact fun _ _ _ => trivial
    | some r => exact safe_read fun _ _ _ => fun _ _ _ => trivial
  refine safe_read fun s₁ _ hs₁ => ?_
  cases hk : s₁.store.getKey id with
  | none => exact fun _ _ _ => trivial
  | some key =>
    dsimp only
    split
    · exact fun _ _ _ => trivial
    · rename_i hd
      have hd : key.deletedAt = none := by simpa using hd
      have hlive : s₁.store.live id = some key := MemoryStore.live_eq_some.2 ⟨hk, hd⟩
      refine safe_read fun s₂ h₂ _ => ?_
      cases s₂.signing with
      | none => exact fun _ _ _ => trivial
      | some signer =>
        refine safe_storePutKey hd (fun t ht _ hen hr hb => ?_) fun t => ?_
        · -- the id was among the bucket's live keys at the read
          have ht₁ : Beside s₁ t := h₂.trans ht
          have hmem : key.id ∈ liveKeys s₁ key.group :=
            mem_liveKeys.2 ⟨key, (MemoryStore.live_id hlive).symm ▸ hlive, rfl, hen, fun hin => hr (ht₁.2 hin)⟩
          have hsub := Finset.insert_subset hmem (ht₁.liveKeys hb)
          exact (Finset.card_le_card hsub).trans (hs₁ _ hb)
        · refine safe_of_within (Within.bind (R := fun _ => True) within_refresh.result fun refreshed _ => ?_) t
          cases refreshed with
          | ok _ => exact within_pure trivial
          | error e => exact Within.bind (within_evict id) fun _ _ => within_throw _

/-- The bucket an update puts the row's key in has room for it. -/
def RoomFor (cap : Nat) (id : String) (enabled : Option Bool) (group : Option (Option String))
    (s : GovState) : Prop :=
  ∀ key, s.store.live id = some key → enabled.getD key.enabled = true → id ∉ s.denylist →
    Counted (group.getD key.group) → (insert id (liveKeys s (group.getD key.group))).card ≤ cap

theorem RoomFor.spared {id : String} {enabled : Option Bool} {group : Option (Option String)}
    (h : RoomFor cap id enabled group s) (hs : Spares id s s') : RoomFor cap id enabled group s' := by
  intro key hk hen hr hb
  have hroom := h key (hs.2 ▸ hk) hen (fun hin => hr (hs.1.2 hin)) hb
  exact (Finset.card_le_card (Finset.insert_subset_insert _ (hs.1.liveKeys hb))).trans hroom

theorem safe_applyUpdate {id : String} {enabled : Option Bool} {group : Option (Option String)}
    (h : RoomFor cap id enabled group s) :
    (applyUpdate id enabled group).Safe (Capped cap) (Spares id) (fun _ _ => True) s := by
  refine Safe.followed (p := updateKey id enabled group) ?_ fun r s => ?_
  swap
  · cases r with
    | none => exact fun _ _ _ => trivial
    | some key => exact safe_read fun _ _ _ => fun _ _ _ => trivial
  refine safe_read fun s₁ h₁ _ => ?_
  cases hk : s₁.store.getKey id with
  | none => exact fun _ _ _ => trivial
  | some key =>
    dsimp only
    split
    · exact fun _ _ _ => trivial
    · rename_i hd
      have hd : key.deletedAt = none := by simpa using hd
      have hlive : s₁.store.live id = some key := MemoryStore.live_eq_some.2 ⟨hk, hd⟩
      have hid : key.id = id := MemoryStore.live_id hlive
      refine safe_storePutKey hd (fun t ht _ hen hr hb => ?_) fun t => safe_reload _ t
      dsimp only at hen hr hb ⊢
      rw [hid] at hr ⊢
      exact (h.spared (h₁.trans ht)) key (ht.2.trans hlive) hen hr hb

/-- An update writes what it has counted, or the key it has found in its bucket. -/
theorem safe_updateSection (etag : VirtualKey → String) (hcap : cap ≠ 0) (ifMatch : Option String) (id : String)
    (enabled : Option Bool) (group : Option (Option String)) (s : GovState) :
    (updateSection etag cap ifMatch id enabled group).Safe (Capped cap) (Spares id) (fun _ _ => True) s := by
  refine safe_read fun s₁ _ hs₁ => ?_
  cases hk : s₁.store.getKey id with
  | none => exact fun _ _ _ => trivial
  | some before =>
    have hid : before.id = id := Registry.key_of_get hk
    have hrow : ∀ t key, Spares id s₁ t → t.store.live id = some key → key = before := by
      intro t key ht hlive
      have hget := (MemoryStore.live_eq_some.1 (ht.2.symm.trans hlive)).1
      exact Option.some.inj (hget.symm.trans hk)
    dsimp only
    split
    · exact fun _ _ _ => trivial
    refine safe_read fun s₂ h₂ hs₂ => ?_
    split
    · -- an admission: the count leaves the mover out
      refine safe_checkKeyCap hcap (fun _ _ h => h.1) Spares.trans (fun r s => ?_) fun s₃ h₃ _ hroom => ?_
      · obtain ⟨g, n⟩ := r
        exact fun _ _ _ => trivial
      · refine safe_applyUpdate fun key hlive _ _ hb => ?_
        cases hrow s₃ key (h₂.trans h₃) hlive
        have hsub : insert id (liveKeys s₃ (group.getD before.group))
            ⊆ insert id ((liveKeys s₃ (group.getD before.group)).filter (fun i => some i ≠ some id)) := by
          intro i hi
          rcases Finset.mem_insert.1 hi with rfl | hi
          · exact Finset.mem_insert_self _ _
          · by_cases he : i = id
            · exact Finset.mem_insert.2 (Or.inl he)
            · exact Finset.mem_insert_of_mem (Finset.mem_filter.2 ⟨hi, by simpa using he⟩)
        exact (Finset.card_le_card hsub).trans (card_insert_of_lt (Finset.Subset.refl _) (hroom hb))
    · rename_i hsame
      refine safe_applyUpdate fun key hlive hen hr hb => ?_
      cases hrow s₂ key h₂ hlive
      -- live afterwards and not asked: the key was live in this very bucket
      have hrevoked : s₂.isRevoked before.id = false := by simpa [isRevoked, hid] using hr
      simp only [hrevoked, Bool.not_false, Bool.and_true, hen, Bool.true_and, Bool.or_eq_true, Bool.not_eq_true',
        bne_iff_ne, not_or, Bool.not_eq_false, not_not] at hsame
      obtain ⟨hwas, hdest⟩ := hsame
      rw [hdest] at hb ⊢
      have hmem : id ∈ liveKeys s₂ before.group := mem_liveKeys.2 ⟨before, hlive, rfl, hwas, hr⟩
      rw [Finset.insert_eq_of_mem hmem]
      exact hs₂ _ hb

theorem within_revokeSection (id gen : String) : (revokeSection id gen).Within Beside (fun _ => True) := by
  refine Within.bind (within_read _) fun row _ => ?_
  split
  · exact Within.bind (within_revoke _ _ _) fun _ _ => within_pure trivial
  · exact within_pure trivial

theorem within_deleteSection (etag : VirtualKey → String) (ifMatch : Option String) (id gen : String) :
    (deleteSection etag ifMatch id gen).Within Beside (fun _ => True) := by
  refine Within.bind (within_read _) fun row _ => ?_
  cases row with
  | none => exact within_pure trivial
  | some k =>
    dsimp only
    split
    · exact within_pure trivial
    · split
      · exact within_pure trivial
      · refine Within.bind (within_revoke _ _ _) fun _ _ => ?_
        exact Within.bind (within_deleteKey _) fun _ _ => within_pure trivial

/-! ## Runs -/

/-- What a section relies on of the calls beside the gate. -/
def relies (op : AdminCall) (s s' : GovState) : Prop :=
  Beside s s' ∧ ∀ id, op.edits = some id → s'.store.live id = s.store.live id

/-- The event is an access of a call beside the gate. -/
def lone (sys : Sys GovState StoreError AdminCall) : Event AdminCall → Bool
  | .call _ => false
  | .advance i => sys.calls[i]?.any (fun d => !d.op.gated)

/-- No access beside the gate changes the row of an update under way. -/
def Undisturbed (etag : VirtualKey → String) (cap : Nat) (sys : Sys GovState StoreError AdminCall)
    (e : Event AdminCall) : Prop :=
  lone sys e = true → ∀ c ∈ sys.calls, c.prog.ended = false → ∀ id ∈ c.op.edits,
    (Gate.step refreshLock (AdminCall.plan cr etag cap) true sys e).shared.store.live id = sys.shared.store.live id

instance (etag : VirtualKey → String) (sys : Sys GovState StoreError AdminCall) (e : Event AdminCall) :
    Decidable (Undisturbed cr etag cap sys e) := by
  unfold Undisturbed
  infer_instance

theorem reliant (etag : VirtualKey → String) (hcap : cap ≠ 0) :
    Reliant (AdminCall.plan cr etag cap) (Capped cap) Beside relies where
  refl op s := ⟨Beside.refl s, fun _ _ => rfl⟩
  trans op _ _ _ h h' := ⟨h.1.trans h'.1, fun id hid => (h'.2 id hid).trans (h.2 id hid)⟩
  gated op hg s hs := by
    have hend : ∀ {α : Type} {R : GovState → GovState → Prop} {p : Gov α},
        p.Safe (Capped cap) R (fun _ _ => True) s → (∀ s s', relies op s s' → R s s') →
          (AdminCall.ignoring p).Safe (Capped cap) (relies op) (fun _ _ => True) s :=
      fun hp hR => (hp.relying hR).followed fun _ _ => fun _ _ _ => trivial
    cases op with
    | createKey spec exp now issueAws draws =>
      exact hend (safe_mintSection cr hcap spec exp now issueAws draws s) fun _ _ h => h.1
    | updateKey tag id enabled group =>
      exact hend (safe_updateSection etag hcap tag id enabled group s) fun _ _ h => ⟨h.1, h.2 id rfl⟩
    | rotateKey id exp gen => exact hend (safe_rotateSection cr id exp gen s) fun _ _ h => h.1
    | revokeKey id gen => exact hend (safe_of_within (within_revokeSection id gen) s) fun _ _ h => h
    | deleteKey tag id gen => exact hend (safe_of_within (within_deleteSection etag tag id gen) s) fun _ _ h => h
    | issueSelf | refreshSelf | refresh | syncDenylist | tick => cases hg
  lone op hg := by
    cases op with
    | issueSelf u pools exp now probe =>
      exact Within.bind (within_issueSelf cr u pools exp now probe) fun _ _ => within_pure trivial
    | refreshSelf u pools exp now probe =>
      exact Within.bind (within_refreshSelf cr u pools exp now probe) fun _ _ => within_pure trivial
    | refresh => exact within_refresh
    | syncDenylist => exact within_modify fun s => ⟨fun _ _ hk _ => Or.inr hk, Finset.subset_union_left⟩
    | tick clock => exact within_modify fun s => ⟨fun _ _ hk _ => Or.inr hk, Finset.Subset.refl _⟩
    | createKey | updateKey | rotateKey | revokeKey | deleteKey => cases hg
  keeps s s' hE hs := hE.capped hs

theorem relied_of_undisturbed {etag : VirtualKey → String} {sys : Sys GovState StoreError AdminCall}
    {e : Event AdminCall} (h : Undisturbed cr etag cap sys e) :
    Relied refreshLock (AdminCall.plan cr etag cap) Beside relies sys e := by
  intro i c d he hd hlone hc _ hunder hE
  have hlone : lone sys e = true := by
    have hd' : d.op.gated = false := hlone
    simp [he, lone, hd, hd']
  exact ⟨hE, fun id hid => h hlone c hc hunder id hid⟩

theorem new_capped (signer : Option TokenSigner) : Capped cap (newWithSigner MemoryStore.new signer) := by
  intro b _
  have hempty : liveKeys (newWithSigner MemoryStore.new signer) b = ∅ := rfl
  rw [hempty]
  exact Nat.zero_le _

/-- **The ceiling holds in every counted bucket,** whatever mints, updates, rotations, revocations and deletions
run behind the gate and whatever the self-serve plane does beside it, as long as none of that changes the row of
an update under way. -/
theorem key_cap_holds (etag : VirtualKey → String) (hcap : cap ≠ 0) (signer : Option TokenSigner)
    {events : List (Event AdminCall)}
    (hrun : Run.Along (fun pre e => Undisturbed cr etag cap
      (Gate.after refreshLock (AdminCall.plan cr etag cap) true (newWithSigner MemoryStore.new signer) pre) e) events)
    {bucket : Option String} (hb : Counted bucket) :
    (liveKeys (Gate.after refreshLock (AdminCall.plan cr etag cap) true (newWithSigner MemoryStore.new signer)
      events).shared bucket).card ≤ cap := by
  have hcapped := reliant_run (reliant cr etag hcap) (new_capped signer)
    fun pre e post he => relied_of_undisturbed cr (hrun pre e post he)
  exact hcapped bucket hb

namespace Crowd

def team : NewKeySpec where
  name := "n"
  allowedPools := none
  group := some "team"
  labels := []

def draws (n : Nat) : MintDraws := ⟨[UInt8.ofNat n], "g", "akid", "sak", []⟩

def first : String := vkIdPrefix ++ hexEncode [0]

/-- A call and its accesses, one after the other. -/
def whole (op : AdminCall) (i : Nat) : List (Event AdminCall) := .call op :: List.replicate 16 (.advance i)

/-- Disable the first key, mint a second, and ask for the first again while a self-serve user logs in. -/
def events : List (Event AdminCall) :=
  whole (.createKey team 100 0 false (draws 0)) 0 ++ whole (.createKey team 100 0 false (draws 1)) 1
    ++ whole (.updateKey none first (some false) none) 2 ++ whole (.createKey team 100 0 false (draws 2)) 3
    ++ [.call (.updateKey none first (some true) none), .advance 4, .advance 4]
    ++ whole (.issueSelf "u" none 100 0 0) 5 ++ List.replicate 16 (.advance 4)

/-- Two mints into a group of the self-serve prefix. -/
def selfEvents : List (Event AdminCall) :=
  whole (.createKey { team with group := some "user:a" } 100 0 false (draws 0)) 0
    ++ whole (.createKey { team with group := some "user:a" } 100 0 false (draws 1)) 1

end Crowd

/-- **The buckets of self-serve groups have no ceiling:** the count leaves their keys out. -/
theorem self_buckets_uncapped : ¬ ∀ (cr : TokenCrypto) (etag : VirtualKey → String) (cap : Nat), cap ≠ 0 →
    ∀ (signer : Option TokenSigner) (events : List (Event AdminCall)) (bucket : Option String),
      (liveKeys (Gate.after refreshLock (AdminCall.plan cr etag cap) true
        (newWithSigner MemoryStore.new signer) events).shared bucket).card ≤ cap := by
  intro h
  have hle := h plainCrypto VirtualKey.generationHash 1 (by decide) (some ⟨[7], "k1"⟩) Crowd.selfEvents
    (some "user:a")
  have htwo : (liveKeys (Gate.after refreshLock (AdminCall.plan plainCrypto VirtualKey.generationHash 1) true
      (newWithSigner MemoryStore.new (some ⟨[7], "k1"⟩)) Crowd.selfEvents).shared (some "user:a")).card = 2 := by
    decide +kernel
  rw [htwo] at hle
  exact absurd hle (by decide)

/-- The bucket is full, and the disabled key stays out. -/
theorem key_cap_holds_crowded :
    (liveKeys (Gate.after refreshLock (AdminCall.plan plainCrypto VirtualKey.generationHash 1) true
      (newWithSigner MemoryStore.new (some ⟨[7], "k1"⟩)) Crowd.events).shared (some "team")).card = 1 ∧
    (liveKeys (Gate.after refreshLock (AdminCall.plan plainCrypto VirtualKey.generationHash 1) true
      (newWithSigner MemoryStore.new (some ⟨[7], "k1"⟩)) Crowd.events).shared (some "team")).card ≤ 1 :=
  ⟨by decide +kernel, key_cap_holds plainCrypto VirtualKey.generationHash (by decide) (some ⟨[7], "k1"⟩)
    (Run.Along.of_checks _ (by decide +kernel)) fun g hg => by
      cases hg
      decide +kernel⟩

end Busbar.GovState
