import Busbar.Governance.State
import Busbar.Lib.Run

/-!
# What each key operation does

The operations run one after the other. Each has one specification lemma, stated on the live rows of the
store (`MemoryStore.live`); later modules never unfold a program.

* `Coherent`: the key cache answers as the live rows of the store do, revisions aside.
* `step_coherent`: every operation keeps the caches coherent.
* `step_live`: where a live row after an operation comes from (`LiveFrom`).
* `step_denylist`: the denylist only grows.
-/

namespace Busbar.GovState

variable (cr : TokenCrypto)

open Prog

/-- An operation with its inputs: the caller's arguments, the clock, the random draws, the start of a
cache iteration. `syncDenylist` is the scheduled re-read of the store's denylist, `reload` the cache reload
after any other mutation, and `tick` the wall clock moving. -/
inductive Op where
  | issueSelf (userSub : String) (allowedPools : Option (List String)) (exp now probe : Nat)
  | refreshSelf (userSub : String) (allowedPools : Option (List String)) (exp now probe : Nat)
  | rotateKey (id : String) (exp : Nat) (generation : String)
  | updateKey (id : String) (enabled : Option Bool) (group : Option (Option String))
  | revoke (sub reason generation : String)
  | deleteKey (id : String)
  | mintSigned (spec : NewKeySpec) (exp now : Nat) (raw : Bytes) (generation : String)
  | setSigningKey (signer : Option TokenSigner)
  | syncDenylist
  | reload
  | tick (clock : Nat)

def step (s : GovState) : Op → GovState
  | .issueSelf u pools exp now probe => (issueSelf cr u pools exp now probe).exec s
  | .refreshSelf u pools exp now probe => (refreshSelf cr u pools exp now probe).exec s
  | .rotateKey id exp gen => (rotateKey cr id exp gen).exec s
  | .updateKey id enabled group => (updateKey id enabled group).exec s
  | .revoke sub reason gen => (revoke sub reason gen).exec s
  | .deleteKey id => (deleteKey id).exec s
  | .mintSigned spec exp now raw gen => (mintSigned cr spec exp now raw gen).exec s
  | .setSigningKey signer => { s with signing := signer }
  | .syncDenylist => { s with denylist := s.denylist ∪ s.store.denylist }
  | .reload => refresh.exec s
  | .tick clock => { s with store := { s.store with clock := clock } }

/-- The live row of the store under an id. -/
abbrev live (s : GovState) (id : String) : Option VirtualKey := s.store.live id

/-- A row up to its revision stamp. -/
def unstamped (k : VirtualKey) : VirtualKey := { k with revision := 0 }

/-- The key cache answers as the store's live rows do. -/
def Coherent (s : GovState) : Prop :=
  ∀ id, (s.caches.byId.get id).map unstamped = (s.live id).map unstamped

theorem unstamped_idem (k : VirtualKey) : unstamped (unstamped k) = unstamped k := rfl

theorem Coherent.cached {s : GovState} (h : Coherent s) {id : String} {k : VirtualKey}
    (hk : s.caches.byId.get id = some k) : ∃ k', s.live id = some k' ∧ unstamped k' = unstamped k := by
  have := h id
  rw [hk, Option.map_some, eq_comm, Option.map_eq_some_iff] at this
  exact this

theorem Coherent.stored {s : GovState} (h : Coherent s) {id : String} {k : VirtualKey}
    (hk : s.live id = some k) : ∃ k', s.caches.byId.get id = some k' ∧ unstamped k' = unstamped k := by
  have := h id
  rw [hk, Option.map_some, Option.map_eq_some_iff] at this
  exact this

/-- What rows equal up to their stamp agree on. -/
theorem unstamped_eq {k k' : VirtualKey} (h : unstamped k = unstamped k') :
    k.id = k'.id ∧ k.generationHash = k'.generationHash ∧ k.enabled = k'.enabled ∧ k.group = k'.group ∧
      k.expiresAt = k'.expiresAt ∧ k.deletedAt = k'.deletedAt ∧ k.allowedScopes = k'.allowedScopes := by
  simp only [unstamped, VirtualKey.mk.injEq] at h
  tauto

/-! ## Runs of the pieces -/

theorem get_load (s : MemoryStore) (id : String) : (load s.listKeys).get id = s.live id := by
  have hn : ((s.listKeys.filter (fun k => k.deletedAt.isNone)).map VirtualKey.id).Nodup :=
    s.nodup_listKeys.sublist (List.filter_sublist.map _)
  ext k
  rw [load, Registry.get_ofList hn, MemoryStore.live_eq_some, Registry.get_eq_some]
  constructor
  · intro h
    have hm := List.mem_of_find?_eq_some h
    have hi : k.id = id := by simpa using List.find?_some h
    rw [List.mem_filter, MemoryStore.mem_listKeys] at hm
    exact ⟨⟨hm.1, hi⟩, by simpa using hm.2⟩
  · rintro ⟨⟨hm, rfl⟩, hd⟩
    have hmem : k ∈ s.listKeys.filter (fun k => k.deletedAt.isNone) := by
      rw [List.mem_filter, MemoryStore.mem_listKeys]; exact ⟨hm, by simp [hd]⟩
    have hg : (Registry.ofList (s.listKeys.filter (fun k => k.deletedAt.isNone)) : Registry VirtualKey.id).get k.id
        = some k := Registry.get_of_mem ((Registry.mem_ofList hn).2 hmem)
    rwa [Registry.get_ofList hn] at hg

/-- A reload always succeeds and installs the store's live rows. -/
theorem run_refresh (s : GovState) :
    refresh.run s = (.ok (), { s with caches := ⟨load s.store.listKeys,
      loadByCredential (load s.store.listKeys) (s.store.listCredentialsSince 0) s.store.clock⟩ }) := rfl

theorem run_storePutKey {s : GovState} {key : VirtualKey} {st : MemoryStore} (h : s.store.putKey key = .ok st) :
    (storePutKey key).run s = (.ok (), { s with store := st }) := by
  simp [storePutKey, run_attempt, h, Except.map]

theorem run_storeDeleteKey_ok {s : GovState} {id : String} {st : MemoryStore}
    (h : s.store.deleteKey id = .ok st) : (storeDeleteKey id).run s = (.ok (), { s with store := st }) := by
  simp [storeDeleteKey, run_attempt, h, Except.map]

theorem run_storeDeleteKey_error {s : GovState} {id : String} {e : StoreError}
    (h : s.store.deleteKey id = .error e) : (storeDeleteKey id).run s = (.error e, s) := by
  simp [storeDeleteKey, run_attempt, h, Except.map]

/-- The state after a reload. -/
def reloaded (s : GovState) : GovState := { s with caches := ⟨load s.store.listKeys,
  loadByCredential (load s.store.listKeys) (s.store.listCredentialsSince 0) s.store.clock⟩ }

theorem reloaded_coherent (s : GovState) : Coherent (reloaded s) := by
  intro id; simp only [reloaded, get_load]

theorem reloaded_live (s : GovState) (id : String) : (reloaded s).live id = s.live id := rfl

/-! ## The probed epoch -/

/-- The epoch `probeEpochs` settles on, read off the store. -/
def freeEpoch (st : MemoryStore) (seed : Bytes) (userSub : String) (start : Nat) :
    Nat → Nat → Option (String × Nat)
  | 0, _ => none
  | probes + 1, stride =>
    let epoch := satAdd start stride
    let id := deriveSelfSubject cr seed userSub epoch
    if st.tombstoned id then freeEpoch st seed userSub start probes (if stride = 0 then 1 else satMul stride 2)
    else some (id, epoch)

theorem run_probeEpochs (seed : Bytes) (userSub : String) (start probes stride : Nat) (s : GovState) :
    (probeEpochs cr seed userSub start probes stride).run s
      = (.ok (freeEpoch cr s.store seed userSub start probes stride), s) := by
  induction probes generalizing stride with
  | zero => rfl
  | succ probes ih =>
    have hrow := s.store.any_getKey (deriveSelfSubject cr seed userSub (satAdd start stride))
    cases ht : s.store.tombstoned (deriveSelfSubject cr seed userSub (satAdd start stride)) with
    | true =>
      simp only [probeEpochs, run_bind, storeGetKey, run_read, freeEpoch, hrow, ht, if_true]
      exact ih _
    | false =>
      simp only [probeEpochs, run_bind, storeGetKey, run_read, freeEpoch, hrow, ht, Bool.false_eq_true,
        if_false, run_pure]

theorem freeEpoch_free {st : MemoryStore} {seed : Bytes} {userSub : String} {start probes stride : Nat}
    {id : String} {epoch : Nat} (h : freeEpoch cr st seed userSub start probes stride = some (id, epoch)) :
    st.tombstoned id = false ∧ id = deriveSelfSubject cr seed userSub epoch := by
  induction probes generalizing stride with
  | zero => cases h
  | succ probes ih =>
    simp only [freeEpoch] at h
    split at h
    · exact ih h
    · rename_i ht
      simp only [Option.some.injEq, Prod.mk.injEq] at h
      obtain ⟨rfl, rfl⟩ := h
      exact ⟨by simpa using ht, rfl⟩

/-- The id and epoch a self-serve operation is about to write, if it writes a binding at all. -/
def selfTarget (s : GovState) : Op → Option (String × Nat)
  | .issueSelf u _ _ _ probe =>
    match s.signing, findSelfBinding s.caches.byId u probe with
    | some signer, none => freeEpoch cr s.store signer.key u 0 maxProbes 0
    | _, _ => none
  | .refreshSelf u _ _ _ probe =>
    match s.signing with
    | some signer =>
      freeEpoch cr s.store signer.key u (nextEpoch (findSelfBinding s.caches.byId u probe)) maxProbes 0
    | none => none
  | _ => none

/-- `writeSelfBinding` writes at the free epoch and reloads, or fails without a trace. -/
theorem run_writeSelfBinding (signer : TokenSigner) (u : String) (pools : Option (List String))
    (start exp now : Nat) (s : GovState) :
    match freeEpoch cr s.store signer.key u start maxProbes 0 with
    | none => (writeSelfBinding cr signer u pools start exp now).run s = (.error (noFreeEpoch start), s)
    | some (id, epoch) => ∃ st, s.store.putKey (selfBinding u pools id epoch now) = .ok st ∧
        (writeSelfBinding cr signer u pools start exp now).run s
          = (.ok (selfBinding u pools id epoch now, signer.mint cr id exp (some (toString epoch))),
            reloaded { s with store := st }) := by
  cases hf : freeEpoch cr s.store signer.key u start maxProbes 0 with
  | none =>
    simp only [writeSelfBinding, firstFreeSelfEpoch, run_bind, run_probeEpochs, hf, run_throw]
  | some r =>
    obtain ⟨id, epoch⟩ := r
    obtain ⟨ht, -⟩ := freeEpoch_free cr hf
    obtain ⟨st, hst⟩ := MemoryStore.putKey_isOk (selfBinding u pools id epoch now) ht
    refine ⟨st, hst, ?_⟩
    simp only [writeSelfBinding, firstFreeSelfEpoch, run_bind, run_probeEpochs, hf, run_pure,
      run_storePutKey hst, run_refresh, reloaded]

/-! ## One specification for each operation -/

theorem live_none_cases {s : GovState} {id : String} (h : s.live id = none) :
    s.store.getKey id = none ∨ ∃ k, s.store.getKey id = some k ∧ k.deletedAt.isSome = true := by
  cases hg : s.store.getKey id with
  | none => exact Or.inl rfl
  | some k =>
    right
    refine ⟨k, rfl, ?_⟩
    by_contra hd
    have : s.live id = some k := MemoryStore.live_eq_some.2 ⟨hg, by simpa using hd⟩
    rw [h] at this; cases this

theorem live_some_cases {s : GovState} {id : String} {k : VirtualKey} (h : s.live id = some k) :
    s.store.getKey id = some k ∧ k.deletedAt.isSome = false ∧ k.deletedAt.isNone = true := by
  obtain ⟨hg, hd⟩ := MemoryStore.live_eq_some.1 h
  exact ⟨hg, by simp [hd], by simp [hd]⟩

theorem updateKey_spec (s : GovState) (id : String) (enabled : Option Bool) (group : Option (Option String)) :
    match s.live id with
    | none => (updateKey id enabled group).exec s = s
    | some k => ∃ st, s.store.putKey { k with enabled := enabled.getD k.enabled, group := group.getD k.group }
          = .ok st ∧ (updateKey id enabled group).exec s = reloaded { s with store := st } := by
  cases hl : s.live id with
  | none =>
    rcases live_none_cases hl with hg | ⟨k, hg, hd⟩
    · simp only [exec, updateKey, run_bind, storeGetKey, run_read, hg, run_pure]
    · simp only [exec, updateKey, run_bind, storeGetKey, run_read, hg, hd, if_true, run_pure]
  | some k =>
    obtain ⟨hg, hd, -⟩ := live_some_cases hl
    have hid := MemoryStore.live_id hl
    obtain ⟨st, hst⟩ := MemoryStore.putKey_isOk (s := s.store)
      { k with enabled := enabled.getD k.enabled, group := group.getD k.group }
      (by simpa [hid] using MemoryStore.not_tombstoned_of_live hl)
    refine ⟨st, hst, ?_⟩
    simp only [exec, updateKey, run_bind, storeGetKey, run_read, hg, hd, Bool.false_eq_true, if_false,
      run_storePutKey hst, run_refresh, run_pure, reloaded]

theorem rotateKey_spec (s : GovState) (id : String) (exp : Nat) (gen : String) :
    match s.live id, s.signing with
    | some k, some _ => ∃ st, s.store.putKey { k with generationHash := bindingMarker k.id gen } = .ok st ∧
        (rotateKey cr id exp gen).exec s = reloaded { s with store := st }
    | _, _ => (rotateKey cr id exp gen).exec s = s := by
  cases hl : s.live id with
  | none =>
    rcases live_none_cases hl with hg | ⟨k, hg, hd⟩
    · simp only [exec, rotateKey, run_bind, storeGetKey, run_read, hg, run_pure]
    · simp only [exec, rotateKey, run_bind, storeGetKey, run_read, hg, hd, if_true, run_pure]
  | some k =>
    obtain ⟨hg, hd, -⟩ := live_some_cases hl
    have hid := MemoryStore.live_id hl
    cases hs : s.signing with
    | none =>
      simp only [exec, rotateKey, run_bind, storeGetKey, run_read, hg, hd, Bool.false_eq_true, if_false,
        signingMaterial, hs, run_throw]
    | some signer =>
      obtain ⟨st, hst⟩ := MemoryStore.putKey_isOk (s := s.store)
        { k with generationHash := bindingMarker k.id gen }
        (by simpa [hid] using MemoryStore.not_tombstoned_of_live hl)
      refine ⟨st, hst, ?_⟩
      simp only [exec, rotateKey, run_bind, storeGetKey, run_read, hg, hd, Bool.false_eq_true, if_false,
        signingMaterial, hs, run_storePutKey hst, run_result, run_refresh, run_pure, reloaded]

theorem deleteKey_spec (s : GovState) (id : String) :
    match s.store.deleteKey id with
    | .error _ => (deleteKey id).exec s = s
    | .ok st => (deleteKey id).exec s
        = { reloaded { s with store := st } with budget := Registry.erase id s.budget } := by
  cases hd : s.store.deleteKey id with
  | error e => simp only [exec, deleteKey, run_bind, run_storeDeleteKey_error hd]
  | ok st =>
    simp only [exec, deleteKey, run_bind, run_storeDeleteKey_ok hd, evictKeyFromCaches, run_modify, run_result,
      run_refresh, run_pure, reloaded]

theorem mintSigned_spec (s : GovState) (spec : NewKeySpec) (exp now : Nat) (raw : Bytes) (gen : String) :
    (mintSigned cr spec exp now raw gen).exec s = s ∨
      ∃ key st, key.id = vkIdPrefix ++ hexEncode raw ∧ key.generationHash = bindingMarker key.id gen ∧
        key.enabled = true ∧ key.deletedAt = none ∧ s.store.putKey key = .ok st ∧
        (mintSigned cr spec exp now raw gen).exec s = reloaded { s with store := st } := by
  cases hs : s.signing with
  | none => left; simp only [exec, mintSigned, run_bind, signingMaterial, run_read, hs, run_throw]
  | some signer =>
    let key : VirtualKey :=
      { id := vkIdPrefix ++ hexEncode raw, generationHash := bindingMarker (vkIdPrefix ++ hexEncode raw) gen
        name := spec.name, allowedScopes := poolScopes spec.allowedPools, enabled := true, createdAt := now
        group := spec.group, labels := spec.labels, expiresAt := none, deletedAt := none, revision := 0 }
    cases hp : s.store.putKey key with
    | error e =>
      left
      have hrun : (storePutKey key).run s = (.error e, s) := by
        simp [storePutKey, run_attempt, hp, Except.map]
      simp only [key] at hrun
      simp only [exec, mintSigned, run_bind, signingMaterial, run_read, hs, hrun]
    | ok st =>
      right
      refine ⟨key, st, rfl, rfl, rfl, rfl, hp, ?_⟩
      have hrun := run_storePutKey hp
      simp only [key] at hrun
      simp only [exec, mintSigned, run_bind, signingMaterial, run_read, hs, hrun, run_refresh, run_pure,
        reloaded]

theorem issueSelf_spec (s : GovState) (u : String) (pools : Option (List String)) (exp now probe : Nat) :
    match s.signing, findSelfBinding s.caches.byId u probe with
    | none, _ => (issueSelf cr u pools exp now probe).run s = (.error mintingUnavailable, s)
    | some signer, none => (issueSelf cr u pools exp now probe).run s
        = (writeSelfBinding cr signer u pools 0 exp now).run s
    | some signer, some k =>
      let updated := { k with allowedScopes := poolScopes pools }
      let token := signer.mint cr k.id exp (bindingGeneration k.generationHash)
      (poolScopes pools = k.allowedScopes ∧
        (issueSelf cr u pools exp now probe).run s = (.ok (k, token), s)) ∨
      (poolScopes pools ≠ k.allowedScopes ∧
        ((∃ e, s.store.putKey updated = .error e ∧ (issueSelf cr u pools exp now probe).run s = (.error e, s)) ∨
        (∃ st, s.store.putKey updated = .ok st ∧
          (issueSelf cr u pools exp now probe).run s
            = (.ok (updated, token), reloaded { s with store := st })))) := by
  cases hs : s.signing with
  | none => simp only [issueSelf, run_bind, signingMaterial, run_read, hs, run_throw]
  | some signer =>
    cases hf : findSelfBinding s.caches.byId u probe with
    | none => simp only [issueSelf, run_bind, signingMaterial, run_read, hs, currentSelfBinding, hf]
    | some k =>
      by_cases hc : poolScopes pools = k.allowedScopes
      · left
        refine ⟨hc, ?_⟩
        simp only [issueSelf, run_bind, signingMaterial, run_read, hs, currentSelfBinding, hf, hc, ne_eq,
          not_true_eq_false, if_false, run_pure]
      · right
        refine ⟨hc, ?_⟩
        cases hp : s.store.putKey { k with allowedScopes := poolScopes pools } with
        | error e =>
          left
          refine ⟨e, rfl, ?_⟩
          have hrun : (storePutKey { k with allowedScopes := poolScopes pools }).run s = (.error e, s) := by
            simp [storePutKey, run_attempt, hp, Except.map]
          simp only [issueSelf, run_bind, signingMaterial, run_read, hs, currentSelfBinding, hf, ne_eq, hc,
            not_false_eq_true, if_true, hrun]
        | ok st =>
          right
          refine ⟨st, rfl, ?_⟩
          simp only [issueSelf, run_bind, signingMaterial, run_read, hs, currentSelfBinding, hf, ne_eq, hc,
            not_false_eq_true, if_true, run_storePutKey hp, run_refresh, run_pure, reloaded]

theorem findSelfBinding_some {byId : Registry VirtualKey.id} {u : String} {probe : Nat} {k : VirtualKey}
    (h : findSelfBinding byId u probe = some k) :
    byId.get k.id = some k ∧ k.enabled = true ∧ k.deletedAt = none ∧ k.group = some (selfGroup u) := by
  have hm : k ∈ byId.rows := List.mem_rotate.1 (List.mem_of_find?_eq_some h)
  have hp := List.find?_some h
  simp only [Bool.and_eq_true, beq_iff_eq, Option.isNone_iff_eq_none] at hp
  exact ⟨Registry.get_of_mem hm, hp.1.1, hp.1.2, hp.2⟩

theorem findSelfBinding_none {byId : Registry VirtualKey.id} {u : String} {probe : Nat}
    (h : findSelfBinding byId u probe = none) {id : String} {k : VirtualKey} (hk : byId.get id = some k)
    (hen : k.enabled = true) (hd : k.deletedAt = none) : k.group ≠ some (selfGroup u) := by
  intro hg
  have := List.find?_eq_none.1 h k (List.mem_rotate.2 (Registry.mem_of_get hk))
  simp [hen, hd, hg] at this

/-- With coherent caches the replaced row is still there to be tombstoned, so a refresh never rolls back. -/
theorem refreshSelf_spec {s : GovState} (hco : Coherent s) (u : String) (pools : Option (List String))
    (exp now probe : Nat) :
    match s.signing with
    | none => (refreshSelf cr u pools exp now probe).run s = (.error mintingUnavailable, s)
    | some signer =>
      match freeEpoch cr s.store signer.key u (nextEpoch (findSelfBinding s.caches.byId u probe)) maxProbes 0 with
      | none => (refreshSelf cr u pools exp now probe).run s
          = (.error (noFreeEpoch (nextEpoch (findSelfBinding s.caches.byId u probe))), s)
      | some (id, epoch) => ∃ st, s.store.putKey (selfBinding u pools id epoch now) = .ok st ∧ ∃ st',
          (st' = st ∧ (∀ old, findSelfBinding s.caches.byId u probe = some old → old.id = id) ∨
            ∃ old, findSelfBinding s.caches.byId u probe = some old ∧ old.id ≠ id ∧
              st.deleteKey old.id = .ok st') ∧
          (refreshSelf cr u pools exp now probe).run s
            = (.ok (selfBinding u pools id epoch now, signer.mint cr id exp (some (toString epoch))),
              reloaded { s with store := st' }) := by
  cases hs : s.signing with
  | none => simp only [refreshSelf, run_bind, signingMaterial, run_read, hs, run_throw]
  | some signer =>
    have hw := run_writeSelfBinding cr signer u pools
      (nextEpoch (findSelfBinding s.caches.byId u probe)) exp now s
    dsimp only
    cases hf : freeEpoch cr s.store signer.key u (nextEpoch (findSelfBinding s.caches.byId u probe))
        maxProbes 0 with
    | none =>
      rw [hf] at hw
      simp only [refreshSelf, run_bind, signingMaterial, run_read, hs, currentSelfBinding, hw]
    | some r =>
      obtain ⟨id, epoch⟩ := r
      rw [hf] at hw
      obtain ⟨st, hst, hrun⟩ := hw
      refine ⟨st, hst, ?_⟩
      cases hb : findSelfBinding s.caches.byId u probe with
      | none =>
        rw [hb] at hrun
        refine ⟨st, Or.inl ⟨rfl, fun old h => by cases h⟩, ?_⟩
        simp only [refreshSelf, run_bind, signingMaterial, run_read, hs, currentSelfBinding, hb, hrun, run_pure]
      | some old =>
        rw [hb] at hrun
        by_cases hid : old.id = id
        · refine ⟨st, Or.inl ⟨rfl, fun old' h => by cases h; exact hid⟩, ?_⟩
          have hid' : old.id = (selfBinding u pools id epoch now).id := hid
          simp only [refreshSelf, run_bind, signingMaterial, run_read, hs, currentSelfBinding, hb, hrun,
            ← hid', if_true, run_pure]
        · obtain ⟨hcache, -, -, -⟩ := findSelfBinding_some hb
          obtain ⟨k', hk', -⟩ := hco.cached hcache
          have hlive : st.live old.id = some k' := by
            rw [MemoryStore.live_putKey hst rfl, if_neg (fun e => hid e.symm)]; exact hk'
          obtain ⟨st', hst'⟩ := MemoryStore.deleteKey_live hlive
          refine ⟨st', Or.inr ⟨old, rfl, hid, hst'⟩, ?_⟩
          have hid' : ¬ old.id = (selfBinding u pools id epoch now).id := hid
          have hdel := run_storeDeleteKey_ok (s := reloaded { s with store := st }) hst'
          generalize hs₁ : reloaded { s with store := st } = s₁ at hrun hdel
          simp only [refreshSelf, run_bind, signingMaterial, run_read, hs, currentSelfBinding, hb, hrun, hid',
            if_false, run_result, hdel, run_refresh, run_pure]
          subst hs₁
          simp only [reloaded, hs]

theorem run_holdingRefreshLock {α : Type} (p : Gov α) (s : GovState) :
    (holdingRefreshLock p).run s = ((p.run { s with refreshLock := s.refreshLock + 1 }).1,
      { (p.run { s with refreshLock := s.refreshLock + 1 }).2 with
        refreshLock := (p.run { s with refreshLock := s.refreshLock + 1 }).2.refreshLock - 1 }) := by
  simp only [holdingRefreshLock, run_bind, run_modify, run_result]
  rfl

theorem revokeCredential_ok {st st' : MemoryStore} {id reason : String}
    (h : st.revokeCredential id reason = .ok st') :
    st'.keys = st.keys ∧ st'.denylist = st.denylist ∧ st'.clock = st.clock := by
  unfold MemoryStore.revokeCredential at h
  split at h
  · cases h
  · split at h <;> cases h <;> exact ⟨rfl, rfl, rfl⟩

/-- Revoking credentials touches neither the key rows nor the denylist. -/
theorem run_revokeCredentials (reason : String) (creds : List CredentialMeta) (s : GovState) :
    ∃ st, ((revokeCredentials reason creds).run s).2 = { s with store := st } ∧ st.keys = s.store.keys ∧
      st.denylist = s.store.denylist ∧ st.clock = s.store.clock := by
  induction creds generalizing s with
  | nil => exact ⟨s.store, rfl, rfl, rfl, rfl⟩
  | cons c creds ih =>
    cases hc : c.revokedAt.isNone with
    | false =>
      simp only [revokeCredentials, hc, Bool.false_eq_true, if_false]
      exact ih s
    | true =>
      cases hr : s.store.revokeCredential c.id reason with
      | error e =>
        refine ⟨s.store, ?_, rfl, rfl, rfl⟩
        simp [revokeCredentials, hc, run_bind, storeRevokeCredential, run_attempt, hr, Except.map]
      | ok st =>
        obtain ⟨hk, hd, hcl⟩ := revokeCredential_ok hr
        obtain ⟨st', hrun, hk', hd', hcl'⟩ := ih { s with store := st }
        refine ⟨st', ?_, hk'.trans hk, hd'.trans hd, hcl'.trans hcl⟩
        have h1 : (storeRevokeCredential c.id reason).run s = (.ok (), { s with store := st }) := by
          simp [storeRevokeCredential, run_attempt, hr, Except.map]
        simp only [revokeCredentials, hc, if_true, run_bind, h1]
        generalize hg : (revokeCredentials reason creds).run { s with store := st } = r at hrun
        obtain ⟨x, s'⟩ := r
        cases x <;> exact hrun

/-- A revocation denylists the subject and, on a live row, stamps a new generation on a disabled row; the key
cache is patched with that row. It may stop early, with the key rows untouched. -/
theorem revoke_spec (s : GovState) (sub reason gen : String) :
    let s' := (revoke sub reason gen).exec s
    s'.signing = s.signing ∧ s'.refreshLock = s.refreshLock ∧ s.denylist ⊆ s'.denylist ∧
      ((s'.store.keys = s.store.keys ∧ s'.caches.byId = s.caches.byId) ∨
        ∃ (k : VirtualKey) (st : MemoryStore), s.live sub = some k ∧ sub ∈ s'.denylist ∧ st.keys = s.store.keys ∧
          st.putKey { k with generationHash := bindingMarker k.id gen, enabled := false } = .ok s'.store ∧
          s'.caches.byId
            = s.caches.byId.put { k with generationHash := bindingMarker k.id gen, enabled := false }) := by
  intro s'
  set s₁ : GovState := { s with refreshLock := s.refreshLock + 1 } with hs₁
  obtain ⟨st, hrun, hkeys, -, -⟩ := run_revokeCredentials reason (s₁.store.listCredentials sub) s₁
  cases hres : (revokeCredentials reason (s₁.store.listCredentials sub)).run s₁ with
  | mk r s₂ =>
  rw [hres] at hrun
  simp only at hrun
  subst hrun
  cases r with
  | error e =>
    have hs' : s' = { s with store := st } := by
      simp only [s', exec, revoke, run_holdingRefreshLock, run_bind, storeListCredentials, run_read, ← hs₁, hres]
      simp only [hs₁, Nat.add_sub_cancel]
    rw [hs']
    exact ⟨rfl, rfl, Finset.Subset.refl _, Or.inl ⟨hkeys, rfl⟩⟩
  | ok pairs =>
    have hkeys' : (st.addDenylist sub).keys = s.store.keys := hkeys
    have hlive : (st.addDenylist sub).live sub = s.live sub := by
      simp only [MemoryStore.live, live, hkeys']
    have hget : (st.addDenylist sub).getKey sub = s.store.getKey sub := by
      simp only [MemoryStore.getKey, hkeys']
    cases hl : s.live sub with
    | none =>
      have hs' : s' = { s with store := st.addDenylist sub, denylist := insert sub s.denylist, caches :=
          ⟨s.caches.byId, pairs.foldl (fun T c => Registry.erase c T) s.caches.byCredential⟩ } := by
        rcases live_none_cases hl with hg | ⟨k, hg, hd⟩
        · simp only [s', exec, revoke, run_holdingRefreshLock, run_bind, storeListCredentials, run_read, ← hs₁,
            hres, storeAddDenylist, run_modify, storeGetKey, hget, hg, run_pure]
          simp only [hs₁, Nat.add_sub_cancel]
        · have hd' : k.deletedAt.isNone = false := by rw [← Option.not_isSome, hd]; rfl
          simp only [s', exec, revoke, run_holdingRefreshLock, run_bind, storeListCredentials, run_read, ← hs₁,
            hres, storeAddDenylist, run_modify, storeGetKey, hget, hg, hd', Bool.false_eq_true, if_false,
            run_pure]
          simp only [hs₁, Nat.add_sub_cancel]
      rw [hs']
      exact ⟨rfl, rfl, Finset.subset_insert _ _, Or.inl ⟨hkeys', rfl⟩⟩
    | some k =>
      obtain ⟨hg, -, hd⟩ := live_some_cases hl
      have hid := MemoryStore.live_id hl
      obtain ⟨st', hst'⟩ := MemoryStore.putKey_isOk (s := st.addDenylist sub)
        { k with generationHash := bindingMarker k.id gen, enabled := false }
        (by rw [hl] at hlive; simpa [hid] using MemoryStore.not_tombstoned_of_live hlive)
      have hs' : s' = { s with store := st', denylist := insert sub s.denylist, caches :=
          ⟨s.caches.byId.put { k with generationHash := bindingMarker k.id gen, enabled := false },
            pairs.foldl (fun T c => Registry.erase c T) s.caches.byCredential⟩ } := by
        have hput := run_storePutKey (s := { s₁ with store := st.addDenylist sub }) hst'
        simp only [s', exec, revoke, run_holdingRefreshLock, run_bind, storeListCredentials, run_read, ← hs₁,
          hres, storeAddDenylist, run_modify, storeGetKey, hget, hg, hd, if_true, hput, run_pure]
        simp only [hs₁, Nat.add_sub_cancel]
      rw [hs']
      exact ⟨rfl, rfl, Finset.subset_insert _ _,
        Or.inr ⟨k, _, rfl, Finset.mem_insert_self _ _, hkeys', hst', rfl⟩⟩

end Busbar.GovState
