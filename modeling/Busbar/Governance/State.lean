import Busbar.Governance.Cell
import Busbar.Governance.Signing
import Busbar.Lib.Prog
import Busbar.Store.Memory
import Mathlib.Data.List.Rotate

/-!
# The governance state and its key operations

`GovState` over the in-memory store: the two auth caches, the denylist, the signing key, and the mutations
of key rows. Every operation is a program of single store and cache accesses, in the order the source
makes them; `refreshLock` counts the holders of the lock that serializes cache reloads.

* `GovState.verifyToken`, `GovState.isRevoked`: the token plane's admission.
* `GovState.issueSelf`, `refreshSelf`: the self-serve plane.
* `GovState.rotateKey`, `updateKey`, `revoke`, `deleteKey`, `mintSigned`: the admin plane.
-/

namespace Busbar

/-- The auth caches: live keys by subject id, and live credentials by (kind, public id). -/
structure GovCaches where
  byId : Registry VirtualKey.id
  byCredential : Table (String × String) (VirtualKey × CredentialSecret)

structure GovState where
  store : MemoryStore
  caches : GovCaches
  concurrent : Table String Int
  budget : Table String BudgetCell
  sweepTicker : Nat → Nat
  signing : Option TokenSigner
  denylist : Finset String
  refreshLock : Nat

abbrev Gov (α : Type) := Prog GovState StoreError α

structure NewKeySpec where
  name : String
  allowedPools : Option (List String)
  group : Option String
  labels : List (String × String)

structure RotatedCredential where
  key : VirtualKey
  token : String
  exp : Nat
  deriving DecidableEq, Repr

def poolScopes (pools : Option (List String)) : Option (List ScopeRef) := pools.map (·.map ScopeRef.pool)

namespace GovState

/-! ## Single accesses -/

def storeGetKey (id : String) : Gov (Option VirtualKey) := .read (fun s => s.store.getKey id)

def storePutKey (key : VirtualKey) : Gov Unit :=
  .attempt (fun s => (s.store.putKey key).map (fun st => ((), { s with store := st })))

def storeDeleteKey (id : String) : Gov Unit :=
  .attempt (fun s => (s.store.deleteKey id).map (fun st => ((), { s with store := st })))

def storePutCredential (secret : CredentialSecret) : Gov Unit :=
  .attempt (fun s => (s.store.putCredential secret).map (fun st => ((), { s with store := st })))

def storeListCredentials (keyId : String) : Gov (List CredentialMeta) :=
  .read (fun s => s.store.listCredentials keyId)

def storeRevokeCredential (id reason : String) : Gov Unit :=
  .attempt (fun s => (s.store.revokeCredential id reason).map (fun st => ((), { s with store := st })))

def storeAddDenylist (sub : String) : Gov Unit :=
  .modify (fun s => { s with store := s.store.addDenylist sub })

def signingMaterial : Gov (Option TokenSigner) := .read signing

/-- Run a program holding `refreshLock`; the guard is dropped on an error as well. -/
def holdingRefreshLock {α : Type} (p : Gov α) : Gov α := do
  .modify (fun s => { s with refreshLock := s.refreshLock + 1 })
  let r ← p.result
  .modify (fun s => { s with refreshLock := s.refreshLock - 1 })
  .done r

/-! ## The caches -/

/-- The live keys, by id. -/
def load (rows : List VirtualKey) : Registry VirtualKey.id :=
  Registry.ofList (rows.filter (fun k => k.deletedAt.isNone))

/-- The live credentials whose key is loaded. -/
def loadByCredential (byId : Registry VirtualKey.id) (creds : List CredentialSecret) (now : Nat) :
    Table (String × String) (VirtualKey × CredentialSecret) :=
  creds.foldl (fun T cred =>
    if cred.metadata.isLive now then
      match byId.get cred.metadata.keyId with
      | some key => T.insert (cred.metadata.kind, cred.metadata.publicId) (key, cred)
      | none => T
    else T) Registry.empty

/-- Reload both caches: list the keys, list the credentials, swap. -/
def refresh : Gov Unit := holdingRefreshLock do
  let rows ← .read (fun s => s.store.listKeys)
  let fresh := load rows
  let freshCred ← .read (fun s => loadByCredential fresh (s.store.listCredentialsSince 0) s.store.clock)
  .modify (fun s => { s with caches := ⟨fresh, freshCred⟩ })

/-- A state over a store, as boot builds it: caches and denylist hydrated. -/
def newWithSigner (store : MemoryStore) (signer : Option TokenSigner) : GovState where
  store := store
  caches := ⟨load store.listKeys, loadByCredential (load store.listKeys) (store.listCredentialsSince 0) store.clock⟩
  concurrent := Registry.empty
  budget := Registry.empty
  sweepTicker := fun _ => 0
  signing := signer
  denylist := store.denylist
  refreshLock := 0

def evictKeyFromCaches (id : String) : Gov Unit :=
  .modify (fun s => { s with caches :=
    ⟨s.caches.byId.erase id, Registry.retain (fun r => r.2.1.id ≠ id) s.caches.byCredential⟩ })

/-! ## Admission of a token -/

def lookupBySub (s : GovState) (sub : String) : Option VirtualKey := s.caches.byId.get sub

def isRevoked (s : GovState) (sub : String) : Bool := sub ∈ s.denylist

def lookupCredential (s : GovState) (kind publicId : String) : Option (VirtualKey × CredentialSecret) :=
  s.caches.byCredential.lookup (kind, publicId)

/-- Signature and expiry, then the denylist, then an enabled binding of the token's generation. The re-read
of a stale denylist is only scheduled here; it is a step of its own. -/
def verifyToken (cr : TokenCrypto) (s : GovState) (token : String) (now : Nat) : Option VirtualKey :=
  match s.signing with
  | none => none
  | some signer =>
    match (TokenVerifier.single signer.kid (cr.verifyingKey signer.key)).verify cr token now with
    | .error _ => none
    | .ok claims =>
      if claims.sub ∈ s.denylist then none
      else match s.lookupBySub claims.sub with
        | some key =>
          if key.enabled && generationMatches key.generationHash claims.generation then some key else none
        | none => none

/-! ## The self-serve plane -/

def selfGroup (userSub : String) : String := selfKeyGroupPrefix ++ userSub

/-- An enabled self-serve binding of the user. The cache is a hash map, so any such row may be the one
found: `probe` says where its iteration starts. -/
def findSelfBinding (byId : Registry VirtualKey.id) (userSub : String) (probe : Nat) : Option VirtualKey :=
  (byId.rows.rotate probe).find? (fun k =>
    k.enabled && k.deletedAt.isNone && k.group == some (selfGroup userSub))

def currentSelfBinding (userSub : String) (probe : Nat) : Gov (Option VirtualKey) :=
  .read (fun s => findSelfBinding s.caches.byId userSub probe)

def maxProbes : Nat := 64

/-- The strides 0, 1, 2, 4, …: the first id that is not a tombstoned row. -/
def probeEpochs (cr : TokenCrypto) (seed : Bytes) (userSub : String) (start : Nat) :
    Nat → Nat → Gov (Option (String × Nat))
  | 0, _ => pure none
  | probes + 1, stride => do
    let epoch := satAdd start stride
    let id := deriveSelfSubject cr seed userSub epoch
    let row ← storeGetKey id
    if row.any (fun k => k.deletedAt.isSome) then
      probeEpochs cr seed userSub start probes (if stride = 0 then 1 else satMul stride 2)
    else pure (some (id, epoch))

def noFreeEpoch (start : Nat) : StoreError :=
  "self-serve binding: " ++ toString maxProbes ++ " probes from epoch " ++ toString start
    ++ " all landed on tombstoned rows; refusing to reissue a deleted key id"

def firstFreeSelfEpoch (cr : TokenCrypto) (seed : Bytes) (userSub : String) (start : Nat) :
    Gov (String × Nat) := do
  let found ← probeEpochs cr seed userSub start maxProbes 0
  match found with
  | some r => pure r
  | none => .throw (noFreeEpoch start)

/-- The row a self-serve mint writes. -/
def selfBinding (userSub : String) (allowedPools : Option (List String)) (id : String) (epoch now : Nat) :
    VirtualKey where
  id := id
  generationHash := bindingMarker id (toString epoch)
  name := "self-serve key (" ++ userSub ++ ")"
  allowedScopes := poolScopes allowedPools
  enabled := true
  createdAt := now
  group := some (selfGroup userSub)
  labels := []
  expiresAt := none
  deletedAt := none
  revision := 0

def writeSelfBinding (cr : TokenCrypto) (signer : TokenSigner) (userSub : String)
    (allowedPools : Option (List String)) (epoch exp now : Nat) : Gov (VirtualKey × String) := do
  let (id, epoch) ← firstFreeSelfEpoch cr signer.key userSub epoch
  let binding := selfBinding userSub allowedPools id epoch now
  storePutKey binding
  refresh
  pure (binding, signer.mint cr id exp (some (toString epoch)))

def mintingUnavailable : StoreError :=
  "signed-token minting is unavailable: no signing key is configured"

def issueSelf (cr : TokenCrypto) (userSub : String) (allowedPools : Option (List String))
    (exp now probe : Nat) : Gov (VirtualKey × String) := do
  let material ← signingMaterial
  match material with
  | none => .throw mintingUnavailable
  | some signer =>
    let existing ← currentSelfBinding userSub probe
    match existing with
    | some existing =>
      let newScopes := poolScopes allowedPools
      if newScopes ≠ existing.allowedScopes then
        let updated := { existing with allowedScopes := newScopes }
        storePutKey updated
        refresh
        pure (updated, signer.mint cr updated.id exp (bindingGeneration updated.generationHash))
      else
        pure (existing, signer.mint cr existing.id exp (bindingGeneration existing.generationHash))
    | none => writeSelfBinding cr signer userSub allowedPools 0 exp now

/-- The epoch a refresh starts from: one past the generation of the row it replaces, read as a number. -/
def nextEpoch (existing : Option VirtualKey) : Nat :=
  match existing with
  | some k => satAdd (((bindingGeneration k.generationHash).bind parseU64).getD 0) 1
  | none => 0

/-! ## The admin plane -/

def revocationDurableMarker : String := "REVOCATION APPLIED (cache reconcile degraded)"

def rotationDurableMarker : String := "ROTATION APPLIED (new secret not returned)"

def deleteKey (id : String) : Gov Unit := do
  storeDeleteKey id
  evictKeyFromCaches id
  let refreshed ← refresh.result
  .modify (fun s => { s with budget := Registry.erase id s.budget })
  match refreshed with
  | .ok () => pure ()
  | .error e => .throw (revocationDurableMarker ++ ": key '" ++ id
      ++ "' IS revoked — the tombstone is committed in the store and the credential was evicted from the "
      ++ "in-memory cache, so it no longer authenticates. Only the full cache reconcile failed (" ++ e
      ++ "); OTHER cache entries may be stale until the next successful refresh. Do NOT re-issue this "
      ++ "revocation expecting it to have been a no-op — it took effect.")

/-- Write the next epoch's binding, then tombstone the one it replaces; if that fails, take the new one
back. -/
def refreshSelf (cr : TokenCrypto) (userSub : String) (allowedPools : Option (List String))
    (exp now probe : Nat) : Gov (VirtualKey × String) := do
  let material ← signingMaterial
  match material with
  | none => .throw mintingUnavailable
  | some signer =>
    let existing ← currentSelfBinding userSub probe
    let out ← writeSelfBinding cr signer userSub allowedPools (nextEpoch existing) exp now
    match existing with
    | none => pure out
    | some old =>
      if old.id = out.1.id then pure out
      else
        let deleted ← (storeDeleteKey old.id).result
        match deleted with
        | .error deleteErr =>
          let rolledBack ← (deleteKey out.1.id).result
          match rolledBack with
          | .ok () => .throw ("self-serve refresh for '" ++ userSub ++ "' failed to tombstone the prior "
              ++ "binding '" ++ old.id ++ "' (" ++ deleteErr ++ "); rolled back the newly-minted binding '"
              ++ out.1.id ++ "' so the prior token remains the sole valid credential — retry the refresh")
          | .error rollbackErr => .throw ("self-serve refresh for '" ++ userSub ++ "' left an INCONSISTENT "
              ++ "store state: the prior binding '" ++ old.id ++ "' could not be tombstoned (" ++ deleteErr
              ++ ") and the rollback of the new binding '" ++ out.1.id ++ "' also failed (" ++ rollbackErr
              ++ ") — both bindings may still be live; manual intervention required")
        | .ok () =>
          let refreshed ← refresh.result
          match refreshed with
          | .ok () => pure out
          | .error refreshErr =>
            evictKeyFromCaches old.id
            .throw ("self-serve refresh for '" ++ userSub ++ "' rotated the store successfully (the prior "
              ++ "binding '" ++ old.id ++ "' is tombstoned, the new binding '" ++ out.1.id ++ "' is live) "
              ++ "but the cache reconcile failed (" ++ refreshErr ++ "); the prior binding was evicted "
              ++ "directly from the cache as a best-effort fix so its token no longer verifies, but the "
              ++ "cache may be stale for OTHER entries until the next successful refresh — retry is safe")

/-- `generation` is the random draw. -/
def rotateKey (cr : TokenCrypto) (id : String) (exp : Nat) (generation : String) :
    Gov (Option RotatedCredential) := do
  let row ← storeGetKey id
  match row with
  | none => pure none
  | some key =>
    if key.deletedAt.isSome then pure none
    else
      let material ← signingMaterial
      match material with
      | none => .throw ("cannot rotate a signed-token key: no signing key is configured (rotation "
          ++ "re-mints the token)")
      | some signer =>
        let key := { key with generationHash := bindingMarker key.id generation }
        storePutKey key
        let refreshed ← refresh.result
        match refreshed with
        | .error e =>
          evictKeyFromCaches id
          .throw (rotationDurableMarker ++ ": key '" ++ id ++ "' WAS rotated — the new generation is "
            ++ "committed in the store, so the PREVIOUS credential is permanently dead and was evicted from "
            ++ "the in-memory cache. Only the cache reconcile failed (" ++ e ++ "), so the newly-minted "
            ++ "token could not be returned and is now unrecoverable. This was NOT a no-op: rotate this key "
            ++ "again to obtain a usable credential.")
        | .ok () => pure (some ⟨key, signer.mint cr key.id exp (some generation), exp⟩)

def updateKey (id : String) (enabled : Option Bool) (group : Option (Option String)) :
    Gov (Option VirtualKey) := do
  let row ← storeGetKey id
  match row with
  | none => pure none
  | some key =>
    if key.deletedAt.isSome then pure none
    else
      let key := { key with enabled := enabled.getD key.enabled, group := group.getD key.group }
      storePutKey key
      refresh
      pure (some key)

/-- Revoke the unrevoked credentials of the list, and say which. -/
def revokeCredentials (reason : String) : List CredentialMeta → Gov (List (String × String))
  | [] => pure []
  | cred :: creds =>
    if cred.revokedAt.isNone then do
      storeRevokeCredential cred.id reason
      let rest ← revokeCredentials reason creds
      pure ((cred.kind, cred.publicId) :: rest)
    else revokeCredentials reason creds

/-- Credentials first, then the denylist, then a new generation on a disabled row; the caches are patched in
place. `generation` is the random draw. -/
def revoke (sub reason generation : String) : Gov Unit := holdingRefreshLock do
  let creds ← storeListCredentials sub
  let revokedCreds ← revokeCredentials reason creds
  storeAddDenylist sub
  let row ← storeGetKey sub
  let newKey ← match row with
    | some key =>
      if key.deletedAt.isNone then do
        let key := { key with generationHash := bindingMarker key.id generation, enabled := false }
        storePutKey key
        pure (some key)
      else pure none
    | none => pure none
  .modify (fun s =>
    let byId := match newKey with
      | some key => s.caches.byId.put key
      | none => s.caches.byId
    { s with
      denylist := insert sub s.denylist
      caches := ⟨byId, revokedCreds.foldl (fun T c => Registry.erase c T) s.caches.byCredential⟩ })

/-- `raw` and `generation` are the random draws of the id and of its generation. -/
def mintSigned (cr : TokenCrypto) (spec : NewKeySpec) (exp now : Nat) (raw : Bytes) (generation : String) :
    Gov (VirtualKey × String) := do
  let material ← signingMaterial
  match material with
  | none => .throw mintingUnavailable
  | some signer =>
    let id := vkIdPrefix ++ hexEncode raw
    let binding : VirtualKey :=
      { id := id, generationHash := bindingMarker id generation, name := spec.name
        allowedScopes := poolScopes spec.allowedPools, enabled := true, createdAt := now
        group := spec.group, labels := spec.labels, expiresAt := none, deletedAt := none, revision := 0 }
    storePutKey binding
    refresh
    pure (binding, signer.mint cr id exp (some generation))

end GovState

end Busbar
