import Busbar.Governance.Ops
import Busbar.Lib.Gate

/-!
# Concurrent key operations

The key operations as calls that come in at any time and make one store or cache access at a time. The
refresh lock admits one holder. Every admin handler holds the existence gate for its whole store section, so
behind the gate one key mutation is under way at a time; cache reloads do not pass it.

* `GovState.keyPlan`: what each call runs and which calls pass the gate.
* `keeps_refresh`, `orderly_refresh`: a reload under any other calls.
-/

namespace Busbar.GovState

open Prog Gate

/-- The key and its credential in one store call, together or not at all. -/
def storePutKeyWithCredential (key : VirtualKey) (secret : CredentialSecret) : Gov Unit :=
  .attempt (fun s => do
    let st ← s.store.putKey key
    let st ← st.putCredential secret
    pure ((), { s with store := st }))

/-- `raw`, `generation`, `accessKeyId`, `secretAccessKey` and `credRaw` are the random draws. -/
def mintSignedWithAws (cr : TokenCrypto) (spec : NewKeySpec) (exp now : Nat) (raw : Bytes)
    (generation accessKeyId secretAccessKey : String) (credRaw : Bytes) :
    Gov (VirtualKey × String × String × String) := do
  let material ← signingMaterial
  match material with
  | none => .throw mintingUnavailable
  | some signer =>
    let id := vkIdPrefix ++ hexEncode raw
    let credId := "cred_" ++ hexEncode credRaw
    let binding : VirtualKey :=
      { id := id, generationHash := bindingMarker id generation, name := spec.name
        allowedScopes := poolScopes spec.allowedPools, enabled := true, createdAt := now
        group := spec.group, labels := spec.labels, expiresAt := none, deletedAt := none, revision := 0 }
    let secret : CredentialSecret :=
      { metadata :=
          { id := credId, keyId := id, kind := "sigv4", slot := 0, publicId := accessKeyId
            secretForm := .recoverable, createdAt := now, updatedAt := now, expiresAt := none
            revokedAt := none, revokeReason := none, revision := 0 }
        secret := "v1:plain:" ++ secretAccessKey }
    storePutKeyWithCredential binding secret
    refresh
    pure (binding, signer.mint cr id exp (some generation), accessKeyId, secretAccessKey)

/-- A call of a key operation, a cache reload, or the wall clock moving. -/
inductive KeyCall where
  | revoke (sub reason generation : String)
  | deleteKey (id : String)
  | rotateKey (id : String) (exp : Nat) (generation : String)
  | updateKey (id : String) (enabled : Option Bool) (group : Option (Option String))
  | mintSigned (spec : NewKeySpec) (exp now : Nat) (raw : Bytes) (generation : String)
  | mintSignedWithAws (spec : NewKeySpec) (exp now : Nat) (raw : Bytes)
      (generation accessKeyId secretAccessKey : String) (credRaw : Bytes)
  | refresh
  | tick (clock : Nat)

variable (cr : TokenCrypto)

def KeyCall.body : KeyCall → Gov Unit
  | .revoke sub reason gen => GovState.revoke sub reason gen
  | .deleteKey id => GovState.deleteKey id
  | .rotateKey id exp gen => do
    let _ ← GovState.rotateKey cr id exp gen
    pure ()
  | .updateKey id enabled group => do
    let _ ← GovState.updateKey id enabled group
    pure ()
  | .mintSigned spec exp now raw gen => do
    let _ ← GovState.mintSigned cr spec exp now raw gen
    pure ()
  | .mintSignedWithAws spec exp now raw gen akid sak credRaw => do
    let _ ← GovState.mintSignedWithAws cr spec exp now raw gen akid sak credRaw
    pure ()
  | .refresh => GovState.refresh
  | .tick clock => .modify (fun s => { s with store := { s.store with clock := clock } })

/-- The mutations of key rows pass the existence gate. -/
def KeyCall.gated : KeyCall → Bool
  | .refresh => false
  | .tick _ => false
  | _ => true

def keyPlan : Plan GovState StoreError KeyCall := ⟨KeyCall.body cr, KeyCall.gated⟩

/-- The id a mint draws. -/
def KeyCall.drawn : KeyCall → Option String
  | .mintSigned _ _ _ raw _ => some (vkIdPrefix ++ hexEncode raw)
  | .mintSignedWithAws _ _ _ raw _ _ _ _ => some (vkIdPrefix ++ hexEncode raw)
  | _ => none

/-- An update that switches the key on. -/
def KeyCall.reenables (sub : String) : KeyCall → Bool
  | .updateKey id enabled _ => id == sub && enabled == some true
  | _ => false

/-- A revocation or a deletion of the key. -/
def KeyCall.kills (sub : String) : KeyCall → Bool
  | .revoke id _ _ => id == sub
  | .deleteKey id => id == sub
  | _ => false

/-! ## A reload, whatever comes between its accesses -/

theorem keeps_holdingRefreshLock {J : GovState → Prop} {α : Type} {p : Gov α} {Q : α → Prop}
    (hlock : ∀ s n, J s → J { s with refreshLock := n }) (hp : p.Keeps J Q) :
    (holdingRefreshLock p).Keeps J Q := by
  unfold holdingRefreshLock
  refine Keeps.bind (keeps_modify fun s hs => hlock s _ hs) fun _ _ => ?_
  refine Keeps.bind hp.result fun r hr => ?_
  refine Keeps.bind (keeps_modify fun s hs => hlock s _ hs) fun _ _ => ?_
  exact hr

/-- A reload keeps what its parts keep: `F` is what the listed keys satisfy, `G` what the listed credentials
do. -/
theorem keeps_refresh {J : GovState → Prop} {F : Registry VirtualKey.id → Prop}
    {G : Registry VirtualKey.id → Table (String × String) (VirtualKey × CredentialSecret) → Prop}
    (hlock : ∀ s n, J s → J { s with refreshLock := n })
    (hkeys : ∀ s, J s → F (load s.store.listKeys))
    (hcreds : ∀ s fresh, J s → F fresh →
      G fresh (loadByCredential fresh (s.store.listCredentialsSince 0) s.store.clock))
    (hswap : ∀ s fresh creds, J s → F fresh → G fresh creds → J { s with caches := ⟨fresh, creds⟩ }) :
    refresh.Keeps J (fun _ => True) := by
  have hbody : Prog.Keeps (ε := StoreError) J (fun _ => True) (do
      let rows ← .read (fun s : GovState => s.store.listKeys)
      let fresh := load rows
      let freshCred ← .read (fun s : GovState =>
        loadByCredential fresh (s.store.listCredentialsSince 0) s.store.clock)
      Prog.modify (fun s : GovState => { s with caches := ⟨fresh, freshCred⟩ })) := by
    refine Keeps.bind (keeps_read (Q := fun rows => F (load rows)) hkeys) fun rows hF => ?_
    refine Keeps.bind (keeps_read (Q := fun creds => G (load rows) creds) fun s hs => hcreds s _ hs hF) ?_
    exact fun creds hG => keeps_modify fun s hs => hswap s _ _ hs hF hG
  exact keeps_holdingRefreshLock hlock hbody

end Busbar.GovState
