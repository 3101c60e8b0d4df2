import Busbar.Governance.Calls
import Busbar.Lib.Rely

/-!
# The key ceiling

`max_keys_per_principal` bounds the live keys of a bucket: the keys bound to one group, or the unbound ones.
Every admin handler does its check and its write in one section behind the existence gate; the self-serve
operations stay outside. Groups of the self-serve prefix are not counted.

* `GovState.checkKeyCap`: the count that the mint and the update ask for.
* `GovState.mintSection`, `GovState.updateSection`, ...: the handlers' sections.
* `AdminCall`: the sections as calls, and the self-serve operations beside them.
-/

namespace Busbar

namespace GovState

open Prog

/-- A group of the self-serve prefix. -/
def isSelfGroup (group : String) : Bool := (stripPrefix selfKeyGroupPrefix group).isSome

/-- The rows `checkKeyCap` counts. -/
def countsFor (s : GovState) (group excludeId : Option String) (k : VirtualKey) : Bool :=
  k.group == group && some k.id != excludeId && (k.group.map (fun g => !isSelfGroup g)).getD true
    && (k.enabled && !s.isRevoked k.id)

def unboundBucketLabel : String := "(no group)"

/-- The bucket's label and count when it is full; a ceiling of zero is none. -/
def checkKeyCap (cap : Nat) (group excludeId : Option String) : Gov (Option (String × Nat)) :=
  if cap = 0 then pure none
  else do
    let rows ← .read (fun s => s.store.listKeys)
    let n ← .read (fun s => (rows.filter (countsFor s group excludeId)).length)
    pure (if cap ≤ n then some (group.getD unboundBucketLabel, n) else none)

def keyState (k : VirtualKey) (s : GovState) : String :=
  if k.deletedAt.isSome then "tombstoned"
  else if s.isRevoked k.id then "revoked"
  else if k.enabled then "active" else "disabled"

end GovState

/-- The random draws of a mint; the last three are those of an attached credential. -/
structure MintDraws where
  raw : Bytes
  generation : String
  accessKeyId : String
  secretAccessKey : String
  credRaw : Bytes

/-- What the mint's section produced. -/
inductive MintOutcome where
  | bearer (key : VirtualKey) (token : String)
  | aws (key : VirtualKey) (token accessKeyId secretAccessKey : String)
  | atCap (group : String) (n cap : Nat)
  deriving DecidableEq

inductive UpdateOutcome where
  | updated (key : VirtualKey) (state : String)
  | notFound
  | etagStale
  | atCap (group : String) (n cap : Nat)
  deriving DecidableEq

inductive DeleteOutcome where
  | deleted | notFound | etagStale
  deriving DecidableEq

namespace GovState

open Prog Gate

/-- The mint: count, then write. -/
def mintSection (cr : TokenCrypto) (cap : Nat) (spec : NewKeySpec) (exp now : Nat) (issueAws : Bool)
    (draws : MintDraws) : Gov MintOutcome := do
  let full ← checkKeyCap cap spec.group none
  match full with
  | some (group, n) => pure (.atCap group n cap)
  | none =>
    if issueAws then do
      let m ← mintSignedWithAws cr spec exp now draws.raw draws.generation draws.accessKeyId draws.secretAccessKey
        draws.credRaw
      pure (.aws m.1 m.2.1 m.2.2.1 m.2.2.2)
    else do
      let m ← mintSigned cr spec exp now draws.raw draws.generation
      pure (.bearer m.1 m.2)

/-- The write of an update, which reads the row again. -/
def applyUpdate (id : String) (enabled : Option Bool) (group : Option (Option String)) : Gov UpdateOutcome := do
  let updated ← updateKey id enabled group
  match updated with
  | some key => do
    let state ← .read (keyState key)
    pure (.updated key state)
  | none => pure .notFound

/-- The update: one read of the row for its tag and for the ceiling, which is asked iff the update adds a live
key to a bucket. -/
def updateSection (etag : VirtualKey → String) (cap : Nat) (ifMatch : Option String) (id : String)
    (enabled : Option Bool) (group : Option (Option String)) : Gov UpdateOutcome := do
  let row ← storeGetKey id
  match row with
  | none => pure .notFound
  | some before =>
    if ifMatch.any (fun tag => etag before != tag) then pure .etagStale
    else do
      let revoked ← .read (fun s => s.isRevoked before.id)
      let destGroup := group.getD before.group
      let wasCounted := before.enabled && !revoked
      let willBeCounted := enabled.getD before.enabled && !revoked
      if willBeCounted && (!wasCounted || destGroup != before.group) then do
        let full ← checkKeyCap cap destGroup (some id)
        match full with
        | some (g, n) => pure (.atCap g n cap)
        | none => applyUpdate id enabled group
      else applyUpdate id enabled group

def rotateSection (cr : TokenCrypto) (id : String) (exp : Nat) (generation : String) :
    Gov (Option (String × RotatedCredential)) := do
  let rotated ← rotateKey cr id exp generation
  match rotated with
  | some r => do
    let state ← .read (keyState r.key)
    pure (some (state, r))
  | none => pure none

def revokeSection (id generation : String) : Gov Bool := do
  let row ← storeGetKey id
  if row.isSome then do
    revoke id "revoked via admin API" generation
    pure true
  else pure false

def deleteSection (etag : VirtualKey → String) (ifMatch : Option String) (id generation : String) :
    Gov DeleteOutcome := do
  let row ← storeGetKey id
  match row with
  | none => pure .notFound
  | some k =>
    if k.deletedAt.isSome then pure .notFound
    else if ifMatch.any (fun tag => etag k != tag) then pure .etagStale
    else do
      revoke id "key deleted" generation
      deleteKey id
      pure .deleted

end GovState

/-- A handler's store section behind the gate, or an operation beside it: the self-serve plane, a cache reload,
the re-read of the store's denylist, the wall clock moving. -/
inductive AdminCall where
  | createKey (spec : NewKeySpec) (exp now : Nat) (issueAws : Bool) (draws : MintDraws)
  | updateKey (ifMatch : Option String) (id : String) (enabled : Option Bool) (group : Option (Option String))
  | rotateKey (id : String) (exp : Nat) (generation : String)
  | revokeKey (id generation : String)
  | deleteKey (ifMatch : Option String) (id generation : String)
  | issueSelf (userSub : String) (allowedPools : Option (List String)) (exp now probe : Nat)
  | refreshSelf (userSub : String) (allowedPools : Option (List String)) (exp now probe : Nat)
  | refresh
  | syncDenylist
  | tick (clock : Nat)

namespace AdminCall

open Prog Gate GovState

/-- Run for its effect. -/
def ignoring {α : Type} (p : Gov α) : Gov Unit := p >>= fun _ => pure ()

variable (cr : TokenCrypto) (etag : VirtualKey → String) (cap : Nat)

def body : AdminCall → Gov Unit
  | createKey spec exp now issueAws draws => ignoring (mintSection cr cap spec exp now issueAws draws)
  | updateKey ifMatch id enabled group => ignoring (updateSection etag cap ifMatch id enabled group)
  | rotateKey id exp gen => ignoring (rotateSection cr id exp gen)
  | revokeKey id gen => ignoring (revokeSection id gen)
  | deleteKey ifMatch id gen => ignoring (deleteSection etag ifMatch id gen)
  | issueSelf u pools exp now probe => ignoring (GovState.issueSelf cr u pools exp now probe)
  | refreshSelf u pools exp now probe => ignoring (GovState.refreshSelf cr u pools exp now probe)
  | refresh => GovState.refresh
  | syncDenylist => .modify (fun s => { s with denylist := s.denylist ∪ s.store.denylist })
  | tick clock => .modify (fun s => { s with store := { s.store with clock := clock } })

/-- The admin handlers hold the existence gate. -/
def gated : AdminCall → Bool
  | createKey .. | updateKey .. | rotateKey .. | revokeKey .. | deleteKey .. => true
  | _ => false

/-- The row an update reads first and writes later. -/
def edits : AdminCall → Option String
  | updateKey _ id _ _ => some id
  | _ => none

def plan : Plan GovState StoreError AdminCall := ⟨body cr etag cap, gated⟩

end AdminCall

end Busbar
