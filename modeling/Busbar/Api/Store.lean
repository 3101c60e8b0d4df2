import Busbar.Num

/-!
# The store contract's row types

The rows that cross the store boundary: virtual keys, the credentials filed by a wire-supplied public
identifier, and the token ledger of one (bucket, window) with the signed deltas that accumulate into it.

* `CredentialMeta.isLive`: neither revoked nor expired.
* `UsageLedger.applyDelta`: the additive accumulate of a flush, floored at zero.
-/

namespace Busbar

abbrev StoreError := String

abbrev StoreResult (α : Type) := Except StoreError α

structure ScopeRef where
  kind : String
  value : String
  deriving DecidableEq, Repr

def ScopeRef.pool (value : String) : ScopeRef := ⟨"pool", value⟩

/-- A virtual key: identity, pool grants and at most one group. It carries no limits of its own. -/
structure VirtualKey where
  id : String
  generationHash : String
  name : String
  allowedScopes : Option (List ScopeRef)
  enabled : Bool
  createdAt : Nat
  group : Option String
  labels : List (String × String)
  expiresAt : Option Nat
  deletedAt : Option Nat
  revision : Nat
  deriving DecidableEq, Repr

/-- `false` once the key has been tombstoned. -/
def VirtualKey.isLive (k : VirtualKey) : Bool := k.deletedAt.isNone

inductive SecretForm where
  | none | recoverable | digest
  deriving DecidableEq, Repr

structure CredentialMeta where
  id : String
  keyId : String
  kind : String
  slot : Nat
  publicId : String
  secretForm : SecretForm
  createdAt : Nat
  updatedAt : Nat
  expiresAt : Option Nat
  revokedAt : Option Nat
  revokeReason : Option String
  revision : Nat
  deriving DecidableEq, Repr

def CredentialMeta.isLive (m : CredentialMeta) (now : Nat) : Bool :=
  m.revokedAt.isNone && m.expiresAt.all (fun exp => now < exp)

structure CredentialSecret where
  metadata : CredentialMeta
  secret : String
  deriving DecidableEq, Repr

/-- The raw secret of a `v1:plain:` envelope; no other scheme yields one. -/
def CredentialSecret.plaintext (c : CredentialSecret) : Option String := stripPrefix "v1:plain:" c.secret

/-! ## The token ledger -/

/-- Token counts by pricing tier. -/
structure TierTokens where
  input : Nat
  output : Nat
  cacheRead : Nat
  cacheWrite : Nat
  deriving DecidableEq, Repr

namespace TierTokens

def zero : TierTokens := ⟨0, 0, 0, 0⟩

instance : Inhabited TierTokens := ⟨zero⟩

def isZero (t : TierTokens) : Bool :=
  t.input == 0 && t.output == 0 && t.cacheRead == 0 && t.cacheWrite == 0

def total (t : TierTokens) : Nat := satAdd (satAdd (satAdd t.input t.output) t.cacheRead) t.cacheWrite

end TierTokens

structure ModelTokens where
  model : String
  tokens : TierTokens
  deriving DecidableEq, Repr

structure UsageLedger where
  requests : Nat
  billableRequests : Nat
  models : List ModelTokens
  deriving DecidableEq, Repr

def UsageLedger.default : UsageLedger := ⟨0, 0, []⟩

def UsageLedger.tokensFor (u : UsageLedger) (model : String) : Option TierTokens :=
  (u.models.find? (fun m => m.model = model)).map ModelTokens.tokens

structure TierTokensDelta where
  input : Int
  output : Int
  cacheRead : Int
  cacheWrite : Int
  deriving DecidableEq, Repr

def TierTokensDelta.isZero (t : TierTokensDelta) : Bool :=
  t.input == 0 && t.output == 0 && t.cacheRead == 0 && t.cacheWrite == 0

structure ModelTokensDelta where
  model : String
  tokens : TierTokensDelta
  deriving DecidableEq, Repr

structure UsageDelta where
  requests : Int
  billableRequests : Int
  models : List ModelTokensDelta
  deriving DecidableEq, Repr

def UsageDelta.isZero (d : UsageDelta) : Bool :=
  d.requests == 0 && d.billableRequests == 0 && d.models.all (fun m => m.tokens.isZero)

def TierTokens.addSigned (t : TierTokens) (d : TierTokensDelta) : TierTokens where
  input := satAddSigned t.input d.input
  output := satAddSigned t.output d.output
  cacheRead := satAddSigned t.cacheRead d.cacheRead
  cacheWrite := satAddSigned t.cacheWrite d.cacheWrite

/-- Accumulate into the first entry of the model, or into a new entry at the end. -/
def applyModelDelta (models : List ModelTokens) (delta : ModelTokensDelta) : List ModelTokens :=
  match models with
  | [] => [⟨delta.model, TierTokens.zero.addSigned delta.tokens⟩]
  | m :: ms =>
    if m.model = delta.model then ⟨m.model, m.tokens.addSigned delta.tokens⟩ :: ms
    else m :: applyModelDelta ms delta

def UsageLedger.applyDelta (u : UsageLedger) (delta : UsageDelta) : UsageLedger where
  requests := satAddSigned u.requests delta.requests
  billableRequests := satAddSigned u.billableRequests delta.billableRequests
  models := delta.models.foldl applyModelDelta u.models

end Busbar
