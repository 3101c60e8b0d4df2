import Busbar.Admin.Audit
import Busbar.Admin.KeyCap

/-!
# The idempotent mint

`POST /keys` under an `Idempotency-Key`. A request reserves its slot of the cache as it comes in, validates, hands
its mint to a task that nothing cancels, and answers when that has landed; the client may go away in between, and
each call that the mint makes to the store may fail, before or after it took effect.

* `validate`: what a body must satisfy, and the spec and expiry it mints with.
* `GovState.mintUnder`: the mint's section under failing store calls; `mintUnder_sound` is the one where none fails.
* `MintServer.step`: the events of a server on which mints are under way.
-/

namespace Busbar

structure CreateKeyReq where
  name : String
  group : Option String
  parent : Option String
  allowedPools : Option (List String)
  labels : List (String × String)
  expiresIn : Option String
  expiresAt : Option Nat
  issueAwsCredential : Bool

inductive AdminError where
  | notFound (what : String)
  | validation (msg : String)
  | versionConflict (msg : String)
  | conflict (msg : String)
  | internal
  deriving DecidableEq, Repr

/-! ## Validation -/

def defaultKeyTtlSecs : Nat := 90 * 86400

def maxKeyNameLen : Nat := 256

def reservedMetricLabels : List String := ["key", "bucket", "model", "tier"]

def maxLabelCount : Nat := 16

def maxLabelNameLen : Nat := 64

def maxLabelValueLen : Nat := 256

/-- `^[a-zA-Z_][a-zA-Z0-9_]*$`. -/
def isValidLabelName (name : String) : Bool :=
  match name.toList with
  | [] => false
  | c :: cs => (c == '_' || c.isAlpha) && cs.all (fun c => c == '_' || c.isAlphanum)

def validateLabel (name value : String) : Except String Unit :=
  if reservedMetricLabels.contains name then
    .error ("label name '" ++ name ++ "' is reserved (busbar attaches it to metric series); reserved names are "
      ++ "[\"key\", \"bucket\", \"model\", \"tier\"]")
  else if maxLabelNameLen < name.utf8ByteSize then
    .error ("label name is " ++ toString name.utf8ByteSize ++ " chars; must be <= " ++ toString maxLabelNameLen)
  else if !isValidLabelName name then
    .error ("label name '" ++ name ++ "' is not a valid Prometheus label name (must match "
      ++ "^[a-zA-Z_][a-zA-Z0-9_]*$)")
  else if maxLabelValueLen < value.utf8ByteSize then
    .error ("label '" ++ name ++ "' value is " ++ toString value.utf8ByteSize ++ " chars; must be <= "
      ++ toString maxLabelValueLen)
  else .ok ()

/-- The first label that fails decides, in the map's order. -/
def validateMintLabels (labels : List (String × String)) : Except String Unit :=
  if maxLabelCount < labels.length then
    .error ("too many labels: " ++ toString labels.length ++ " (max " ++ toString maxLabelCount ++ ")")
  else labels.forM (fun e => validateLabel e.1 e.2)

/-- The multiplier of a duration unit. -/
def unitSecs : String → Option Nat
  | "s" => some 1
  | "m" => some 60
  | "h" => some 3600
  | "d" => some 86400
  | _ => none

/-- `<n><unit>`, ten years at most. -/
def parseDurationSecs (s : String) : Except String Nat :=
  let s := trim s
  let num := String.ofList (s.toList.takeWhile Char.isDigit)
  let unit := s.toList.dropWhile Char.isDigit
  if unit = [] then .error "duration needs a unit (s|m|h|d), e.g. 7d"
  else
    match parseU64 num with
    | none => .error ("invalid duration '" ++ s ++ "': expected <number><s|m|h|d>")
    | some n =>
      match unitSecs (String.ofList unit) with
      | none => .error ("invalid duration unit '" ++ String.ofList unit ++ "': use s|m|h|d")
      | some mult =>
        if 2 ^ 64 ≤ n * mult ∨ 10 * 365 * 86400 < n * mult then .error "duration is too large (max 10 years)"
        else .ok (n * mult)

/-- The token's expiry. -/
def resolveExpiry (now : Nat) : Option String → Option Nat → Except String Nat
  | some _, some _ => .error "expires_in and expires_at are mutually exclusive; set at most one"
  | some dur, none => (parseDurationSecs dur).map (satAdd now)
  | none, some expiresAt => if expiresAt ≤ now then .error "expires_at is in the past" else .ok expiresAt
  | none, none => .ok (satAdd now defaultKeyTtlSecs)

/-- A validated request: what the mint's section is handed. -/
structure MintOrder where
  spec : NewKeySpec
  exp : Nat
  now : Nat
  issueAws : Bool

def noSigningKey : String :=
  "signed-token minting is unavailable: no signing key is configured (set auth.signing_key - busbar no longer "
    ++ "auto-generates one; run " ++ "`busbar --generate-signing-key`)"

def parentWithoutGroup : String :=
  "`parent` was given without `group`; `parent` names the group to auto-provision `group` under, so `group` is "
    ++ "required with it"

/-- From the body, none if it does not parse, to the order or the refusal. -/
def validate (signingEnabled : Bool) (now : Nat) (body : Option CreateKeyReq) : Except AdminError MintOrder :=
  match body with
  | none => .error (.validation "invalid JSON")
  | some req =>
    if maxKeyNameLen < req.name.utf8ByteSize then .error (.validation "name must be <= 256 characters")
    else
      match validateMintLabels req.labels with
      | .error msg => .error (.validation msg)
      | .ok () =>
        if !signingEnabled then .error (.conflict noSigningKey)
        else
          match resolveExpiry now req.expiresIn req.expiresAt with
          | .error msg => .error (.validation msg)
          | .ok exp =>
            if req.group.isNone && req.parent.isSome then .error (.validation parentWithoutGroup)
            else .ok
              { spec := { name := req.name, allowedPools := req.allowedPools, group := req.group, labels := req.labels }
                exp := exp, now := now, issueAws := req.issueAwsCredential }

/-! ## The section under failing store calls -/

/-- How each store call of a mint ends. A call that is not reached counts as `ok`. -/
structure MintFaults where
  count : Audit.Call
  put : Audit.Call
  listKeys : Audit.Call
  listCredentials : Audit.Call
  deriving DecidableEq

def MintFaults.none : MintFaults := ⟨.ok, .ok, .ok, .ok⟩

/-- No call fails that put the key's row in the store, and none after it. -/
def MintFaults.clean (f : MintFaults) : Bool :=
  f.put != .lostAck && (f.put != .ok || (f.listKeys == .ok && f.listCredentials == .ok))

namespace GovState

open Prog

def storeUnavailable : StoreError := "store unavailable"

/-- A store call and its outcome. -/
def storeCall {α : Type} (call : Audit.Call) (p : Gov α) : Gov α :=
  match call with
  | .ok => p
  | .failed => .throw storeUnavailable
  | .lostAck => do
    let _ ← p.result
    .throw storeUnavailable

def checkKeyCapUnder (f : MintFaults) (cap : Nat) (group excludeId : Option String) : Gov (Option (String × Nat)) :=
  if cap = 0 then pure none
  else do
    let rows ← storeCall f.count (.read (fun s => s.store.listKeys))
    let n ← .read (fun s => (rows.filter (countsFor s group excludeId)).length)
    pure (if cap ≤ n then some (group.getD unboundBucketLabel, n) else none)

def refreshUnder (f : MintFaults) : Gov Unit := holdingRefreshLock do
  let rows ← storeCall f.listKeys (.read (fun s => s.store.listKeys))
  let fresh := load rows
  let freshCred ← storeCall f.listCredentials
    (.read (fun s => loadByCredential fresh (s.store.listCredentialsSince 0) s.store.clock))
  .modify (fun s => { s with caches := ⟨fresh, freshCred⟩ })

def mintSignedUnder (f : MintFaults) (cr : TokenCrypto) (spec : NewKeySpec) (exp now : Nat) (raw : Bytes)
    (generation : String) : Gov (VirtualKey × String) := do
  let material ← signingMaterial
  match material with
  | none => .throw mintingUnavailable
  | some signer =>
    let id := vkIdPrefix ++ hexEncode raw
    let binding : VirtualKey :=
      { id := id, generationHash := bindingMarker id generation, name := spec.name
        allowedScopes := poolScopes spec.allowedPools, enabled := true, createdAt := now
        group := spec.group, labels := spec.labels, expiresAt := none, deletedAt := none, revision := 0 }
    storeCall f.put (storePutKey binding)
    refreshUnder f
    pure (binding, signer.mint cr id exp (some generation))

def mintSignedWithAwsUnder (f : MintFaults) (cr : TokenCrypto) (spec : NewKeySpec) (exp now : Nat) (raw : Bytes)
    (generation accessKeyId secretAccessKey : String) (credRaw : Bytes) :
    Gov (VirtualKey × String × String × String) := do
  let material ← signingMaterial
  match material with
  | none => .throw mintingUnavailable
  | some signer =>
    let id := vkIdPrefix ++ hexEncode raw
    let credId := "cred_" ++ hexEncode credRaw
    let binding : VirtualKey :=
      { id := id, generationHash := bindingMarker id generation, name := spec.name
        allowedScopes := poolScopes spec.allowedPools, enabled := true, createdAt := now
        group := spec.group, labels := spec.labels, expiresAt := none, deletedAt := none, revision := 0 }
    let secret : CredentialSecret :=
      { metadata :=
          { id := credId, keyId := id, kind := "sigv4", slot := 0, publicId := accessKeyId
            secretForm := .recoverable, createdAt := now, updatedAt := now, expiresAt := none
            revokedAt := none, revokeReason := none, revision := 0 }
        secret := "v1:plain:" ++ secretAccessKey }
    storeCall f.put (storePutKeyWithCredential binding secret)
    refreshUnder f
    pure (binding, signer.mint cr id exp (some generation), accessKeyId, secretAccessKey)

def mintUnder (f : MintFaults) (cr : TokenCrypto) (cap : Nat) (order : MintOrder) (draws : MintDraws) :
    Gov MintOutcome := do
  let full ← checkKeyCapUnder f cap order.spec.group none
  match full with
  | some (group, n) => pure (.atCap group n cap)
  | none =>
    if order.issueAws then do
      let m ← mintSignedWithAwsUnder f cr order.spec order.exp order.now draws.raw draws.generation draws.accessKeyId
        draws.secretAccessKey draws.credRaw
      pure (.aws m.1 m.2.1 m.2.2.1 m.2.2.2)
    else do
      let m ← mintSignedUnder f cr order.spec order.exp order.now draws.raw draws.generation
      pure (.bearer m.1 m.2)

/-- With no fault this is the section of a store that never fails. -/
theorem mintUnder_sound (cr : TokenCrypto) (cap : Nat) (order : MintOrder) (draws : MintDraws) :
    mintUnder .none cr cap order draws = mintSection cr cap order.spec order.exp order.now order.issueAws draws := rfl

end GovState

/-! ## The server -/

/-- The body of a 201: the key's metadata, and what is shown once. -/
structure KeyBody where
  key : VirtualKey
  state : String
  token : String
  expiresAt : Nat
  groupProvisioned : Bool
  aws : Option (String × String)
  deriving DecidableEq

inductive MintResponse where
  | created (body : KeyBody)
  | refused (e : AdminError)
  deriving DecidableEq

/-- How far a request is. Up to `reserved` its drop frees the slot; `inFlight` has been handed to the task that
nothing cancels, and `abandoned` is that task after the client has gone. -/
inductive Phase where
  | reserved (body : Option CreateKeyReq)
  | inFlight (order : MintOrder)
  | abandoned (order : MintOrder)
  | landed (order : MintOrder) (outcome : Except AdminError (MintOutcome × Bool))
  | ended

/-- A principal and its `Idempotency-Key`. -/
abbrev IdemKey := String × String

structure MintRequest where
  idem : Option IdemKey
  phase : Phase

/-- `rows` tells the rows that mints have created, and `answers` the responses, each with the slot it was for. -/
structure MintServer where
  gov : GovState
  cache : Table IdemKey (Nat × Option KeyBody)
  clock : Nat
  requests : List MintRequest
  rows : List (Option IdemKey × String)
  answers : List (Option IdemKey × MintResponse)

inductive MintEvent where
  | tick (secs : Nat)
  /-- Other operations change the governance state. -/
  | other (gov : GovState)
  | arrive (actor : String) (header : Option String) (body : Option CreateKeyReq)
  | check (i : Nat)
  /-- The request's section: `plan` is what resolving and persisting its group comes to. -/
  | transact (i : Nat) (plan : Except AdminError Bool) (cap : Nat) (draws : MintDraws) (faults : MintFaults)
  | finish (i : Nat)
  | disconnect (i : Nat)

def idempotencyTtlSecs : Nat := 600

def inFlightMsg : String := "a request with this Idempotency-Key is already in flight"

def atCapMsg (group : String) (n cap : Nat) : String :=
  "group '" ++ group ++ "' already has " ++ toString n ++ " live key(s), at the `limits.max_keys_per_principal` cap of "
    ++ toString cap ++ "; revoke or delete an existing key before minting another"

/-- The slot of a request: none without a usable header. -/
def idemKey (actor : String) (header : Option String) : Option IdemKey :=
  (header.filter (fun h => h ≠ "")).map (fun h => (actor, h))

/-- Free a slot that holds no response yet. -/
def clearSentinel (cache : Table IdemKey (Nat × Option KeyBody)) (ck : IdemKey) :
    Table IdemKey (Nat × Option KeyBody) :=
  match cache.lookup ck with
  | some (_, none) => Registry.erase ck cache
  | _ => cache

/-- A row is there that was not. -/
def created (before after : GovState) (id : String) : Bool :=
  (before.store.live id).isNone && (after.store.live id).isSome

/-- The body of a minted key. -/
def keyBody (order : MintOrder) (provisioned : Bool) : MintOutcome → Except AdminError KeyBody
  | .bearer key token => .ok ⟨key, "active", token, order.exp, provisioned, none⟩
  | .aws key token akid sak => .ok ⟨key, "active", token, order.exp, provisioned, some (akid, sak)⟩
  | .atCap group n cap => .error (.conflict (atCapMsg group n cap))

namespace MintServer

/-- Where a server starts: nothing cached, nothing under way. -/
def start (gov : GovState) (clock : Nat) : MintServer := ⟨gov, Registry.empty, clock, [], [], []⟩

variable (cr : TokenCrypto) (s : MintServer)

/-- The request `i` is now in this phase. -/
def moved (i : Nat) (r : MintRequest) (phase : Phase) : MintServer :=
  { s with requests := s.requests.set i { r with phase := phase } }

/-- Free the request's slot and answer with the refusal. -/
def refuse (i : Nat) (r : MintRequest) (e : AdminError) : MintServer :=
  { s with
    requests := s.requests.set i { r with phase := .ended }
    cache := r.idem.elim s.cache (clearSentinel s.cache)
    answers := s.answers ++ [(r.idem, .refused e)] }

def arrive (actor : String) (header : Option String) (body : Option CreateKeyReq) : MintServer :=
  match idemKey actor header with
  | none => { s with requests := s.requests ++ [⟨none, .reserved body⟩] }
  | some ck =>
    let cache := Registry.retain (fun e => decide (s.clock - e.2.1 < idempotencyTtlSecs)) s.cache
    match Table.lookup cache ck with
    | some (_, some cached) => { s with cache := cache, answers := s.answers ++ [(some ck, .created cached)] }
    | some (_, none) =>
      { s with cache := cache, answers := s.answers ++ [(some ck, .refused (.conflict inFlightMsg))] }
    | none =>
      { s with
        cache := Table.insert ck (s.clock, none) cache
        requests := s.requests ++ [⟨some ck, .reserved body⟩] }

def check (i : Nat) (r : MintRequest) (body : Option CreateKeyReq) : MintServer :=
  match validate s.gov.signing.isSome s.clock body with
  | .error e => s.refuse i r e
  | .ok order => s.moved i r (.inFlight order)

def transact (i : Nat) (r : MintRequest) (order : MintOrder) (gone : Bool) (plan : Except AdminError Bool)
    (cap : Nat) (draws : MintDraws) (faults : MintFaults) : MintServer :=
  match plan with
  | .error e => s.moved i r (if gone then .ended else .landed order (.error e))
  | .ok provisioned =>
    let ran := (GovState.mintUnder faults cr cap order draws).run s.gov
    let outcome := match ran.1 with
      | .ok minted => .ok (minted, provisioned)
      | .error _ => .error .internal
    let id := vkIdPrefix ++ hexEncode draws.raw
    { s.moved i r (if gone then .ended else .landed order outcome) with
      gov := ran.2
      rows := if created s.gov ran.2 id then s.rows ++ [(r.idem, id)] else s.rows }

def finish (i : Nat) (r : MintRequest) (order : MintOrder) (outcome : Except AdminError (MintOutcome × Bool)) :
    MintServer :=
  match outcome.bind (fun m => keyBody order m.2 m.1) with
  | .error e => s.refuse i r e
  | .ok body =>
    { s with
      requests := s.requests.set i { r with phase := .ended }
      cache := r.idem.elim s.cache (fun ck => s.cache.insert ck (s.clock, some body))
      answers := s.answers ++ [(r.idem, .created body)] }

/-- The handler's future is dropped. -/
def disconnect (i : Nat) (r : MintRequest) : MintServer :=
  match r.phase with
  | .reserved _ =>
    { s.moved i r .ended with cache := r.idem.elim s.cache (clearSentinel s.cache) }
  | .inFlight order => s.moved i r (.abandoned order)
  | .landed _ _ => s.moved i r .ended
  | _ => s

def step : MintEvent → MintServer
  | .tick secs => { s with clock := s.clock + secs }
  | .other gov => { s with gov := gov }
  | .arrive actor header body => s.arrive actor header body
  | .check i =>
    match s.requests[i]? with
    | some r => match r.phase with
      | .reserved body => s.check i r body
      | _ => s
    | none => s
  | .transact i plan cap draws faults =>
    match s.requests[i]? with
    | some r => match r.phase with
      | .inFlight order => s.transact cr i r order false plan cap draws faults
      | .abandoned order => s.transact cr i r order true plan cap draws faults
      | _ => s
    | none => s
  | .finish i =>
    match s.requests[i]? with
    | some r => match r.phase with
      | .landed order outcome => s.finish i r order outcome
      | _ => s
    | none => s
  | .disconnect i =>
    match s.requests[i]? with
    | some r => s.disconnect i r
    | none => s

def after (gov : GovState) (clock : Nat) (events : List MintEvent) : MintServer :=
  Run.exec (step cr) (start gov clock) events

end MintServer

end Busbar
