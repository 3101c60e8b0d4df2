import Busbar.Api.Store
import Busbar.Lib.Registry
import Mathlib.Data.Finset.Basic
import Mathlib.Data.List.Sort

/-!
# The in-memory store

The default backend: rows by id, with the tombstone rule of `put_key`, the cascade of `delete_key`, and
the amortized retention sweeps. `clock` is the wall clock the sweeps and tombstones read.

* `getKey_putKey`: a write is found again, and it disturbs another row only by sweeping a tombstone.
* `getKey_deleteKey`: a deletion tombstones its row and leaves every other row alone.
-/

namespace Busbar

/-- Retention ceiling of swept rows: 31 days. -/
def maxRetentionSecs : Nat := 31 * 86400

/-- One sweep per this many writes. -/
def sweepInterval : Nat := 256

structure MemoryStore where
  keys : Registry VirtualKey.id
  creds : Registry (fun c : CredentialSecret => c.metadata.id)
  usage : Table (String × Nat) UsageLedger
  denylist : Finset String
  usageSweepTicker : Nat
  keysSweepTicker : Nat
  credsSweepTicker : Nat
  revision : Nat
  clock : Nat

namespace MemoryStore

def new : MemoryStore where
  keys := Registry.empty
  creds := Registry.empty
  usage := Registry.empty
  denylist := ∅
  usageSweepTicker := 0
  keysSweepTicker := 0
  credsSweepTicker := 0
  revision := 0
  clock := 0

/-- Whether the sweep of `put_key` keeps a row: live rows always, tombstones for the retention time. -/
def keepKey (now : Nat) (k : VirtualKey) : Bool :=
  match k.deletedAt with
  | none => true
  | some deletedAt => now < satAdd deletedAt maxRetentionSecs

def keepCred (now : Nat) (c : CredentialSecret) : Bool :=
  match c.metadata.revokedAt with
  | none => true
  | some revokedAt => now < satAdd revokedAt maxRetentionSecs

/-- The row under the id is tombstoned. -/
def tombstoned (s : MemoryStore) (id : String) : Bool := (s.keys.get id).any (fun k => k.deletedAt.isSome)

def putKey (s : MemoryStore) (key : VirtualKey) : StoreResult MemoryStore :=
  if key.deletedAt.isNone && s.tombstoned key.id then
    .error ("put_key: '" ++ key.id ++ "' is tombstoned and its id is never reissued; refusing to "
      ++ "clear the tombstone")
  else
    let revision := s.revision + 1
    let keys := s.keys.put { key with revision := revision }
    let ticker := s.keysSweepTicker + 1
    -- the ticker wraps at 2^64, a multiple of the interval, so the unbounded count sweeps alike
    let keys := if ticker % sweepInterval = 0 then keys.retain (keepKey s.clock) else keys
    .ok { s with keys := keys, revision := revision, keysSweepTicker := ticker }

def getKey (s : MemoryStore) (id : String) : Option VirtualKey := s.keys.get id

/-- Every row, tombstones included, oldest first. -/
def listKeys (s : MemoryStore) : List VirtualKey :=
  s.keys.rows.insertionSort (fun a b => a.createdAt ≤ b.createdAt)

def deleteKey (s : MemoryStore) (id : String) : StoreResult MemoryStore :=
  match s.keys.get id with
  | none => .error ("delete_key: unknown id '" ++ id ++ "'")
  | some key =>
    if key.deletedAt.isSome then .ok s
    else
      let revision := s.revision + 1
      .ok { s with
        keys := s.keys.put { key with enabled := false, deletedAt := some s.clock, revision := revision }
        usage := s.usage.retain (fun r => r.1.1 ≠ id)
        creds := s.creds.retain (fun c => c.metadata.keyId ≠ id)
        revision := revision }

/-- Personal data goes, of a tombstoned row only. -/
def scrubKey (s : MemoryStore) (id : String) : StoreResult MemoryStore :=
  match s.keys.get id with
  | none => .error ("scrub_key: unknown key '" ++ id ++ "'")
  | some key =>
    if key.deletedAt.isNone then .error ("scrub_key: '" ++ id ++ "' is not tombstoned — delete it first")
    else
      let revision := s.revision + 1
      .ok { s with keys := s.keys.put { key with name := "", labels := [], revision := revision }, revision := revision }

def getUsage (s : MemoryStore) (bucketId : String) (windowStart : Nat) : UsageLedger :=
  (s.usage.lookup (bucketId, windowStart)).getD UsageLedger.default

def addUsage (s : MemoryStore) (bucketId : String) (windowStart : Nat) (delta : UsageDelta) : MemoryStore :=
  let usage := s.usage.insert (bucketId, windowStart) ((s.getUsage bucketId windowStart).applyDelta delta)
  let ticker := s.usageSweepTicker + 1
  let usage :=
    if ticker % sweepInterval = 0 then
      Registry.retain (fun r => decide (s.clock < satAdd r.1.2 maxRetentionSecs)) usage
    else usage
  { s with usage := usage, usageSweepTicker := ticker }

def putCredential (s : MemoryStore) (secret : CredentialSecret) : StoreResult MemoryStore :=
  if s.creds.rows.any (fun c => c.metadata.id != secret.metadata.id
      && c.metadata.keyId == secret.metadata.keyId && c.metadata.kind == secret.metadata.kind
      && c.metadata.slot == secret.metadata.slot && c.metadata.revokedAt.isNone) then
    .error ("put_credential: slot " ++ toString secret.metadata.slot ++ " for key '"
      ++ secret.metadata.keyId ++ "' kind '" ++ secret.metadata.kind
      ++ "' holds a live credential; revoke it first")
  else if s.creds.rows.any (fun c => c.metadata.id != secret.metadata.id
      && c.metadata.kind == secret.metadata.kind && c.metadata.publicId == secret.metadata.publicId) then
    .error ("put_credential: public_id '" ++ secret.metadata.publicId ++ "' is already in use for kind '"
      ++ secret.metadata.kind ++ "'")
  else
    let revision := s.revision + 1
    let creds := s.creds.put { secret with metadata := { secret.metadata with revision := revision } }
    let ticker := s.credsSweepTicker + 1
    let creds := if ticker % sweepInterval = 0 then creds.retain (keepCred s.clock) else creds
    .ok { s with creds := creds, revision := revision, credsSweepTicker := ticker }

def listCredentials (s : MemoryStore) (keyId : String) : List CredentialMeta :=
  (s.creds.rows.filter (fun c => c.metadata.keyId == keyId)).map CredentialSecret.metadata

def revokeCredential (s : MemoryStore) (id reason : String) : StoreResult MemoryStore :=
  match s.creds.get id with
  | none => .error ("revoke_credential: unknown id '" ++ id ++ "'")
  | some c =>
    if c.metadata.revokedAt.isNone then
      let revision := s.revision + 1
      .ok { s with
        creds := s.creds.put { c with metadata := { c.metadata with
          revokedAt := some s.clock, revokeReason := some reason, revision := revision } }
        revision := revision }
    else .ok s

def listCredentialsSince (s : MemoryStore) (since : Nat) : List CredentialSecret :=
  s.creds.rows.filter (fun c => since < c.metadata.revision)

def addDenylist (s : MemoryStore) (sub : String) : MemoryStore := { s with denylist := insert sub s.denylist }

/-! ## What a row lookup sees after a write -/

theorem any_getKey (s : MemoryStore) (id : String) :
    (s.getKey id).any (fun k => k.deletedAt.isSome) = s.tombstoned id := rfl

/-- The live row under an id. -/
def live (s : MemoryStore) (id : String) : Option VirtualKey :=
  (s.keys.get id).filter (fun k => k.deletedAt.isNone)

theorem live_eq_some {s : MemoryStore} {id : String} {k : VirtualKey} :
    s.live id = some k ↔ s.keys.get id = some k ∧ k.deletedAt = none := by
  simp [live, Option.filter_eq_some_iff]

theorem live_id {s : MemoryStore} {id : String} {k : VirtualKey} (h : s.live id = some k) : k.id = id :=
  Registry.key_of_get (live_eq_some.1 h).1

theorem not_tombstoned_of_live {s : MemoryStore} {id : String} {k : VirtualKey} (h : s.live id = some k) :
    s.tombstoned id = false := by
  obtain ⟨hg, hd⟩ := live_eq_some.1 h
  simp [tombstoned, hg, hd]

/-- A live-shaped write succeeds unless the id is tombstoned. -/
theorem putKey_isOk {s : MemoryStore} (key : VirtualKey) (ht : s.tombstoned key.id = false) :
    ∃ s', s.putKey key = .ok s' := by
  unfold putKey
  rw [if_neg (by simp [ht])]
  exact ⟨_, rfl⟩

/-- **What `putKey` does.** The row is filed with the next revision; a sweep may drop tombstones, and
nothing else of the store moves. -/
theorem putKey_ok {s s' : MemoryStore} {key : VirtualKey} (h : s.putKey key = .ok s') :
    (key.deletedAt = none → s.tombstoned key.id = false) ∧ s'.creds = s.creds ∧ s'.denylist = s.denylist ∧
      s'.usage = s.usage ∧ s'.clock = s.clock ∧ ∃ keep : VirtualKey → Bool,
        (∀ k, k.deletedAt = none → keep k = true) ∧
        s'.keys = (s.keys.put { key with revision := s.revision + 1 }).retain keep := by
  unfold putKey at h
  split at h
  · cases h
  · rename_i hc
    have ht : key.deletedAt = none → s.tombstoned key.id = false := by
      intro hd; simpa [hd] using hc
    cases h
    refine ⟨ht, rfl, rfl, rfl, rfl, ?_⟩
    by_cases hs : (s.keysSweepTicker + 1) % sweepInterval = 0
    · refine ⟨keepKey s.clock, fun k hk => by simp [keepKey, hk], ?_⟩
      simp [hs]
    · refine ⟨fun _ => true, fun _ _ => rfl, ?_⟩
      simp [hs, Registry.retain]

theorem live_putKey {s s' : MemoryStore} {key : VirtualKey} (h : s.putKey key = .ok s')
    (hd : key.deletedAt = none) (id : String) :
    s'.live id = if key.id = id then some { key with revision := s.revision + 1 } else s.live id := by
  obtain ⟨-, -, -, -, -, keep, hkeep, hkeys⟩ := putKey_ok h
  have hpres : ∀ o : Option VirtualKey, (o.filter keep).filter (fun k => k.deletedAt.isNone)
      = o.filter (fun k => k.deletedAt.isNone) := by
    intro o
    cases o with
    | none => rfl
    | some k =>
      by_cases hk : k.deletedAt = none
      · simp [Option.filter_some, hkeep k hk, hk]
      · by_cases hb : keep k = true <;> simp [Option.filter_some, hb, hk]
  rw [live, hkeys, Registry.get_retain, hpres, Registry.get_put]
  by_cases he : key.id = id
  · simp [he, hd]
  · simp [he, live]

/-- A deletion of a row that is live succeeds, tombstones it and leaves every other row alone. -/
theorem deleteKey_live {s : MemoryStore} {id : String} {k : VirtualKey} (hk : s.live id = some k) :
    ∃ s', s.deleteKey id = .ok s' := by
  obtain ⟨hg, hd⟩ := live_eq_some.1 hk
  simp [deleteKey, hg, hd]

theorem deleteKey_ok {s s' : MemoryStore} {id : String} (h : s.deleteKey id = .ok s') :
    s'.denylist = s.denylist ∧ s'.clock = s.clock ∧
      ∀ id', s'.live id' = if id = id' then none else s.live id' := by
  unfold deleteKey at h
  split at h
  · cases h
  · rename_i key hg
    split at h
    · rename_i hd
      cases h
      refine ⟨rfl, rfl, fun id' => ?_⟩
      by_cases he : id = id'
      · subst he
        obtain ⟨d, hd'⟩ := Option.isSome_iff_exists.1 hd
        simp [live, hg, hd']
      · simp [he]
    · cases h
      refine ⟨rfl, rfl, fun id' => ?_⟩
      have hid : key.id = id := Registry.key_of_get hg
      rw [live, Registry.get_put]
      by_cases he : id = id'
      · simp [he, hid]
      · simp [he, hid, live]

theorem putCredential_keys {s s' : MemoryStore} {secret : CredentialSecret} (h : s.putCredential secret = .ok s') :
    s'.keys = s.keys := by
  unfold putCredential at h
  split at h
  · cases h
  · split at h
    · cases h
    · cases h
      rfl

/-- A row after a store call whose sweep spares it. -/
theorem getUsage_addUsage {st : MemoryStore} {W : Nat}
    (hs : (st.usageSweepTicker + 1) % sweepInterval = 0 → st.clock < satAdd W maxRetentionSecs)
    (id bucketId : String) (window : Nat) (d : UsageDelta) :
    (st.addUsage bucketId window d).getUsage id W =
      if bucketId = id ∧ window = W then (st.getUsage id W).applyDelta d else st.getUsage id W := by
  obtain ⟨T, hT⟩ : ∃ T, T = st.usage.insert (bucketId, window)
      ((st.getUsage bucketId window).applyDelta d) := ⟨_, rfl⟩
  have hins : (T.lookup (id, W)).getD UsageLedger.default =
      if bucketId = id ∧ window = W then (st.getUsage id W).applyDelta d else st.getUsage id W := by
    rw [hT, Table.lookup_insert]
    by_cases h : bucketId = id ∧ window = W
    · rw [if_pos (Prod.ext h.1 h.2), if_pos h, h.1, h.2]
      rfl
    · have hne : ¬ (bucketId, window) = (id, W) := fun e => h ⟨(Prod.mk.inj e).1, (Prod.mk.inj e).2⟩
      rw [if_neg hne, if_neg h]
      rfl
  have husage : (st.addUsage bucketId window d).usage =
      if (st.usageSweepTicker + 1) % sweepInterval = 0 then
        Registry.retain (fun r => decide (st.clock < satAdd r.1.2 maxRetentionSecs)) T
      else T := by
    rw [hT]
    rfl
  rw [← hins]
  show ((st.addUsage bucketId window d).usage.lookup (id, W)).getD _ = _
  rw [husage]
  split
  · rename_i hdue
    rw [Table.lookup_retain]
    rcases T.lookup (id, W) with _ | u
    · rfl
    · simp [Option.filter_some, hs hdue]
  · rfl

theorem mem_listKeys {s : MemoryStore} {k : VirtualKey} : k ∈ s.listKeys ↔ k ∈ s.keys.rows := by
  simp [listKeys]

theorem nodup_listKeys (s : MemoryStore) : (s.listKeys.map VirtualKey.id).Nodup :=
  ((List.perm_insertionSort _ _).map _).nodup_iff.2 s.keys.nodup

end MemoryStore

end Busbar
