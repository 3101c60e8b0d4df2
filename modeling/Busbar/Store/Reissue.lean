import Busbar.Store.Memory
import Busbar.Lib.Run

/-!
# The store over whole runs

Writes, deletions and sweeps in any order and at any times. A write takes the next revision; a sweep drops
tombstones and revoked credentials of a certain age. The tombstone is what refuses to give an id away again, so a
swept one no longer does.

* `StoreRun.step`: one call; the run remembers which row was written last.
* `RowWritten`: what a call that writes does to the revisions.
* `StoreRun.Numbered`, `MemoryStore.Unique`: the invariants of every run.
* `ids_stay_dead`: a tombstone guards its id as long as it stands, and only a sweep takes it away.
* `swept_id_reissued`: an id is given away again after 31 days.
-/

namespace Busbar

open Run

/-- A row of one of the two tables that share the revisions. -/
inductive RowId where
  | key (id : String)
  | cred (id : String)
  deriving DecidableEq, Repr

inductive StoreOp where
  | putKey (key : VirtualKey)
  | deleteKey (id : String)
  | scrubKey (id : String)
  | putCredential (secret : CredentialSecret)
  | putKeyWithCredential (key : VirtualKey) (secret : CredentialSecret)
  | revokeCredential (id reason : String)
  | tick (now : Nat)

/-- The key row the call is to write. -/
def StoreOp.key? : StoreOp → Option VirtualKey
  | .putKey key | .putKeyWithCredential key _ => some key
  | .deleteKey _ | .scrubKey _ | .putCredential _ | .revokeCredential _ _ | .tick _ => none

def MemoryStore.revisionAt (s : MemoryStore) : RowId → Option Nat
  | .key id => (s.keys.get id).map VirtualKey.revision
  | .cred id => (s.creds.get id).map fun c => c.metadata.revision

/-- The store with the row written last. -/
structure StoreRun where
  store : MemoryStore
  last : Option RowId

namespace StoreRun

/-- A call that takes no revision has written nothing. -/
def commit (r : StoreRun) (row : RowId) : StoreResult MemoryStore → StoreRun
  | .ok s => ⟨s, if s.revision = r.store.revision then r.last else some row⟩
  | .error _ => r

def step (r : StoreRun) : StoreOp → StoreRun
  | .putKey key => r.commit (.key key.id) (r.store.putKey key)
  | .deleteKey id => r.commit (.key id) (r.store.deleteKey id)
  | .scrubKey id => r.commit (.key id) (r.store.scrubKey id)
  | .putCredential secret => r.commit (.cred secret.metadata.id) (r.store.putCredential secret)
  | .putKeyWithCredential key secret =>
    match r.store.putKey key with
    | .error _ => r
    -- no transaction: the key stays when its credential is refused
    | .ok s => (r.commit (.key key.id) (.ok s)).commit (.cred secret.metadata.id) (s.putCredential secret)
  | .revokeCredential id reason => r.commit (.cred id) (r.store.revokeCredential id reason)
  | .tick now => { r with store := { r.store with clock := now } }

def after (ops : List StoreOp) : StoreRun := exec step ⟨MemoryStore.new, none⟩ ops

theorem after_snoc (ops : List StoreOp) (op : StoreOp) : after (ops ++ [op]) = (after ops).step op :=
  exec_snoc step _ ops op

end StoreRun

/-! ## What a call writes -/

/-- One row is written with the next revision; the others keep theirs or are gone. -/
structure RowWritten (s : MemoryStore) (row : RowId) (s' : MemoryStore) : Prop where
  next : s'.revision = s.revision + 1
  written : ∀ rev, s'.revisionAt row = some rev → rev = s'.revision
  others : ∀ q, q ≠ row → ∀ rev, s'.revisionAt q = some rev → s.revisionAt q = some rev

/-- A row found after a filing and a sweep was filed just now or stood there. -/
theorem Registry.found_after_put {κ α : Type} {key : α → κ} [DecidableEq κ] {R : Registry key} {a b : α}
    {keep : α → Bool} {k : κ} (h : ((R.put a).retain keep).get k = some b) :
    key a = k ∧ b = a ∨ key a ≠ k ∧ R.get k = some b := by
  rw [Registry.get_retain] at h
  have hput := (Option.filter_eq_some_iff.1 h).1
  rw [Registry.get_put] at hput
  by_cases hk : key a = k
  · rw [if_pos hk] at hput
    exact Or.inl ⟨hk, (Option.some.inj hput).symm⟩
  · rw [if_neg hk] at hput
    exact Or.inr ⟨hk, hput⟩

namespace MemoryStore

variable {s s' : MemoryStore}

theorem revisionAt_key {id : String} {rev : Nat} :
    s.revisionAt (.key id) = some rev ↔ ∃ k, s.keys.get id = some k ∧ k.revision = rev :=
  Option.map_eq_some_iff

theorem revisionAt_cred {id : String} {rev : Nat} :
    s.revisionAt (.cred id) = some rev ↔ ∃ c, s.creds.get id = some c ∧ c.metadata.revision = rev :=
  Option.map_eq_some_iff

/-- A key row is filed, then some rows may be swept; of the credentials some may go. -/
theorem writes_key {k : VirtualKey} {keep : VirtualKey → Bool} {keepCreds : CredentialSecret → Bool}
    (hrev : s'.revision = s.revision + 1)
    (hkeys : s'.keys = (s.keys.put { k with revision := s.revision + 1 }).retain keep)
    (hcreds : s'.creds = s.creds.retain keepCreds) : RowWritten s (.key k.id) s' := by
  refine ⟨hrev, fun rev h => ?_, fun q hq rev h => ?_⟩
  · obtain ⟨row, hrow, rfl⟩ := revisionAt_key.1 h
    rw [hkeys] at hrow
    rcases Registry.found_after_put hrow with ⟨-, rfl⟩ | ⟨hne, -⟩
    · exact hrev.symm
    · exact absurd rfl hne
  · cases q with
    | key id =>
      obtain ⟨row, hrow, rfl⟩ := revisionAt_key.1 h
      rw [hkeys] at hrow
      rcases Registry.found_after_put hrow with ⟨hid, -⟩ | ⟨-, hold⟩
      · exact absurd (congrArg RowId.key hid.symm) hq
      · exact revisionAt_key.2 ⟨row, hold, rfl⟩
    | cred id =>
      obtain ⟨row, hrow, rfl⟩ := revisionAt_cred.1 h
      rw [hcreds, Registry.get_retain] at hrow
      exact revisionAt_cred.2 ⟨row, (Option.filter_eq_some_iff.1 hrow).1, rfl⟩

/-- A credential row is filed, then some rows may be swept. -/
theorem writes_cred {c : CredentialSecret} {keep : CredentialSecret → Bool} (hrev : s'.revision = s.revision + 1)
    (hcreds : s'.creds = (s.creds.put { c with metadata := { c.metadata with revision := s.revision + 1 } }).retain keep)
    (hkeys : s'.keys = s.keys) : RowWritten s (.cred c.metadata.id) s' := by
  refine ⟨hrev, fun rev h => ?_, fun q hq rev h => ?_⟩
  · obtain ⟨row, hrow, rfl⟩ := revisionAt_cred.1 h
    rw [hcreds] at hrow
    rcases Registry.found_after_put hrow with ⟨-, rfl⟩ | ⟨hne, -⟩
    · exact hrev.symm
    · exact absurd rfl hne
  · cases q with
    | key id =>
      obtain ⟨row, hrow, rfl⟩ := revisionAt_key.1 h
      rw [hkeys] at hrow
      exact revisionAt_key.2 ⟨row, hrow, rfl⟩
    | cred id =>
      obtain ⟨row, hrow, rfl⟩ := revisionAt_cred.1 h
      rw [hcreds] at hrow
      rcases Registry.found_after_put hrow with ⟨hid, -⟩ | ⟨-, hold⟩
      · exact absurd (congrArg RowId.cred hid.symm) hq
      · exact revisionAt_cred.2 ⟨row, hold, rfl⟩

/-- A registry without a sweep is one whose sweep keeps all. -/
theorem retain_all {κ α : Type} {key : α → κ} (R : Registry key) : R.retain (fun _ => true) = R := by
  simp [Registry.retain]

theorem ite_retain {κ α : Type} {key : α → κ} (R : Registry key) (p : Prop) [Decidable p] (keep : α → Bool) :
    (if p then R.retain keep else R) = R.retain (fun a => if p then keep a else true) := by
  by_cases hp : p
  · simp [hp]
  · simp [hp, retain_all]

theorem putKey_writes {key : VirtualKey} (h : s.putKey key = .ok s') : RowWritten s (.key key.id) s' := by
  unfold putKey at h
  split at h
  · cases h
  · cases h
    exact writes_key rfl (ite_retain _ _ _) (retain_all _).symm

theorem scrubKey_writes {id : String} (h : s.scrubKey id = .ok s') : RowWritten s (.key id) s' := by
  unfold scrubKey at h
  split at h
  · cases h
  rename_i key hkey
  split at h
  · cases h
  · cases h
    cases Registry.key_of_get hkey
    exact writes_key (k := { key with name := "", labels := [] }) rfl (retain_all _).symm (retain_all _).symm

/-- A deletion that finds a tombstone leaves the store alone. -/
theorem deleteKey_writes {id : String} (h : s.deleteKey id = .ok s') : s' = s ∨ RowWritten s (.key id) s' := by
  unfold deleteKey at h
  split at h
  · cases h
  rename_i key hkey
  split at h
  · cases h
    exact Or.inl rfl
  · cases h
    cases Registry.key_of_get hkey
    exact Or.inr (writes_key (k := { key with enabled := false, deletedAt := some s.clock }) rfl
      (retain_all _).symm rfl)

theorem putCredential_writes {secret : CredentialSecret} (h : s.putCredential secret = .ok s') :
    RowWritten s (.cred secret.metadata.id) s' := by
  unfold putCredential at h
  split at h
  · cases h
  split at h
  · cases h
  · cases h
    exact writes_cred rfl (ite_retain _ _ _) rfl

theorem revokeCredential_writes {id reason : String} (h : s.revokeCredential id reason = .ok s') :
    s' = s ∨ RowWritten s (.cred id) s' := by
  unfold revokeCredential at h
  split at h
  · cases h
  rename_i c hc
  split at h
  · cases h
    have hid := Registry.key_of_get hc
    cases hid
    exact Or.inr (writes_cred (c := { c with metadata := { c.metadata with
      revokedAt := some s.clock, revokeReason := some reason } }) rfl (retain_all _).symm rfl)
  · cases h
    exact Or.inl rfl

end MemoryStore

/-! ## The rows' revisions -/

namespace StoreRun

/-- The revisions are those of the counter's past, and the last one is the row's that was written last. -/
def Numbered (r : StoreRun) : Prop :=
  ∀ row rev, r.store.revisionAt row = some rev →
    rev ≤ r.store.revision ∧ (rev = r.store.revision ↔ r.last = some row)

theorem Numbered.commit {r : StoreRun} (h : r.Numbered) {row : RowId} {result : StoreResult MemoryStore}
    (hw : ∀ s, result = .ok s → s = r.store ∨ RowWritten r.store row s) : (r.commit row result).Numbered := by
  cases result with
  | error e => exact h
  | ok s =>
    rcases hw s rfl with rfl | hw
    · unfold StoreRun.commit
      dsimp only
      rw [if_pos rfl]
      exact h
    · have hne : s.revision ≠ r.store.revision := by
        rw [hw.next]
        exact Nat.succ_ne_self _
      unfold StoreRun.commit
      dsimp only
      rw [if_neg hne]
      intro q rev hq
      dsimp only at hq ⊢
      by_cases hrow : q = row
      · subst hrow
        rw [hw.written rev hq]
        exact ⟨le_rfl, iff_of_true rfl rfl⟩
      · obtain ⟨hle, -⟩ := h q rev (hw.others q hrow rev hq)
        have hnext := hw.next
        refine ⟨by omega, iff_of_false (by omega) fun hf => hrow (Option.some.inj hf).symm⟩

theorem step_with_error {r : StoreRun} {key : VirtualKey} {secret : CredentialSecret} {e : String}
    (h : r.store.putKey key = .error e) : r.step (.putKeyWithCredential key secret) = r := by
  simp only [step, h]

theorem step_with_ok {r : StoreRun} {key : VirtualKey} {secret : CredentialSecret} {s : MemoryStore}
    (h : r.store.putKey key = .ok s) :
    r.step (.putKeyWithCredential key secret)
      = (r.commit (.key key.id) (.ok s)).commit (.cred secret.metadata.id) (s.putCredential secret) := by
  simp only [step, h]

theorem Numbered.step {r : StoreRun} (h : r.Numbered) (op : StoreOp) : (r.step op).Numbered := by
  cases op with
  | putKey key => exact h.commit fun s hs => Or.inr (MemoryStore.putKey_writes hs)
  | deleteKey id => exact h.commit fun s hs => MemoryStore.deleteKey_writes hs
  | scrubKey id => exact h.commit fun s hs => Or.inr (MemoryStore.scrubKey_writes hs)
  | putCredential secret => exact h.commit fun s hs => Or.inr (MemoryStore.putCredential_writes hs)
  | revokeCredential id reason => exact h.commit fun s hs => MemoryStore.revokeCredential_writes hs
  | tick now => exact h
  | putKeyWithCredential key secret =>
    cases hput : r.store.putKey key with
    | error e =>
      rw [step_with_error hput]
      exact h
    | ok s =>
      rw [step_with_ok hput]
      have hfirst : (r.commit (.key key.id) (.ok s)).Numbered :=
        h.commit fun s' hs => Or.inr (MemoryStore.putKey_writes (hput.trans hs))
      exact hfirst.commit fun s' hs => Or.inr (MemoryStore.putCredential_writes hs)

theorem after_numbered (ops : List StoreOp) : (after ops).Numbered :=
  exec_invariant step (I := Numbered) (fun _ op h => h.step op) (fun row rev h => by
    have hnone : MemoryStore.new.revisionAt row = none := by cases row <;> rfl
    cases hnone.symm.trans h) ops

end StoreRun

/-! ## Credentials -/

/-- Two credentials differ in their public id, and two that are not revoked in their slot. -/
def CredentialMeta.Apart (c d : CredentialMeta) : Prop :=
  ¬ (c.kind = d.kind ∧ c.publicId = d.publicId) ∧
    (c.revokedAt = none → d.revokedAt = none → ¬ (c.keyId = d.keyId ∧ c.kind = d.kind ∧ c.slot = d.slot))

theorem CredentialMeta.Apart.symm {c d : CredentialMeta} (h : c.Apart d) : d.Apart c :=
  ⟨fun hf => h.1 ⟨hf.1.symm, hf.2.symm⟩,
    fun hd hc hf => h.2 hc hd ⟨hf.1.symm, hf.2.1.symm, hf.2.2.symm⟩⟩

namespace MemoryStore

variable {s s' : MemoryStore}

def Unique (s : MemoryStore) : Prop :=
  ∀ c ∈ s.creds.rows, ∀ d ∈ s.creds.rows, c.metadata.id ≠ d.metadata.id → c.metadata.Apart d.metadata

theorem Unique.of_subset (h : s.Unique) (hsub : ∀ c ∈ s'.creds.rows, c ∈ s.creds.rows) : s'.Unique :=
  fun c hc d hd => h c (hsub c hc) d (hsub d hd)

/-- A credential filed keeps clear of the others. -/
theorem Unique.filed (h : s.Unique) {c : CredentialSecret}
    (hrows : ∀ d ∈ s'.creds.rows, d = c ∨ d ∈ s.creds.rows ∧ d.metadata.id ≠ c.metadata.id)
    (hc : ∀ d ∈ s.creds.rows, d.metadata.id ≠ c.metadata.id → d.metadata.Apart c.metadata) : s'.Unique := by
  intro d hd e he hne
  rcases hrows d hd with rfl | ⟨hd, hdc⟩ <;> rcases hrows e he with rfl | ⟨he, hec⟩
  · exact absurd rfl hne
  · exact (hc e he hec).symm
  · exact hc d hd hdc
  · exact h d hd e he hne

theorem Unique.putCredential (h : s.Unique) {secret : CredentialSecret} (hs : s.putCredential secret = .ok s') :
    s'.Unique := by
  unfold MemoryStore.putCredential at hs
  split at hs
  · cases hs
  rename_i hslot
  split at hs
  · cases hs
  rename_i hpublic
  cases hs
  refine h.filed (c := { secret with metadata := { secret.metadata with revision := s.revision + 1 } }) ?_ ?_
  · intro d hd
    dsimp only at hd
    rw [ite_retain, Registry.mem_rows_retain] at hd
    exact Registry.mem_rows_put.1 hd.1
  · intro d hd hne
    refine ⟨fun hf => hpublic ?_, fun hlive _ hf => hslot ?_⟩
    · exact List.any_eq_true.2 ⟨d, hd, by simpa using ⟨⟨hne, hf.1⟩, hf.2⟩⟩
    · exact List.any_eq_true.2 ⟨d, hd, by simpa using ⟨⟨⟨⟨hne, hf.1⟩, hf.2.1⟩, hf.2.2⟩, hlive⟩⟩

theorem Unique.revokeCredential (h : s.Unique) {id reason : String} (hs : s.revokeCredential id reason = .ok s') :
    s'.Unique := by
  unfold MemoryStore.revokeCredential at hs
  split at hs
  · cases hs
  rename_i c hc
  split at hs
  · cases hs
    refine h.filed (c := { c with metadata := { c.metadata with
      revokedAt := some s.clock, revokeReason := some reason, revision := s.revision + 1 } })
      (fun d hd => Registry.mem_rows_put.1 hd) fun d hd hne => ⟨?_, nofun⟩
    exact (h d hd c (Registry.mem_of_get hc) hne).1
  · cases hs
    exact h

theorem Unique.of_creds (h : s.Unique) (hc : s'.creds = s.creds) : s'.Unique :=
  h.of_subset fun _ hin => hc ▸ hin

theorem Unique.deleteKey (h : s.Unique) {id : String} (hs : s.deleteKey id = .ok s') : s'.Unique := by
  unfold MemoryStore.deleteKey at hs
  split at hs
  · cases hs
  split at hs
  · cases hs
    exact h
  · cases hs
    exact h.of_subset fun c hc => (Registry.mem_rows_retain.1 hc).1

theorem Unique.scrubKey (h : s.Unique) {id : String} (hs : s.scrubKey id = .ok s') : s'.Unique := by
  unfold MemoryStore.scrubKey at hs
  split at hs
  · cases hs
  split at hs
  · cases hs
  · cases hs
    exact h.of_creds rfl

end MemoryStore

namespace StoreRun

theorem commit_store {P : MemoryStore → Prop} {r : StoreRun} {row : RowId} {result : StoreResult MemoryStore}
    (h : P r.store) (hok : ∀ s, result = .ok s → P s) : P (r.commit row result).store := by
  cases result with
  | error e => exact h
  | ok s => exact hok s rfl

theorem step_unique {r : StoreRun} (h : r.store.Unique) (op : StoreOp) : (r.step op).store.Unique := by
  have hput : ∀ (s s' : MemoryStore) (key : VirtualKey), s.Unique → s.putKey key = .ok s' → s'.Unique := by
    intro s s' key hs hk
    obtain ⟨-, hcreds, -⟩ := MemoryStore.putKey_ok hk
    exact hs.of_creds hcreds
  cases op with
  | putKey key => exact commit_store h fun s hs => hput _ _ key h hs
  | deleteKey id => exact commit_store h fun s hs => h.deleteKey hs
  | scrubKey id => exact commit_store h fun s hs => h.scrubKey hs
  | putCredential secret => exact commit_store h fun s hs => h.putCredential hs
  | revokeCredential id reason => exact commit_store h fun s hs => h.revokeCredential hs
  | tick now => exact h
  | putKeyWithCredential key secret =>
    cases hk : r.store.putKey key with
    | error e =>
      rw [step_with_error hk]
      exact h
    | ok s =>
      rw [step_with_ok hk]
      have hfirst := hput _ _ key h hk
      exact commit_store (r := r.commit (.key key.id) (.ok s)) hfirst fun s' hs => hfirst.putCredential hs

theorem after_unique (ops : List StoreOp) : (after ops).store.Unique :=
  exec_invariant step (I := fun r => r.store.Unique) (fun _ op h => step_unique h op) (fun _ hc => absurd hc List.not_mem_nil) ops

end StoreRun

/-! ## Tombstones -/

namespace MemoryStore

variable {s s' : MemoryStore} {id : String}

theorem not_live_of_tombstoned (h : s.tombstoned id = true) : s.live id = none := by
  cases hl : s.live id with
  | none => rfl
  | some k =>
    rw [not_tombstoned_of_live hl] at h
    cases h

theorem tombstoned_iff : s.tombstoned id = true ↔ ∃ k d, s.keys.get id = some k ∧ k.deletedAt = some d := by
  simp [tombstoned, Option.any_eq_true, Option.isSome_iff_exists]

theorem live_of_keys (h : s'.keys = s.keys) : s'.live id = s.live id := by
  rw [live, live, h]

theorem tombstoned_of_keys (h : s'.keys = s.keys) : s'.tombstoned id = s.tombstoned id := by
  rw [tombstoned, tombstoned, h]

/-- `put_key` makes a row live only under an id without a tombstone. -/
theorem live_of_putKey {key k : VirtualKey} (h : s.putKey key = .ok s') (hl : s'.live id = some k) :
    s.live id = some k ∨ key.id = id ∧ key.deletedAt = none ∧ s.tombstoned id = false := by
  obtain ⟨hfree, -, -, -, -, keep, -, hkeys⟩ := putKey_ok h
  obtain ⟨hget, hdel⟩ := live_eq_some.1 hl
  rw [hkeys] at hget
  rcases Registry.found_after_put hget with ⟨hid, rfl⟩ | ⟨-, hold⟩
  · have hid : key.id = id := hid
    subst hid
    exact Or.inr ⟨rfl, hdel, hfree hdel⟩
  · exact Or.inl (live_eq_some.2 ⟨hold, hdel⟩)

/-- A tombstone that `put_key` drops is past its retention. -/
theorem swept_putKey {key : VirtualKey} (h : s.putKey key = .ok s') (ht : s.tombstoned id = true)
    (hgone : s'.tombstoned id = false) :
    ∃ k d, (s.keys.get id = some k ∨ key = k ∧ k.id = id) ∧ k.deletedAt = some d ∧
      satAdd d maxRetentionSecs ≤ s.clock := by
  obtain ⟨k, d, hget, hdel⟩ := tombstoned_iff.1 ht
  obtain ⟨hfree, -⟩ := putKey_ok h
  unfold putKey at h
  split at h
  · cases h
  cases h
  -- the row that stands under the id before the sweep carries a tombstone, and the sweep does not keep it
  have hswept : ∀ row e, ((s.keys.put { key with revision := s.revision + 1 }).get id) = some row →
      row.deletedAt = some e → satAdd e maxRetentionSecs ≤ s.clock := by
    intro row e hrow he
    by_contra hyoung
    rw [tombstoned, ite_retain, Registry.get_retain, hrow] at hgone
    have hkeep : keepKey s.clock row = true := by simp [keepKey, he]; omega
    simp [Option.filter_some, hkeep, he] at hgone
  by_cases hid : key.id = id
  · subst hid
    cases hcarried : key.deletedAt with
    | none => rw [hfree hcarried] at ht; cases ht
    | some e => exact ⟨key, e, Or.inr ⟨rfl, rfl⟩, hcarried, hswept _ e (Registry.get_put_self _ _) hcarried⟩
  · have hstands : (s.keys.put { key with revision := s.revision + 1 }).get id = some k := by
      rw [Registry.get_put, if_neg hid, hget]
    exact ⟨k, d, Or.inl hget, hdel, hswept k d hstands hdel⟩

/-- A tombstoned row filed keeps every tombstone. -/
theorem tombstoned_put {row : VirtualKey} (hkeys : s'.keys = s.keys.put row) (hrow : row.deletedAt.isSome = true)
    (ht : s.tombstoned id = true) : s'.tombstoned id = true := by
  rw [tombstoned, hkeys, Registry.get_put]
  by_cases hid : row.id = id
  · simpa [hid] using hrow
  · simpa [hid, tombstoned] using ht

theorem tombstoned_deleteKey {i : String} (h : s.deleteKey i = .ok s') (ht : s.tombstoned id = true) :
    s'.tombstoned id = true := by
  unfold deleteKey at h
  split at h
  · cases h
  split at h
  · cases h
    exact ht
  · cases h
    exact tombstoned_put rfl rfl ht

/-- A scrubbed row stays tombstoned, and no row comes to life. -/
theorem scrubKey_ok {i : String} (h : s.scrubKey i = .ok s') :
    (s.tombstoned id = true → s'.tombstoned id = true) ∧ ∀ k, s'.live id = some k → s.live id = some k := by
  unfold scrubKey at h
  split at h
  · cases h
  rename_i key hkey
  split at h
  · cases h
  rename_i hdead
  cases h
  have hdead : key.deletedAt.isSome = true := by
    rw [Option.isNone_iff_eq_none] at hdead
    exact Option.isSome_iff_ne_none.2 hdead
  refine ⟨tombstoned_put rfl hdead, fun k hl => ?_⟩
  obtain ⟨hget, hdel⟩ := live_eq_some.1 hl
  rw [Registry.get_put] at hget
  split at hget
  · cases hget
    rw [hdel] at hdead
    cases hdead
  · exact live_eq_some.2 ⟨hget, hdel⟩

theorem revokeCredential_keys {i reason : String} (h : s.revokeCredential i reason = .ok s') : s'.keys = s.keys := by
  unfold revokeCredential at h
  split at h
  · cases h
  split at h <;> cases h <;> rfl

end MemoryStore

namespace StoreRun

variable {r : StoreRun} {id : String}

/-- The call makes a row live under an id that has no tombstone. -/
def Revives (r : StoreRun) (op : StoreOp) (id : String) : Prop :=
  ∃ k, op.key? = some k ∧ k.id = id ∧ k.deletedAt = none ∧ r.store.tombstoned id = false

/-- The call may sweep, and a tombstone under the id, the row's own or the one the call carries, is past its
retention. -/
def Sweeps (r : StoreRun) (op : StoreOp) (id : String) : Prop :=
  ∃ row k d, op.key? = some row ∧ (r.store.keys.get id = some k ∨ row = k ∧ k.id = id) ∧ k.deletedAt = some d ∧
    satAdd d maxRetentionSecs ≤ r.store.clock

/-- A row is live after a call if it was before, or if the call made it. -/
theorem live_of_step (op : StoreOp) {k : VirtualKey} (hl : (r.step op).store.live id = some k) :
    r.store.live id = some k ∨ r.Revives op id := by
  have hput : ∀ {key : VirtualKey} {s : MemoryStore} {op : StoreOp}, op.key? = some key →
      r.store.putKey key = .ok s → s.live id = some k → r.store.live id = some k ∨ r.Revives op id := by
    intro key s op hop hk hs
    rcases MemoryStore.live_of_putKey hk hs with hold | ⟨hid, hdel, hfree⟩
    · exact Or.inl hold
    · exact Or.inr ⟨key, hop, hid, hdel, hfree⟩
  cases op with
  | putKey key =>
    refine commit_store (P := fun s => s.live id = some k → _) Or.inl (fun s hs => hput rfl hs) hl
  | deleteKey i =>
    refine commit_store (P := fun s => s.live id = some k → _) Or.inl (fun s hs hl => Or.inl ?_) hl
    rw [(MemoryStore.deleteKey_ok hs).2.2 id] at hl
    split at hl
    · cases hl
    · exact hl
  | scrubKey i =>
    refine commit_store (P := fun s => s.live id = some k → _) Or.inl (fun s hs hl => Or.inl ?_) hl
    exact (MemoryStore.scrubKey_ok hs).2 k hl
  | putCredential secret =>
    refine commit_store (P := fun s => s.live id = some k → _) Or.inl (fun s hs hl => Or.inl ?_) hl
    rwa [MemoryStore.live_of_keys (MemoryStore.putCredential_keys hs)] at hl
  | revokeCredential i reason =>
    refine commit_store (P := fun s => s.live id = some k → _) Or.inl (fun s hs hl => Or.inl ?_) hl
    rwa [MemoryStore.live_of_keys (MemoryStore.revokeCredential_keys hs)] at hl
  | tick now => exact Or.inl hl
  | putKeyWithCredential key secret =>
    cases hk : r.store.putKey key with
    | error e =>
      rw [step_with_error hk] at hl
      exact Or.inl hl
    | ok s =>
      rw [step_with_ok hk] at hl
      have hop : (StoreOp.putKeyWithCredential key secret).key? = some key := rfl
      have hfirst := hput hop hk
      refine commit_store (r := r.commit (.key key.id) (.ok s)) (P := fun s => s.live id = some k → _) hfirst
        (fun s' hs hl => hfirst ?_) hl
      rwa [MemoryStore.live_of_keys (MemoryStore.putCredential_keys hs)] at hl

/-- A tombstone gone after a call was past its retention. -/
theorem swept_of_step (op : StoreOp) (ht : r.store.tombstoned id = true)
    (hgone : (r.step op).store.tombstoned id = false) : r.Sweeps op id := by
  have hstays : ∀ {P : Prop}, r.store.tombstoned id = false → P := by
    intro P hf
    rw [ht] at hf
    cases hf
  have hput : ∀ {key : VirtualKey} {s : MemoryStore} {op : StoreOp}, op.key? = some key →
      r.store.putKey key = .ok s → s.tombstoned id = false → r.Sweeps op id := by
    intro key s op hop hk hs
    obtain ⟨k, d, hrow, hdel, hold⟩ := MemoryStore.swept_putKey hk ht hs
    exact ⟨key, k, d, hop, hrow, hdel, hold⟩
  have hkept : ∀ {row : RowId} {result : StoreResult MemoryStore} {op : StoreOp},
      (∀ s, result = .ok s → s.tombstoned id = true) → (r.commit row result).store.tombstoned id = false →
        r.Sweeps op id := by
    intro row result op hok hgone
    have hstill : (r.commit row result).store.tombstoned id = true :=
      commit_store (P := fun s => s.tombstoned id = true) ht hok
    rw [hstill] at hgone
    cases hgone
  cases op with
  | putKey key => exact commit_store (P := fun s => s.tombstoned id = false → _) hstays (fun s hs => hput rfl hs) hgone
  | deleteKey i => exact hkept (fun s hs => MemoryStore.tombstoned_deleteKey hs ht) hgone
  | scrubKey i => exact hkept (fun s hs => (MemoryStore.scrubKey_ok hs).1 ht) hgone
  | putCredential secret =>
    exact hkept (fun s hs => (MemoryStore.tombstoned_of_keys (MemoryStore.putCredential_keys hs)).trans ht) hgone
  | revokeCredential i reason =>
    exact hkept (fun s hs => (MemoryStore.tombstoned_of_keys (MemoryStore.revokeCredential_keys hs)).trans ht) hgone
  | tick now => exact hstays hgone
  | putKeyWithCredential key secret =>
    cases hk : r.store.putKey key with
    | error e =>
      rw [step_with_error hk] at hgone
      exact hstays hgone
    | ok s =>
      rw [step_with_ok hk] at hgone
      have hop : (StoreOp.putKeyWithCredential key secret).key? = some key := rfl
      have hfirst := hput hop hk
      refine commit_store (r := r.commit (.key key.id) (.ok s)) (P := fun s => s.tombstoned id = false → _) hfirst
        (fun s' hs hf => hfirst ?_) hgone
      rwa [MemoryStore.tombstoned_of_keys (MemoryStore.putCredential_keys hs)] at hf

/-- A live row filed under an id without a row is live. -/
theorem step_live {op : StoreOp} {k : VirtualKey} (hop : op.key? = some k) (hdel : k.deletedAt = none)
    (hfree : r.store.keys.get k.id = none) : ∃ row, (r.step op).store.live k.id = some row := by
  have ht : r.store.tombstoned k.id = false := by
    rw [MemoryStore.tombstoned, hfree]
    rfl
  obtain ⟨s, hs⟩ := MemoryStore.putKey_isOk k ht
  have hlive : s.live k.id = some { k with revision := r.store.revision + 1 } := by
    rw [MemoryStore.live_putKey hs hdel, if_pos rfl]
  cases op with
  | putKey key =>
    obtain rfl := Option.some.inj hop
    refine ⟨{ key with revision := r.store.revision + 1 }, ?_⟩
    rw [step, hs]
    exact hlive
  | putKeyWithCredential key secret =>
    obtain rfl := Option.some.inj hop
    refine ⟨{ key with revision := r.store.revision + 1 }, ?_⟩
    rw [step_with_ok hs]
    refine commit_store (r := r.commit (.key key.id) (.ok s))
      (P := fun s => s.live key.id = some { key with revision := r.store.revision + 1 }) hlive fun s' hs' => ?_
    rw [MemoryStore.live_of_keys (MemoryStore.putCredential_keys hs')]
    exact hlive
  | deleteKey _ | scrubKey _ | putCredential _ | revokeCredential _ _ | tick _ => cases hop

/-! ## Whole runs -/

/-- The call writes a live row for an id that was tombstoned once and has no row any more. -/
def Reissues (pre : List StoreOp) (op : StoreOp) : Prop :=
  ∃ k, op.key? = some k ∧ k.deletedAt = none ∧ (after pre).store.keys.get k.id = none ∧
    ∃ p, p <+: pre ∧ (after p).store.tombstoned k.id = true

/-- No id tombstoned at some point of the run is live at a later one. -/
def NeverReissued (ops : List StoreOp) : Prop :=
  ∀ pre mid, pre ++ mid <+: ops → ∀ id, (after pre).store.tombstoned id = true →
    (after (pre ++ mid)).store.live id = none

theorem neverReissued_iff (ops : List StoreOp) :
    NeverReissued ops ↔ Along (fun pre op => ¬ Reissues pre op) ops := by
  constructor
  · rintro h pre op post rfl ⟨k, hop, hdel, hfree, p, ⟨mid, rfl⟩, ht⟩
    have hdead := h p (mid ++ [op]) ⟨post, by simp⟩ k.id ht
    obtain ⟨row, hrow⟩ := step_live hop hdel hfree
    rw [← List.append_assoc, after_snoc, hrow] at hdead
    cases hdead
  · rintro h pre mid ⟨post, rfl⟩ id ht
    have hmid : Along (fun pre op => ¬ Reissues pre op) (pre ++ mid) := h.append_left
    -- the id stays dead: a call that made it live would reissue it
    refine (Along.invariant_from
      (I := fun ops => pre <+: ops ∧ (after ops).store.live id = none)
      ⟨List.prefix_rfl, MemoryStore.not_live_of_tombstoned ht⟩ ?_ hmid).2
    rintro ops op ⟨hpre, hdead⟩ hno
    refine ⟨hpre.trans (List.prefix_append ops [op]), ?_⟩
    rw [after_snoc]
    cases hl : ((after ops).step op).store.live id with
    | none => rfl
    | some row =>
      exfalso
      rcases live_of_step op hl with hold | ⟨k, hop, rfl, hdel, hfree⟩
      · rw [hdead] at hold
        cases hold
      refine hno ⟨k, hop, hdel, ?_, pre, hpre, ht⟩
      cases hget : (after ops).store.keys.get k.id with
      | none => rfl
      | some old =>
        rw [MemoryStore.tombstoned, hget] at hfree
        have hlive := MemoryStore.live_eq_some.2 ⟨hget, by simpa using hfree⟩
        rw [hdead] at hlive
        cases hlive

/-- **A tombstone guards its id as long as it stands.** In every run: credentials are unique and the row written
last has the greatest revision; no call makes a row live over a tombstone, and a tombstone goes only to a sweep
once its retention is over; so a tombstoned id is never live again, if and only if no call writes a live row for
an id whose tombstone has been swept. -/
theorem ids_stay_dead (ops : List StoreOp) :
    (∀ pre, pre <+: ops → (after pre).store.Unique ∧ (after pre).Numbered) ∧
      (∀ pre op, pre ++ [op] <+: ops → ∀ id, (after pre).store.tombstoned id = true →
        (after (pre ++ [op])).store.live id = none ∧
          ((after (pre ++ [op])).store.tombstoned id = false → (after pre).Sweeps op id)) ∧
      (NeverReissued ops ↔ Along (fun pre op => ¬ Reissues pre op) ops) := by
  refine ⟨fun pre _ => ⟨after_unique pre, after_numbered pre⟩, fun pre op _ id ht => ?_, neverReissued_iff ops⟩
  rw [after_snoc]
  refine ⟨?_, swept_of_step op ht⟩
  cases hl : ((after pre).step op).store.live id with
  | none => rfl
  | some row =>
    exfalso
    rcases live_of_step op hl with hold | ⟨k, -, -, -, hfree⟩
    · rw [MemoryStore.not_live_of_tombstoned ht] at hold
      cases hold
    · rw [ht] at hfree
      cases hfree

/-- A key of no group, enabled, without a tombstone. -/
def plainKey (id : String) : VirtualKey where
  id := id
  generationHash := ""
  name := id
  allowedScopes := none
  enabled := true
  createdAt := 0
  group := none
  labels := []
  expiresAt := none
  deletedAt := none
  revision := 0

/-- A key deleted, 31 days, and writes of another key up to the sweep. -/
def sweptRun : List StoreOp :=
  [.putKey (plainKey "a"), .deleteKey "a", .tick maxRetentionSecs]
    ++ List.replicate 255 (.putKey (plainKey "b"))

/-- The id of a key deleted 31 days ago is given away again. -/
theorem swept_id_reissued : ¬ NeverReissued (sweptRun ++ [.putKey (plainKey "a")]) := by
  intro h
  have hdead := h (sweptRun.take 2) (sweptRun.drop 2 ++ [.putKey (plainKey "a")])
    (by rw [← List.append_assoc, List.take_append_drop]) "a" (by decide +kernel)
  rw [← List.append_assoc, List.take_append_drop] at hdead
  have hlive : ((after (sweptRun ++ [.putKey (plainKey "a")])).store.live "a").isSome = true := by decide +kernel
  rw [hdead] at hlive
  cases hlive

end StoreRun

end Busbar
