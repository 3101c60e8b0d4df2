import Busbar.Auth.Principal
import Busbar.Lib.Text
import Mathlib.Data.List.Induction

/-!
# The credential cache

A module's verdict on a credential, kept for a while under the module and the credential's digest. Every call is one
critical section.

* `CacheState.get`, `put`, `flushModule`, `flushAll`: the calls.
* `CacheState.put_cases`: a put is dropped, or writes its own entry and drops others.
* `CacheState.length_put`: the bound on the entries.
-/

namespace Busbar

inductive AuthOutcome where
  | identify (principal : Principal)
  | reject
  | pass
  deriving DecidableEq, Repr

/-- The verdicts that are kept. -/
inductive CachedVerdict where
  | identify (principal : Principal)
  | pass
  deriving DecidableEq, Repr

def CachedVerdict.outcome : CachedVerdict → AuthOutcome
  | identify principal => .identify principal
  | pass => .pass

structure CacheEntry where
  expiresAt : Nat
  insertedSeq : Nat
  verdict : CachedVerdict
  deriving DecidableEq, Repr

/-- A module and the digest of a credential. -/
abbrev CacheKey := String × String

structure CacheState where
  entries : Table CacheKey CacheEntry
  seq : Nat
  flushGen : Nat

def defaultIdentifyTtlSecs : Nat := 300

def maxIdentifyTtlSecs : Nat := 3600

def passTtlSecs : Nat := 5

def maxEntries : Nat := 4096

namespace CacheState

def new : CacheState := ⟨Registry.empty, 0, 0⟩

def generation (c : CacheState) : Nat := c.flushGen

variable (sha256Hex : String → String)

def get (c : CacheState) (module credential : String) (now : Nat) : Option AuthOutcome × CacheState :=
  let key := (module, sha256Hex credential)
  match c.entries.lookup key with
  | some e =>
    if e.expiresAt > now then (some e.verdict.outcome, c) else (none, { c with entries := Registry.erase key c.entries })
  | none => (none, c)

/-- What is kept of an outcome, and how long: a module's own time within the cap, and for a pass a short one that depends
on the digest. -/
def kept (hash : String) : AuthOutcome → Option (CachedVerdict × Nat)
  | .identify p => some (.identify p, min (p.ttlSecs.getD defaultIdentifyTtlSecs) maxIdentifyTtlSecs)
  | .pass => some (.pass, passTtlSecs + ((utf8 hash).headD 0).toNat % 3)
  | .reject => none

/-- The row inserted first. -/
def oldest (rows : List (CacheKey × CacheEntry)) : Option (CacheKey × CacheEntry) :=
  rows.foldl
    (fun best r =>
      match best with
      | none => some r
      | some b => if r.2.insertedSeq < b.2.insertedSeq then some r else some b)
    none

/-- A full map loses its expired entries, and the oldest one if that made no room. -/
def makeRoom (map : Table CacheKey CacheEntry) (now : Nat) : Table CacheKey CacheEntry :=
  if map.rows.length ≥ maxEntries then
    let map := Registry.retain (fun r => r.2.expiresAt > now) map
    if map.rows.length ≥ maxEntries then
      match oldest map.rows with
      | some r => Registry.erase r.1 map
      | none => map
    else map
  else map

/-- A verdict of another generation than the current one is dropped. -/
def put (c : CacheState) (module credential : String) (outcome : AuthOutcome) (now gen : Nat) : CacheState :=
  let hash := sha256Hex credential
  match kept hash outcome with
  | none => c
  | some (verdict, ttl) =>
    if c.flushGen ≠ gen then c
    else
      let seq := wrapInc64 c.seq
      { c with
        entries := (makeRoom c.entries now).insert (module, hash) ⟨now + ttl, seq, verdict⟩
        seq := seq }

/-- Also tells how many entries went. -/
def flushModule (c : CacheState) (module : String) : Nat × CacheState :=
  let entries := Registry.retain (fun r => r.1.1 ≠ module) c.entries
  (c.entries.rows.length - entries.rows.length, { c with entries := entries, flushGen := wrapInc64 c.flushGen })

def flushAll (c : CacheState) : Nat × CacheState :=
  (c.entries.rows.length, { c with entries := Registry.empty, flushGen := wrapInc64 c.flushGen })

/-! ## What the calls do -/

variable {sha256Hex} {c : CacheState} {module credential : String} {outcome : AuthOutcome} {now gen : Nat}
  {key : CacheKey} {e : CacheEntry}

/-- A hit returns what a live entry holds. -/
theorem get_hit (h : (c.get sha256Hex module credential now).1 = some outcome) :
    (c.get sha256Hex module credential now).2 = c ∧
      ∃ e, c.entries.lookup (module, sha256Hex credential) = some e ∧ now < e.expiresAt ∧ e.verdict.outcome = outcome := by
  unfold get at h ⊢
  dsimp only at h ⊢
  cases he : c.entries.lookup (module, sha256Hex credential) with
  | none =>
    rw [he] at h
    cases h
  | some e =>
    rw [he] at h
    dsimp only at h ⊢
    by_cases hlive : e.expiresAt > now
    · rw [if_pos hlive] at h ⊢
      exact ⟨rfl, e, rfl, hlive, Option.some.inj h⟩
    · rw [if_neg hlive] at h
      cases h

/-- A lookup writes nothing. -/
theorem get_keeps (h : (c.get sha256Hex module credential now).2.entries.lookup key = some e) :
    c.entries.lookup key = some e := by
  unfold get at h
  dsimp only at h
  split at h
  · split at h
    · exact h
    · dsimp only at h
      rw [Table.lookup_erase] at h
      split at h
      · cases h
      · exact h
  · exact h

theorem flushGen_get : (c.get sha256Hex module credential now).2.flushGen = c.flushGen := by
  unfold get
  dsimp only
  split
  · split <;> rfl
  · rfl

theorem makeRoom_keeps {map : Table CacheKey CacheEntry} (h : (makeRoom map now).lookup key = some e) :
    map.lookup key = some e := by
  have hretain : (Table.lookup (Registry.retain (fun r => r.2.expiresAt > now) map) key = some e) →
      map.lookup key = some e := by
    intro hr
    rw [Table.lookup_retain] at hr
    exact (Option.filter_eq_some_iff.1 hr).1
  unfold makeRoom at h
  split at h
  · dsimp only at h
    split at h
    · split at h
      · rw [Table.lookup_erase] at h
        split at h
        · cases h
        · exact hretain h
      · exact hretain h
    · exact hretain h
  · exact h

/-- **A put** is dropped, or writes its own entry and leaves no new one besides. -/
theorem put_cases (sha256Hex : String → String) (c : CacheState) (module credential : String) (outcome : AuthOutcome) (now gen : Nat) :
    ¬ ((kept (sha256Hex credential) outcome).isSome = true ∧ c.flushGen = gen) ∧
        c.put sha256Hex module credential outcome now gen = c ∨
      ∃ verdict ttl, kept (sha256Hex credential) outcome = some (verdict, ttl) ∧ c.flushGen = gen ∧
        (c.put sha256Hex module credential outcome now gen).flushGen = c.flushGen ∧
        ∀ key e, (c.put sha256Hex module credential outcome now gen).entries.lookup key = some e →
          key = (module, sha256Hex credential) ∧ e.expiresAt = now + ttl ∧ e.verdict = verdict ∨
            key ≠ (module, sha256Hex credential) ∧ c.entries.lookup key = some e := by
  unfold put
  dsimp only
  cases hk : kept (sha256Hex credential) outcome with
  | none => exact Or.inl ⟨nofun, rfl⟩
  | some r =>
    obtain ⟨verdict, ttl⟩ := r
    dsimp only
    by_cases hgen : c.flushGen = gen
    · rw [if_neg (not_not.2 hgen)]
      refine Or.inr ⟨verdict, ttl, rfl, hgen, rfl, fun key e he => ?_⟩
      rw [Table.lookup_insert] at he
      split at he
      · rename_i hkey
        cases he
        exact Or.inl ⟨hkey.symm, rfl, rfl⟩
      · rename_i hkey
        exact Or.inr ⟨Ne.symm hkey, makeRoom_keeps he⟩
    · rw [if_pos hgen]
      exact Or.inl ⟨fun h => hgen h.2, rfl⟩

theorem kept_outcome {hash : String} {verdict : CachedVerdict} {ttl : Nat} (h : kept hash outcome = some (verdict, ttl)) :
    verdict.outcome = outcome ∧ ttl ≤ maxIdentifyTtlSecs := by
  cases outcome with
  | reject => cases h
  | identify p =>
    cases h
    exact ⟨rfl, Nat.min_le_right _ _⟩
  | pass =>
    cases h
    refine ⟨rfl, ?_⟩
    unfold passTtlSecs maxIdentifyTtlSecs
    omega

/-- A rejection is never kept. -/
theorem outcome_ne_reject (v : CachedVerdict) : v.outcome ≠ .reject := by
  cases v <;> nofun

/-! ## The bound -/

theorem oldest_mem {rows : List (CacheKey × CacheEntry)} (h : rows ≠ []) : ∃ r ∈ rows, oldest rows = some r := by
  unfold oldest
  induction rows using List.reverseRecOn with
  | nil => exact absurd rfl h
  | append_singleton rows r ih =>
    rw [List.foldl_append]
    by_cases hrows : rows = []
    · subst hrows
      exact ⟨r, List.mem_singleton_self r, rfl⟩
    · obtain ⟨b, hb, hbest⟩ := ih hrows
      rw [hbest, List.foldl_cons, List.foldl_nil]
      dsimp only
      split
      · exact ⟨r, List.mem_append_right _ (List.mem_singleton_self r), rfl⟩
      · exact ⟨b, List.mem_append_left _ hb, rfl⟩

theorem length_erase_lt {map : Table CacheKey CacheEntry} {r : CacheKey × CacheEntry} (h : r ∈ map.rows) :
    (Registry.erase r.1 map).rows.length < map.rows.length := by
  refine List.length_filter_lt_length_iff_exists.2 ⟨r, h, ?_⟩
  simp

theorem length_makeRoom {map : Table CacheKey CacheEntry} (h : map.rows.length ≤ maxEntries) (now : Nat) :
    (makeRoom map now).rows.length < maxEntries := by
  unfold makeRoom
  split
  · dsimp only
    have hretain : (Registry.retain (fun r => r.2.expiresAt > now) map).rows.length ≤ map.rows.length :=
      List.length_filter_le _ _
    split
    · rename_i hfull
      have hne : (Registry.retain (fun r => r.2.expiresAt > now) map).rows ≠ [] := by
        intro hnil
        rw [hnil] at hfull
        exact absurd hfull (by decide)
      obtain ⟨r, hr, hold⟩ := oldest_mem hne
      rw [hold]
      dsimp only
      have hless := length_erase_lt hr
      omega
    · omega
  · omega

/-- **The map never holds more than its bound.** -/
theorem length_put (h : c.entries.rows.length ≤ maxEntries) (module credential : String) (outcome : AuthOutcome)
    (now gen : Nat) : (c.put sha256Hex module credential outcome now gen).entries.rows.length ≤ maxEntries := by
  unfold put
  dsimp only
  split
  · exact h
  · split
    · exact h
    · have hroom := length_makeRoom h now
      have hrest : (Registry.erase (module, sha256Hex credential) (makeRoom c.entries now)).rows.length ≤
          (makeRoom c.entries now).rows.length := List.length_filter_le _ _
      show (Registry.erase (module, sha256Hex credential) (makeRoom c.entries now)).rows.length + 1 ≤ maxEntries
      omega

theorem length_get (h : c.entries.rows.length ≤ maxEntries) (module credential : String) (now : Nat) :
    (c.get sha256Hex module credential now).2.entries.rows.length ≤ maxEntries := by
  unfold get
  dsimp only
  split
  · split
    · exact h
    · exact le_trans (List.length_filter_le _ _) h
  · exact h

end CacheState

end Busbar
