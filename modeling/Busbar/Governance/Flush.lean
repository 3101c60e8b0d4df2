import Busbar.Governance.Ledger
import Busbar.Store.Memory

/-!
# The write-behind flush

`flush_budgets` reads the dirty cells shard by shard, adds each difference since the last acknowledged
flush to the store, and after each store call acknowledges or re-marks the cell. Each function here is one
lock section or one store call; the flush that strings them together is a phase of the node.

* `lookup_snapshotShard`, `lookup_settle`: what the two lock sections do to a cell.
-/

namespace Busbar

/-- The closure `signed`: a counter in the signed delta domain. -/
def signed (v : Nat) : Int := min (v : Int) i64Max

def tokensDelta (m : ModelCell) : TierTokensDelta where
  input := signed m.cur.input - signed m.flushed.input
  output := signed m.cur.output - signed m.flushed.output
  cacheRead := signed m.cur.cacheRead - signed m.flushed.cacheRead
  cacheWrite := signed m.cur.cacheWrite - signed m.flushed.cacheWrite

/-- A dirty cell's difference since the last acknowledged flush, and the reading that is acknowledged if
the difference reaches the store. -/
structure DirtySnap where
  bucketId : String
  window : Nat
  delta : UsageDelta
  curRequests : Nat
  curBillableRequests : Nat
  curModels : List (String × TierTokens)

/-- Models without a difference are left out of the delta. -/
def modelDeltas (c : BudgetCell) : List ModelTokensDelta :=
  c.models.rows.filterMap fun e =>
    if (tokensDelta e.2).isZero then none else some ⟨e.1, tokensDelta e.2⟩

def DirtySnap.of (bucketId : String) (c : BudgetCell) : DirtySnap where
  bucketId := bucketId
  window := c.windowStart
  delta :=
    { requests := signed c.requests - signed c.flushedRequests
      billableRequests := signed c.billableRequests - signed c.flushedBillableRequests
      models := modelDeltas c }
  curRequests := c.requests
  curBillableRequests := c.billableRequests
  curModels := c.modelViews

/-- The snapshots of a shard's dirty cells. -/
def dirtySnaps (cells : Cells) (shard : Nat) : List DirtySnap :=
  (cells.rows.filter (fun e => shardIndex e.1 = shard && e.2.dirty)).map (fun e => DirtySnap.of e.1 e.2)

/-- Clear the dirty flags of a shard. -/
def cleanShard (cells : Cells) (shard : Nat) : Cells :=
  cells.mapValues (fun id c => if shardIndex id = shard then { c with dirty := false } else c)

/-- Advance the acknowledged values to the snapshot's reading. -/
def BudgetCell.acknowledge (c : BudgetCell) (s : DirtySnap) : BudgetCell :=
  { c with
    flushedRequests := s.curRequests
    flushedBillableRequests := s.curBillableRequests
    models := c.models.mapValues (fun model m =>
      match s.curModels.find? (fun e => e.1 = model) with
      | some e => { m with flushed := e.2 }
      | none => m) }

/-- The lock section after a store call: acknowledge on success and re-mark on failure, if the cell still
holds the snapshot's window. -/
def settle (cells : Cells) (s : DirtySnap) (ok : Bool) : Cells :=
  match cells.lookup s.bucketId with
  | some c =>
    if c.windowStart = s.window then
      cells.insert s.bucketId (if ok then c.acknowledge s else { c with dirty := true })
    else cells
  | none => cells

/-- The store call of a snapshot: nothing for an empty difference, and nothing when the store fails. -/
def writeSnap (store : MemoryStore) (s : DirtySnap) (ok : Bool) : MemoryStore × Bool :=
  if s.delta.isZero then (store, true)
  else if ok then (store.addUsage s.bucketId s.window s.delta, true)
  else (store, false)

/-! ## What the lock sections do to a cell -/

theorem lookup_cleanShard (cells : Cells) (shard : Nat) (id : String) :
    (cleanShard cells shard).lookup id =
      (cells.lookup id).map (fun c => if shardIndex id = shard then { c with dirty := false } else c) :=
  Table.lookup_mapValues _ _ _

theorem lookup_settle (cells : Cells) (s : DirtySnap) (ok : Bool) (id : String) :
    (settle cells s ok).lookup id =
      (cells.lookup id).map (fun c =>
        if s.bucketId = id ∧ c.windowStart = s.window then
          if ok then c.acknowledge s else { c with dirty := true }
        else c) := by
  unfold settle
  by_cases hid : s.bucketId = id
  · subst hid
    rcases hl : cells.lookup s.bucketId with _ | c
    · simp [hl]
    · dsimp only
      by_cases hw : c.windowStart = s.window
      · rw [if_pos hw, Table.lookup_insert_self]
        simp [hw]
      · rw [if_neg hw, hl]
        simp [hw]
  · have hmap : (cells.lookup id).map (fun c =>
        if s.bucketId = id ∧ c.windowStart = s.window then
          if ok then c.acknowledge s else { c with dirty := true } else c)
        = cells.lookup id := by
      simp [hid]
    rw [hmap]
    split
    · split
      · rw [Table.lookup_insert, if_neg hid]
      · rfl
    · rfl

/-- A shard's snapshots are those of its dirty cells. -/
theorem mem_dirtySnaps {cells : Cells} {shard : Nat} {s : DirtySnap} :
    s ∈ dirtySnaps cells shard ↔
      ∃ c, cells.lookup s.bucketId = some c ∧ shardIndex s.bucketId = shard ∧ c.dirty = true ∧
        s = DirtySnap.of s.bucketId c := by
  unfold dirtySnaps
  rw [List.mem_map]
  constructor
  · rintro ⟨⟨id, c⟩, hm, rfl⟩
    obtain ⟨hr, hp⟩ := List.mem_filter.1 hm
    rw [Bool.and_eq_true, decide_eq_true_eq] at hp
    exact ⟨c, Table.lookup_eq_some.2 hr, hp.1, hp.2, rfl⟩
  · rintro ⟨c, hl, hs, hd, he⟩
    refine ⟨(s.bucketId, c), List.mem_filter.2 ⟨Table.lookup_eq_some.1 hl, ?_⟩, he.symm⟩
    simp [hs, hd]

/-- No two snapshots of a shard are of one bucket. -/
theorem nodup_dirtySnaps (cells : Cells) (shard : Nat) :
    ((dirtySnaps cells shard).map DirtySnap.bucketId).Nodup := by
  unfold dirtySnaps
  rw [List.map_map]
  exact cells.nodup.sublist (List.filter_sublist.map _)

end Busbar
