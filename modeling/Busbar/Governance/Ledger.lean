import Busbar.Cost
import Busbar.Governance.Cell
import Busbar.Governance.Window

/-!
# The sharded ledger

Cells by bucket id, spread over shards by the id's hash, with one sweep ticker a shard; token accrual and
refunds along a key's chain. Every function here is one lock section of the source.

* `lookup_sweepShards`: what the amortized sweeps leave of a cell.
* `lookup_accrueBucket`, `lookup_refundBucket`: an accrual or refund touches the cell of its bucket only.
-/

namespace Busbar

def govShards : Nat := 64

/-- The shard that owns an id. -/
def shardIndex (id : String) : Nat := fnv1aU64 id % govShards

/-- The age at which the sweep gives up a cell: 31 days. -/
def maxWindow : Nat := 31 * secsPerDay

/-- Cells by bucket id. -/
abbrev Cells := Table String BudgetCell

structure Ledger where
  cells : Cells
  sweepTicker : Nat → Nat

def Ledger.new : Ledger where
  cells := Registry.empty
  sweepTicker := fun _ => 0

/-- Whether a sweep at `now` keeps a cell. A cell of the all-time window ages by its last use, and not at
all while it backs an enforced cap or has something to flush. -/
def sweepKeeps (cost : CostModel) (now : Nat) (id : String) (c : BudgetCell) : Bool :=
  if c.windowStart ≠ 0 then now < satAdd c.windowStart maxWindow
  else cost.bucketEnforcesACap id || c.dirty || now < satAdd c.lastTouch maxWindow

/-- Sweep one shard: drop its stale cells, and prune the models of the others. -/
def sweepShard (cost : CostModel) (now : Nat) (cells : Cells) (shard : Nat) :
    Cells :=
  Table.mapValues (fun id c => if shardIndex id = shard then c.pruneDeadModels else c)
    (cells.retain (fun e => shardIndex e.1 ≠ shard || sweepKeeps cost now e.1 e.2))

/-- Sweep those of the shards that are due. -/
def sweepShards (due : Nat → Bool) (cost : CostModel) (now : Nat) (shards : List Nat)
    (cells : Cells) : Cells :=
  shards.foldl (fun cells shard => if due shard then sweepShard cost now cells shard else cells) cells

/-- Whether the sweep of a shard comes with its next admission: every `interval`-th one. -/
def Ledger.sweepDue (interval : Nat) (L : Ledger) (shard : Nat) : Bool :=
  wrapInc32 (L.sweepTicker shard) % interval = 0

/-- Every shard an admission locks counts it, once. -/
def countAdmission (shards : List Nat) (sweepTicker : Nat → Nat) (shard : Nat) : Nat :=
  if shard ∈ shards then wrapInc32 (sweepTicker shard) else sweepTicker shard

def BudgetCell.credit (c : BudgetCell) (model : String) (tokens : TierTokens) (now : Nat) : BudgetCell :=
  { c.accrue model tokens with dirty := true, lastTouch := now }

/-- One billable request less, not below zero; the admitted requests stay. -/
def BudgetCell.refund (c : BudgetCell) : BudgetCell :=
  { c with billableRequests := c.billableRequests - 1, dirty := true }

/-- Credit tokens to one bucket's cell. -/
def accrueBucket (cells : Cells) (bucketId period model : String) (tokens : TierTokens)
    (now : Nat) : Cells :=
  cells.insert bucketId
    ((BudgetCell.roll (cells.lookup bucketId) (budgetWindow period now)).credit model tokens now)

/-- Take one billable request off a bucket, unless its window has rolled. -/
def refundBucket (cells : Cells) (bucketId period : String) (now : Nat) :
    Cells :=
  match cells.lookup bucketId with
  | some c =>
    if c.windowStart = budgetWindow period now then cells.insert bucketId c.refund else cells
  | none => cells

/-- The buckets, with their window words, that a request of the key through the pool is ledgered to; the
key's own bucket alone when the group is missing. -/
def usageBuckets (cost : CostModel) (key : VirtualKey) (pool : String) : List (String × String) :=
  match cost.chainFor key with
  | .error _ => [(key.id, windowTotal)]
  | .ok chain =>
    (chain.buckets.filter (fun b => b.appliesToPool pool)).map (fun b => (b.bucketId, b.window))

/-- Ledger a response's tokens. -/
def recordUsage (cost : CostModel) (cells : Cells) (key : VirtualKey)
    (pool model : String) (tokens : TierTokens) (now : Nat) : Cells :=
  if tokens.isZero then cells
  else (usageBuckets cost key pool).foldl (fun cells b => accrueBucket cells b.1 b.2 model tokens now) cells

/-- Refund a request without a usable upstream result. -/
def refundRequest (cost : CostModel) (cells : Cells) (key : VirtualKey) (pool : String)
    (now : Nat) : Cells :=
  (usageBuckets cost key pool).foldl (fun cells b => refundBucket cells b.1 b.2 now) cells

/-! ## What each lock section leaves of a cell -/

theorem lookup_sweepShard (cost : CostModel) (now : Nat) (cells : Cells) (shard : Nat)
    (id : String) :
    (sweepShard cost now cells shard).lookup id =
      if shardIndex id = shard then
        ((cells.lookup id).filter (sweepKeeps cost now id)).map BudgetCell.pruneDeadModels
      else cells.lookup id := by
  unfold sweepShard
  rw [Table.lookup_mapValues, Table.lookup_retain]
  by_cases h : shardIndex id = shard
  · simp [h]
  · rcases cells.lookup id with _ | c <;> simp [h]

/-- What the sweeps of an admission leave of a cell: they pass it by, or its one shard is swept. -/
theorem lookup_sweepShards (due : Nat → Bool) (cost : CostModel) (now : Nat) {shards : List Nat}
    (hnd : shards.Nodup) (cells : Cells) (id : String) :
    (sweepShards due cost now shards cells).lookup id =
      if shardIndex id ∈ shards ∧ due (shardIndex id) = true then
        ((cells.lookup id).filter (sweepKeeps cost now id)).map BudgetCell.pruneDeadModels
      else cells.lookup id := by
  induction shards generalizing cells with
  | nil => simp [sweepShards]
  | cons shard shards ih =>
    obtain ⟨hni, hnd'⟩ := List.nodup_cons.1 hnd
    have hfold : sweepShards due cost now (shard :: shards) cells =
        sweepShards due cost now shards (if due shard then sweepShard cost now cells shard else cells) := rfl
    rw [hfold, ih hnd']
    by_cases hs : shardIndex id = shard
    · subst hs
      rw [if_neg (fun h => hni h.1)]
      by_cases hd : due (shardIndex id) = true
      · rw [if_pos hd, if_pos ⟨List.mem_cons_self, hd⟩, lookup_sweepShard, if_pos rfl]
      · rw [if_neg hd, if_neg (fun h => hd h.2)]
    · have hlk : (if due shard then sweepShard cost now cells shard else cells).lookup id = cells.lookup id := by
        split
        · rw [lookup_sweepShard, if_neg hs]
        · rfl
      have hmem : shardIndex id ∈ shard :: shards ↔ shardIndex id ∈ shards := by simp [hs]
      rw [hlk]
      simp only [hmem]

theorem lookup_accrueBucket (cells : Cells) (bucketId period model : String)
    (tokens : TierTokens) (now : Nat) (id : String) :
    (accrueBucket cells bucketId period model tokens now).lookup id =
      if bucketId = id then
        some ((BudgetCell.roll (cells.lookup id) (budgetWindow period now)).credit model tokens now)
      else cells.lookup id := by
  unfold accrueBucket
  rw [Table.lookup_insert]
  by_cases h : bucketId = id
  · rw [if_pos h, if_pos h, h]
  · rw [if_neg h, if_neg h]

theorem lookup_refundBucket (cells : Cells) (bucketId period : String) (now : Nat)
    (id : String) :
    (refundBucket cells bucketId period now).lookup id =
      (cells.lookup id).map (fun c =>
        if bucketId = id ∧ c.windowStart = budgetWindow period now then c.refund else c) := by
  unfold refundBucket
  by_cases hid : bucketId = id
  · subst hid
    rcases hl : cells.lookup bucketId with _ | c
    · simp [hl]
    · dsimp only
      by_cases hw : c.windowStart = budgetWindow period now
      · rw [if_pos hw, Table.lookup_insert_self]
        simp [hw]
      · rw [if_neg hw, hl]
        simp [hw]
  · have hmap : (cells.lookup id).map (fun c =>
        if bucketId = id ∧ c.windowStart = budgetWindow period now then c.refund else c)
        = cells.lookup id := by
      simp [hid]
    rw [hmap]
    split
    · split
      · rw [Table.lookup_insert, if_neg hid]
      · rfl
    · rfl

end Busbar
