import Busbar.Governance.Ledger

/-!
# Admission

`tryAdmit`: resolve the chain, refuse a frozen group, take the in-flight holds of the groups one by one,
then under the locks of all shards of the chain check every bucket and charge every bucket.

* `checkAndCharge_some`, `checkAndCharge_none`: a section that refuses leaves the cells, one that does not
  charges every bucket.
* `lookup_chargeBuckets`: with distinct bucket ids each bucket of the chain is charged once.
-/

namespace Busbar

/-- Why an admission was refused. -/
inductive LimitBlocked where
  | limit (group metric : String) (window pool downgradeTo : Option String) (retryAfter : Option Nat)
  | disabled (group : String)
  | missingGroup (group : String)
  deriving DecidableEq, Repr

/-- In-flight counts by group name. -/
abbrev Gauges := String → Int

namespace ChainBucket

def capped (b : ChainBucket) : Bool := b.requestsCap.isSome || b.tokensCap.isSome || b.budgetCap.isSome

/-- Requests, tokens and spend the caps are tested against: the live cell's when it holds this window or a
newer one, else nothing. What no cap asks for is left at zero. -/
def used (cost : CostModel) (now : Nat) (cells : Cells) (b : ChainBucket) : Nat × Nat × Int :=
  match cells.lookup b.bucketId with
  | some c =>
    if budgetWindow b.window now ≤ c.windowStart then
      (c.requests, if b.tokensCap.isSome then c.totalTokens else 0,
        if b.budgetCap.isSome then cost.deriveSpendCents c.modelViews c.billableRequests true else 0)
    else (0, 0, 0)
  | none => (0, 0, 0)

/-- The first metric with no room for one more request. -/
def blockedMetric (fee : Int) (b : ChainBucket) (used : Nat × Nat × Int) : Option String :=
  if b.requestsCap.any (fun cap => decide (cap < satAdd used.1 1)) then some "requests"
  else if b.tokensCap.any (fun cap => decide (cap ≤ used.2.1)) then some "tokens"
  else if b.budgetCap.any (fun cap => decide (cap ≤ used.2.2 ∨ cap < min (used.2.2 + fee) i64Max)) then
    some "budget"
  else none

/-- The refusal of a bucket, if it refuses. -/
def blocked (cost : CostModel) (now : Nat) (cells : Cells) (b : ChainBucket) :
    Option LimitBlocked :=
  if b.capped then
    (b.blockedMetric cost.pricePerRequestCents (b.used cost now cells)).map fun metric =>
      .limit (b.groupName.getD "") metric (some b.window) (b.scope.map ScopeRef.value)
        (if metric = "budget" then b.downgradeTo.map ScopeRef.value else none)
        ((windowEnd b.window now).map (fun e => max (e - now) 1))
  else none

end ChainBucket

/-- One more admitted request, billable until refunded. -/
def BudgetCell.charge (c : BudgetCell) (now : Nat) : BudgetCell :=
  { c with
    requests := satAdd c.requests 1
    billableRequests := satAdd c.billableRequests 1
    dirty := true
    lastTouch := now }

/-- Charge a bucket's cell, live or reset to the bucket's window. -/
def chargeBucket (now : Nat) (cells : Cells) (b : ChainBucket) : Cells :=
  cells.insert b.bucketId
    ((BudgetCell.roll (cells.lookup b.bucketId) (budgetWindow b.window now)).charge now)

/-- The shards of a list of buckets, ascending and each once. -/
def shardsOf (buckets : List ChainBucket) : List Nat :=
  (List.range govShards).filter (fun shard => buckets.any (fun b => shardIndex b.bucketId = shard))

/-- Check every bucket, and if none refuses charge every bucket. -/
def checkAndCharge (cost : CostModel) (buckets : List ChainBucket) (now : Nat)
    (cells : Cells) : Option LimitBlocked × Cells :=
  match buckets.findSome? (ChainBucket.blocked cost now cells) with
  | some e => (some e, cells)
  | none => (none, buckets.foldl (chargeBucket now) cells)

/-- The lock section of an admission: sweep the locked shards that are due, check, charge. -/
def admitLocked (due : Nat → Bool) (cost : CostModel) (buckets : List ChainBucket) (now : Nat)
    (cells : Cells) : Option LimitBlocked × Cells :=
  checkAndCharge cost buckets now (sweepShards due cost now (shardsOf buckets) cells)

/-- The groups of a chain, the key's own first. -/
def Chain.runtimes (cost : CostModel) (chain : Chain) : List GroupRuntime :=
  chain.groups.filterMap (fun i => cost.groups[i]?)

/-- What an admission has to do: the holds to take, with their caps, and the buckets to charge. -/
structure AdmitPlan where
  holds : List (String × Nat)
  buckets : List ChainBucket

/-- Resolve the chain; an unknown group and a frozen one are refused before anything is taken. -/
def admitPlan (cost : CostModel) (key : VirtualKey) (pool : String) : Except LimitBlocked AdmitPlan :=
  match cost.chainFor key with
  | .error missing => .error (.missingGroup missing)
  | .ok chain =>
    match (chain.runtimes cost).find? (fun g => !g.enabled) with
    | some g => .error (.disabled g.name)
    | none => .ok
      { holds := (chain.runtimes cost).filterMap (fun g => g.concurrentCap.map (fun cap => (g.name, cap)))
        buckets := chain.buckets.filter (fun b => b.appliesToPool pool) }

/-- The gauge's `fetch_update`: one up while strictly below the cap. -/
def takeHold (hold : String × Nat) (gauges : Gauges) : Option Gauges :=
  if gauges hold.1 < min (hold.2 : Int) i64Max then some (Function.update gauges hold.1 (gauges hold.1 + 1))
  else none

def dropHold (gauges : Gauges) (name : String) : Gauges := Function.update gauges name (gauges name - 1)

/-- The refusal of a full gauge. -/
def LimitBlocked.concurrent (group : String) : LimitBlocked := .limit group "concurrent" none none none none

/-- Take the holds in order; when one is refused the ones taken are dropped. -/
def takeHolds (holds : List (String × Nat)) (grant : List String) (gauges : Gauges) :
    Except LimitBlocked (List String) × Gauges :=
  match holds with
  | [] => (.ok grant, gauges)
  | hold :: holds =>
    match takeHold hold gauges with
    | some gauges => takeHolds holds (grant ++ [hold.1]) gauges
    | none => (.error (.concurrent hold.1), grant.foldl dropHold gauges)

/-- `try_admit` as one call: the grant holds the gauges it has raised. -/
def tryAdmit (interval : Nat) (cost : CostModel) (key : VirtualKey) (pool : String) (now : Nat)
    (L : Ledger) (gauges : Gauges) : Except LimitBlocked (List String) × Ledger × Gauges :=
  match admitPlan cost key pool with
  | .error e => (.error e, L, gauges)
  | .ok plan =>
    match takeHolds plan.holds [] gauges with
    | (.error e, gauges) => (.error e, L, gauges)
    | (.ok grant, gauges) =>
      let (result, cells) := admitLocked (L.sweepDue interval) cost plan.buckets now L.cells
      let L : Ledger := ⟨cells, countAdmission (shardsOf plan.buckets) L.sweepTicker⟩
      match result with
      | some e => (.error e, L, grant.foldl dropHold gauges)
      | none => (.ok grant, L, gauges)

/-! ## Checking and charging -/

theorem nodup_shardsOf (buckets : List ChainBucket) : (shardsOf buckets).Nodup :=
  List.nodup_range.filter _

theorem shardIndex_lt (id : String) : shardIndex id < govShards := Nat.mod_lt _ (by decide)

theorem mem_shardsOf {buckets : List ChainBucket} {b : ChainBucket} (hb : b ∈ buckets) :
    shardIndex b.bucketId ∈ shardsOf buckets := by
  unfold shardsOf
  rw [List.mem_filter, List.mem_range]
  exact ⟨shardIndex_lt _, List.any_eq_true.2 ⟨b, hb, by simp⟩⟩

/-- No bucket refuses exactly when the section charges. -/
theorem checkAndCharge_none {cost : CostModel} {buckets : List ChainBucket} {now : Nat}
    {cells : Cells} (h : (checkAndCharge cost buckets now cells).1 = none) :
    (∀ b ∈ buckets, b.blocked cost now cells = none) ∧
      (checkAndCharge cost buckets now cells).2 = buckets.foldl (chargeBucket now) cells := by
  unfold checkAndCharge at h ⊢
  split at h
  · cases h
  · rename_i hf
    exact ⟨List.findSome?_eq_none_iff.1 hf, rfl⟩

theorem checkAndCharge_some {cost : CostModel} {buckets : List ChainBucket} {now : Nat}
    {cells : Cells} {e : LimitBlocked}
    (h : (checkAndCharge cost buckets now cells).1 = some e) :
    buckets.findSome? (ChainBucket.blocked cost now cells) = some e ∧
      (checkAndCharge cost buckets now cells).2 = cells := by
  unfold checkAndCharge at h ⊢
  split at h
  · rename_i e' hf
    cases h
    exact ⟨hf, rfl⟩
  · cases h

theorem lookup_chargeBucket (now : Nat) (cells : Cells) (b : ChainBucket) (id : String) :
    (chargeBucket now cells b).lookup id =
      if b.bucketId = id then
        some ((BudgetCell.roll (cells.lookup id) (budgetWindow b.window now)).charge now)
      else cells.lookup id := by
  unfold chargeBucket
  rw [Table.lookup_insert]
  by_cases h : b.bucketId = id
  · rw [if_pos h, if_pos h, h]
  · rw [if_neg h, if_neg h]

/-- Charging leaves the cells of other buckets alone. -/
theorem lookup_chargeBuckets_of_notMem {now : Nat} {buckets : List ChainBucket} {id : String}
    (h : ∀ b ∈ buckets, b.bucketId ≠ id) (cells : Cells) :
    (buckets.foldl (chargeBucket now) cells).lookup id = cells.lookup id := by
  induction buckets generalizing cells with
  | nil => rfl
  | cons b bs ih =>
    rw [List.foldl_cons, ih (fun b' hb' => h b' (List.mem_cons_of_mem _ hb')), lookup_chargeBucket,
      if_neg (h b List.mem_cons_self)]

/-- **Each bucket is charged once.** -/
theorem lookup_chargeBuckets {now : Nat} {buckets : List ChainBucket}
    (hnd : (buckets.map ChainBucket.bucketId).Nodup) {b : ChainBucket} (hb : b ∈ buckets)
    (cells : Cells) :
    (buckets.foldl (chargeBucket now) cells).lookup b.bucketId =
      some ((BudgetCell.roll (cells.lookup b.bucketId) (budgetWindow b.window now)).charge now) := by
  induction buckets generalizing cells with
  | nil => cases hb
  | cons b' bs ih =>
    rw [List.map_cons, List.nodup_cons] at hnd
    rw [List.foldl_cons]
    rcases List.mem_cons.1 hb with rfl | hb
    · have hne : ∀ b₂ ∈ bs, b₂.bucketId ≠ b.bucketId := by
        intro b₂ hb₂ he
        exact hnd.1 (List.mem_map.2 ⟨b₂, hb₂, he⟩)
      rw [lookup_chargeBuckets_of_notMem hne, lookup_chargeBucket, if_pos rfl]
    · have hne : b'.bucketId ≠ b.bucketId := by
        intro he
        exact hnd.1 (List.mem_map.2 ⟨b, hb, he.symm⟩)
      rw [ih hnd.2 hb, lookup_chargeBucket, if_neg hne]

end Busbar
