import Busbar.Lib.Registry
import Busbar.Api.Store

/-!
# The cost and limit model

Rates, the projection of the configured groups into enforcement buckets, the chain of buckets a key is
admitted through, and the spend derived from a ledger. Dollars are never stored.

* `CostModel.projectGroups`: the limits of each group, merged by window and scope.
* `CostModel.chainFor`: the key's own bucket, then its group's buckets, then each ancestor's.
* `CostModel.deriveSpendCents`: tokens times rates, plus the flat fee per billable request.
-/

namespace Busbar

inductive LimitMetric where
  | requests | tokens | budget | concurrent
  deriving DecidableEq, Repr

inductive LimitWindow where
  | minute | hour | day | month | total
  deriving DecidableEq, Repr

/-- The configuration's spelling, which is also the window word of a bucket. -/
def LimitWindow.asStr : LimitWindow → String
  | minute => "minute"
  | hour => "hour"
  | day => "day"
  | month => "month"
  | total => "total"

structure LimitCfg where
  metric : LimitMetric
  amount : Nat
  per : Option LimitWindow
  scope : Option ScopeRef
  downgradeTo : Option ScopeRef
  deriving DecidableEq, Repr

structure GroupCfg where
  parent : Option String
  enabled : Bool
  limits : List LimitCfg
  deriving DecidableEq, Repr

/-- Rates per token in nano-units. -/
structure RateNanos where
  input : Nat
  output : Nat
  cacheRead : Nat
  cacheWrite : Nat
  deriving DecidableEq, Repr

/-- Four products, summed in 128 bits. -/
def RateNanos.costNanos (r : RateNanos) (t : TierTokens) : Nat :=
  (t.input * r.input + t.output * r.output + t.cacheRead * r.cacheRead + t.cacheWrite * r.cacheWrite) % 2 ^ 128

/-- All limits of a group that share a window and a scope. -/
structure GroupBucket where
  bucketId : String
  window : String
  requestsCap : Option Nat
  tokensCap : Option Nat
  budgetCap : Option Int
  scope : Option ScopeRef
  downgradeTo : Option ScopeRef
  deriving DecidableEq, Repr

structure GroupRuntime where
  name : String
  enabled : Bool
  concurrentCap : Option Nat
  buckets : List GroupBucket
  parent : Option Nat
  deriving DecidableEq, Repr

/-- A bucket of a chain; the key's own bucket has no group and no caps. -/
structure ChainBucket where
  bucketId : String
  groupName : Option String
  window : String
  requestsCap : Option Nat
  tokensCap : Option Nat
  budgetCap : Option Int
  scope : Option ScopeRef
  downgradeTo : Option ScopeRef
  deriving DecidableEq, Repr

/-- Group-wide buckets take part in every request, a scoped one in those of its pool. -/
def ChainBucket.appliesToPool (b : ChainBucket) (pool : String) : Bool :=
  match b.scope with
  | none => true
  | some s => s.kind == "pool" && s.value == pool

structure Chain where
  buckets : List ChainBucket
  groups : List Nat

structure CostModel where
  rates : Option (Table String RateNanos)
  groups : List GroupRuntime
  groupIdx : String → Option Nat
  cappedBucketIds : List String
  pricePerRequestCents : Int

def nanosPerCent : Nat := 10000000

def windowTotal : String := "total"

def groupBucketPrefix : String := "group:"

namespace GroupBucket

/-- The ledger id of a bucket. -/
def idOf (name window : String) : Option ScopeRef → String
  | some s => groupBucketPrefix ++ name ++ "@" ++ window ++ "#" ++ s.kind ++ ":" ++ s.value
  | none => groupBucketPrefix ++ name ++ "@" ++ window

def empty (name window : String) (scope : Option ScopeRef) : GroupBucket where
  bucketId := idOf name window scope
  window := window
  requestsCap := none
  tokensCap := none
  budgetCap := none
  scope := scope
  downgradeTo := none

/-- The closure `min_u`: the smaller amount of a metric counts. -/
def minCap (cur : Option Nat) (amount : Nat) : Option Nat := some (cur.elim amount (fun c => min c amount))

/-- Merge one windowed limit. -/
def add (b : GroupBucket) (l : LimitCfg) : GroupBucket :=
  match l.metric with
  | .requests => { b with requestsCap := minCap b.requestsCap l.amount }
  | .tokens => { b with tokensCap := minCap b.tokensCap l.amount }
  | .budget =>
    let amount : Int := min l.amount i64Max
    -- the strictest budget decides what happens on exhaustion
    { b with
      downgradeTo := if b.budgetCap.all (fun c => amount < c) then l.downgradeTo else b.downgradeTo
      budgetCap := some (b.budgetCap.elim amount (fun c => min c amount)) }
  | .concurrent => b

def capped (b : GroupBucket) : Bool := b.requestsCap.isSome || b.tokensCap.isSome || b.budgetCap.isSome

def toChain (groupName : String) (b : GroupBucket) : ChainBucket where
  bucketId := b.bucketId
  groupName := some groupName
  window := b.window
  requestsCap := b.requestsCap
  tokensCap := b.tokensCap
  budgetCap := b.budgetCap
  scope := b.scope
  downgradeTo := b.downgradeTo

end GroupBucket

/-- Merge a limit into the bucket of its window and scope, or into a new one at the end. -/
def addToBuckets (name : String) (l : LimitCfg) (window : String) : List GroupBucket → List GroupBucket
  | [] => [(GroupBucket.empty name window l.scope).add l]
  | b :: bs =>
    if b.window = window ∧ b.scope = l.scope then b.add l :: bs else b :: addToBuckets name l window bs

/-- One limit of a group: the in-flight cap, or a windowed cap. -/
def projectLimit (name : String) (acc : Option Nat × List GroupBucket) (l : LimitCfg) :
    Option Nat × List GroupBucket :=
  match l.metric, l.per with
  | .concurrent, _ => (GroupBucket.minCap acc.1 l.amount, acc.2)
  | _, some window => (acc.1, addToBuckets name l window.asStr acc.2)
  | _, none => acc

namespace CostModel

/-- The position of a name in the sorted group names. -/
def indexOf (names : List String) (name : String) : Option Nat := names.findIdx? (fun n => n = name)

/-- Project the groups, given in name order. -/
def projectGroups (groups : Table String GroupCfg) : List GroupRuntime :=
  groups.rows.map fun entry =>
    let projected := entry.2.limits.foldl (projectLimit entry.1) (none, [])
    { name := entry.1
      enabled := entry.2.enabled
      concurrentCap := projected.1
      buckets := projected.2
      parent := entry.2.parent.bind (indexOf (groups.rows.map Prod.fst)) }

/-- The model of a configuration; `rates` is the rate card after its conversion to nano-units. -/
def resolveParts (rates : Option (Table String RateNanos)) (perRequestFee : Int)
    (groups : Table String GroupCfg) :
    CostModel where
  rates := rates
  groups := projectGroups groups
  groupIdx := indexOf (groups.rows.map Prod.fst)
  cappedBucketIds :=
    (((projectGroups groups).flatMap GroupRuntime.buckets).filter GroupBucket.capped).map GroupBucket.bucketId
  pricePerRequestCents := max perRequestFee 0

def bucketEnforcesACap (cost : CostModel) (bucketId : String) : Bool := cost.cappedBucketIds.contains bucketId

def rateFor (cost : CostModel) (model : String) : Option RateNanos :=
  match cost.rates with
  | none => some ⟨0, 0, 0, 0⟩
  | some table => table.lookup model

/-- Spend in cents: saturating, never negative; a model without a rate costs nothing. -/
def deriveSpendCents (cost : CostModel) (models : List (String × TierTokens)) (feeRequests : Nat)
    (includeRequestFee : Bool) : Int :=
  let nanos := models.foldl (fun nanos m =>
    match cost.rateFor m.1 with
    | some rate => min (nanos + rate.costNanos m.2) (2 ^ 128 - 1)
    | none => nanos) 0
  let cents : Int := min (nanos / nanosPerCent : Nat) i64Max
  let cents :=
    if includeRequestFee then
      let fee := min (cost.pricePerRequestCents * min (feeRequests : Int) i64Max) i64Max
      min (cents + fee) i64Max
    else cents
  max cents 0

/-- The groups from `next` to the root; the walk stops after as many steps as there are groups. -/
def walkGroups (cost : CostModel) : Nat → Option Nat → List Nat
  | 0, _ => []
  | _ + 1, none => []
  | fuel + 1, some i =>
    match cost.groups[i]? with
    | none => []
    | some g => i :: cost.walkGroups fuel g.parent

/-- The key's own bucket: it attributes and never blocks. -/
def keyBucket (id : String) : ChainBucket where
  bucketId := id
  groupName := none
  window := windowTotal
  requestsCap := none
  tokensCap := none
  budgetCap := none
  scope := none
  downgradeTo := none

/-- The buckets of the groups of a walk. -/
def groupBuckets (cost : CostModel) (groups : List Nat) : List ChainBucket :=
  groups.flatMap fun i =>
    match cost.groups[i]? with
    | none => []
    | some g => g.buckets.map (GroupBucket.toChain g.name)

/-- The enforcement chain of a key; a group the configuration does not know is an error. -/
def chainFor (cost : CostModel) (key : VirtualKey) : Except String Chain :=
  match key.group with
  | none => .ok ⟨[keyBucket key.id], []⟩
  | some name =>
    match cost.groupIdx name with
    | none => .error name
    | some i =>
      let groups := cost.walkGroups cost.groups.length (some i)
      .ok ⟨keyBucket key.id :: cost.groupBuckets groups, groups⟩

end CostModel

end Busbar
