import Busbar.Governance.Admit
import Busbar.Health.Swrr
import Busbar.Lib.Found
import Busbar.Lib.Visited

/-!
# Pools, and what a request finds

A pool is a list of weighted lanes and a mode for when it is exhausted; a pool that is exhausted may name
another one to fall back to. A request carries a context from pool to pool: its deadline, the lanes it has
tried, the pools it has visited. Between two of its accesses to the world the other requests, the prober and
the clock may change everything in it.

* `App`: the configuration, over `n` lanes.
* `RequestCtx`: the context of one request.
* `World`: the health store with a lane for each of the `n`, the clock, what the governance and the upstreams
  answer.
* `World.selectWeightedIn`, `World.tryAdmit`, ...: the accesses.
-/

namespace Busbar.Proxy

/-- What a pool does when none of its members can serve. -/
inductive OnExhausted where
  | status503
  | fallbackPool (name : String)
  | leastBad
  | queue (maxMs : Nat)
  deriving DecidableEq, Repr

inductive PolicyOnError where
  | weighted | reject | first
  deriving DecidableEq, Repr

/-- A restriction that a gate of the first pool put on the request. -/
structure RestrictConstraint where
  tagsAny : List String
  onEmpty : PolicyOnError
  name : String

structure FailoverCfg where
  timeoutSecs : Nat
  exclusions : Option (List String)
  maxHops : Nat

def defaultFailoverDeadlineSecs : Nat := 120

def defaultFailoverCap : Nat := 3

/-- What the walk reads of a lane's configuration. -/
structure Lane where
  model : String
  provider : String
  contextMax : Option Nat

scoped instance lawfulFin (n : Nat) : LawfulBEq (Fin n) := inferInstance

/-- A member of a pool; its index is one of the `n` configured lanes. -/
structure WeightedLane (n : Nat) where
  idx : Fin n
  weight : Nat
  deriving DecidableEq

structure MemberMeta where
  tags : List String

structure PoolRuntime (n : Nat) where
  members : Table (Fin n) MemberMeta
  failover : Option FailoverCfg

structure App (n : Nat) where
  lanes : Fin n → Lane
  pools : Table String (List (WeightedLane n))
  byModel : Table String (Fin n)
  onExhaustedCfgs : Table String OnExhausted
  poolRuntime : Table String (PoolRuntime n)
  failoverCfg : Option FailoverCfg
  governance : Bool
  pricingEnabled : Bool
  modelUnpriced : String → Bool
  /-- The parser of the configuration refuses a fallback pool without a name. -/
  fallbackNamed : ∀ pool name, onExhaustedCfgs.lookup pool = some (.fallbackPool name) → name ≠ ""

variable {n : Nat}

namespace App

/-- Every pool can be a fallback target. -/
def fallbackPools (app : App n) : Table String (List (WeightedLane n)) := app.pools

/-- The exhaustion mode of a pool; an unknown pool answers 503. -/
def mode (app : App n) (pool : String) : OnExhausted := (app.onExhaustedCfgs.lookup pool).getD .status503

/-- A pool's own failover settings before the global ones. -/
def poolFailover (app : App n) (pool : String) : Option FailoverCfg :=
  ((app.poolRuntime.lookup pool).bind PoolRuntime.failover).or app.failoverCfg

/-- The candidates the pool's blocklist leaves. -/
def withoutExclusions (app : App n) (pool : String) (cands : List (WeightedLane n)) : List (WeightedLane n) :=
  match (app.poolFailover pool).bind FailoverCfg.exclusions with
  | some excl => cands.filter (fun wl => !excl.any (· == (app.lanes wl.idx).model))
  | none => cands

end App

/-- The lanes a request tried, and why the last selection passed lanes over. -/
structure Tried (n : Nat) where
  excluded : List (Fin n)
  excludedReasons : List (Fin n × Unavailable)

/-- The context of a request. -/
structure RequestCtx (n : Nat) extends Tried n where
  deadline : Nat
  visitedPools : List String
  activeRestricts : List RestrictConstraint

namespace RequestCtx

def new (start deadlineSecs : Nat) (activeRestricts : List RestrictConstraint) : RequestCtx n where
  excluded := []
  excludedReasons := []
  deadline := satAdd start deadlineSecs
  visitedPools := []
  activeRestricts := activeRestricts

def expired (ctx : RequestCtx n) (now : Nat) : Bool := decide (ctx.deadline ≤ now)

def exclude (ctx : RequestCtx n) (i : Fin n) : RequestCtx n := { ctx with excluded := i :: ctx.excluded }

def markPoolVisited (ctx : RequestCtx n) (pool : String) : RequestCtx n :=
  { ctx with visitedPools := pool :: ctx.visitedPools }

/-- The candidates not tried yet. -/
def fillCandidates (ctx : RequestCtx n) (cands : List (WeightedLane n)) : List (WeightedLane n) :=
  Visited.untried WeightedLane.idx cands ctx.excluded

/-- One restriction on the members of a pool, by the pool's own tags; an error names the gate. -/
def restrictTo (app : App n) (pool : String) (cands : List (WeightedLane n)) (r : RestrictConstraint) :
    Except String (List (WeightedLane n)) :=
  let members := (app.poolRuntime.lookup pool).map PoolRuntime.members
  let restricted := cands.filter fun wl =>
    (members.bind (fun m => m.lookup wl.idx)).any fun about => about.tags.any fun t => r.tagsAny.any (· == t)
  if restricted.isEmpty then if r.onEmpty = .weighted then .ok cands else .error r.name
  else .ok restricted

def enforceRestricts (ctx : RequestCtx n) (app : App n) (pool : String) (cands : List (WeightedLane n)) :
    Except String (List (WeightedLane n)) :=
  ctx.activeRestricts.foldlM (restrictTo app pool) cands

end RequestCtx

/-- What comes back from a lane: an answer for the caller, no response at all, a failure that another lane may
serve, or a request too large for the lane's model. -/
inductive Reply where
  | answered | unreachable | failed | contextLength
  deriving DecidableEq, Repr

/-- What a request finds. `freed` is the lane whose semaphore hands the next permit to a waiting request; without
one the wait ends first. -/
structure World (n : Nat) where
  health : HealthState
  now : Nat
  admission : String → Except LimitBlocked Unit
  upstream : Fin n → Reply
  freed : Option (Fin n)
  /-- The store has the configured lanes. -/
  sized : health.lanes.length = n

/-- A lane of one of these members. -/
abbrev Among (ms : List (WeightedLane n)) := { i : Fin n // ∃ m ∈ ms, m.idx = i }

/-! ## The accesses -/

namespace World

def lane (w : World n) (i : Fin n) : LaneState := w.health.lanes.get (i.cast w.sized.symm)

def setLane (w : World n) (i : Fin n) (ls : LaneState) : World n :=
  { w with
    health := w.health.onLane i (fun _ => ls)
    sized := (HealthState.length_onLane _ _ _).trans w.sized }

theorem cands_in_store (w : World n) (ms : List (WeightedLane n)) :
    ∀ c ∈ ms.map (fun m => m.idx.val), c < w.health.lanes.length := by
  intro c hc
  obtain ⟨m, -, rfl⟩ := List.mem_map.1 hc
  exact m.idx.isLt.trans_eq w.sized.symm

/-- The weighted selection among the members. -/
def selectWeightedIn (pool : String) (ms : List (WeightedLane n)) (now : Nat) (w : World n) :
    Option (Among ms) × World n :=
  let weights := ms.map WeightedLane.weight
  let picked : Option (Among ms) :=
    match h : (w.health.selectWeightedFor pool (ms.map (fun m => m.idx.val)) weights now).1 with
    | none => absurd h (HealthState.selectWeightedFor_ne_none pool weights now (w.cands_in_store ms))
    | some none => none
    | some (some i) =>
      have hi : ∃ m ∈ ms, m.idx.val = i := List.mem_map.1 (HealthState.selectWeightedFor_mem h)
      some ⟨⟨i, hi.elim fun _ hm => hm.2 ▸ Fin.isLt _⟩, hi.imp fun _ hm => ⟨hm.1, Fin.ext hm.2⟩⟩
  (picked, { w with
    health := (w.health.selectWeightedFor pool (ms.map (fun m => m.idx.val)) weights now).2
    sized := (HealthState.length_selectWeightedFor _ _ _ _ _).trans w.sized })

def readyIn (pool : String) (i : Fin n) (now : Nat) (w : World n) : Bool :=
  (w.lane i).laneAdmissible && cellReadyBreaker ((w.lane i).cell pool) now

def tryAdmit (pool : String) (i : Fin n) (now : Nat) (w : World n) : Except Unavailable Admit × World n :=
  let r := (w.lane i).tryAdmit pool now
  (r.1, w.setLane i r.2)

def tryAdmitBreaker (pool : String) (i : Fin n) (now : Nat) (w : World n) : Except Unavailable Nat × World n :=
  let r := (w.lane i).tryAdmitBreaker pool now
  (r.1, w.setLane i r.2)

def tryAcquire (i : Fin n) (w : World n) : Option Permit × World n :=
  match (w.lane i).tryAcquire with
  | none => (none, w)
  | some (permit, ls) => (some permit, w.setLane i ls)

def dropPermit (i : Fin n) (permit : Permit) (w : World n) : World n := w.setLane i ((w.lane i).dropPermit permit)

/-- An unbounded lane has no semaphore to wait on. -/
def hasSemaphore (i : Fin n) (w : World n) : Bool := decide ((w.lane i).max < maxPermits)

/-- The end of a wait on these lanes: a permit one of them frees, or none. A freed permit passes to the waiter,
so the count of free ones stays. -/
def awaitFreed (lanes : List (Fin n)) (w : World n) : Option { i : Fin n // i ∈ lanes } :=
  match w.freed with
  | some i => if h : i ∈ lanes then some ⟨i, h⟩ else none
  | none => none

/-- The cooldown a member's cell has left. -/
def cooldownRemainingIn (pool : String) (i : Fin n) (now : Nat) (w : World n) : Nat :=
  ((w.lane i).cell pool).cooldownUntil - now

def atCapacityRetryAfterSecs : Nat := 2

/-- The soonest genuine cooldown of an admissible member, or the saturation floor. -/
def retryAfterSecs (cands : List (WeightedLane n)) (now : Nat) (pool : String) (w : World n) : Nat :=
  let cooldowns := (cands.filter (fun wl => (w.lane wl.idx).laneAdmissible)).map
    (fun wl => w.cooldownRemainingIn pool wl.idx now)
  max ((cooldowns.filter (0 < ·)).min?.getD atCapacityRetryAfterSecs) 1

end World

end Busbar.Proxy
