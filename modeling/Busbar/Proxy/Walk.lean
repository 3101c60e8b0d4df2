import Busbar.Proxy.Select

/-!
# The walk over pools and lanes

A request tries the lanes of its pool one after the other, at most its pool's hops plus one. When no lane is
left or no hop, the pool's exhaustion mode decides: shed, wait for a slot, serve with the least bad member, or go
on in another pool, whose own mode decides in turn. What a lane answers is the caller's, except for failures that
another lane may serve.

* `attemptLoop`: the attempts in the request's own pool.
* `handleExhaustionForPool`, `handleFallbackPool`: the exhaustion modes and the hop to another pool.
* `forwardWithPool`: the whole walk of a request.
-/

namespace Busbar.Proxy

open Prog

variable {n : Nat}

/-- What the caller gets. -/
inductive Response (n : Nat) where
  | relayed (pool : String) (lane : Fin n)
  | status503 (retryAfterSecs : Nat)
  | overloaded
  | requestTimeout
  | gateRejected (policy : String)
  | forbidden
  | unpriced (model : String)
  | blocked (limit : LimitBlocked)
  | invalidRequest (model : String)
  | notFound (model : String)
  deriving DecidableEq

/-- The record of a walk: the pools entered, and each dispatch with the pool it was made for. -/
structure Walked (n : Nat) where
  entered : List String
  attempts : List (String × Fin n)
  response : Response n
  deriving DecidableEq

/-- The attempts in one pool; without an answer the pool is exhausted. -/
structure Round (n : Nat) where
  answer : Option (Response n)
  attempts : List (String × Fin n)
  tried : Tried n

def Round.preceded (r : Round n) (attempt : String × Fin n) : Round n :=
  { r with attempts := attempt :: r.attempts }

/-- The context a pool's selection leaves, with the lane picked as tried. -/
def RequestCtx.picked (ctx : RequestCtx n) (i : Fin n) (reasons : List (Fin n × Unavailable)) : RequestCtx n :=
  { ctx.exclude i with excludedReasons := reasons }

/-- An attempt off the main path relays whatever the lane answers. -/
def forwardOnce (pool : String) (i : Fin n) : Prog (World n) Empty (Option (Response n)) := do
  let reply ← read (fun w => w.upstream i)
  match reply with
  | .unreachable => pure none
  | .answered | .failed | .contextLength => pure (some (.relayed pool i))

/-- The shed, with the time to retry after. -/
def handleStatus503 (cands : List (WeightedLane n)) (now : Nat) (pool : String) : Prog (World n) Empty (Walked n) := do
  let secs ← read (World.retryAfterSecs cands now pool)
  pure ⟨[], [], .status503 secs⟩

/-- The single attempt of a last resort. -/
def lastAttempt (cands : List (WeightedLane n)) (pool : String) (i : Fin n) : Prog (World n) Empty (Walked n) := do
  match ← forwardOnce pool i with
  | some response => pure ⟨[], [(pool, i)], response⟩
  | none =>
    let t ← read World.now
    let shed ← handleStatus503 cands t pool
    pure { shed with attempts := [(pool, i)] }

/-- The first of the lanes with a free slot. -/
def acquireFirst : List (Fin n) → Prog (World n) Empty (Option (Fin n × Permit))
  | [] => pure none
  | i :: rest => do
    match ← call (World.tryAcquire i) with
    | some permit => pure (some (i, permit))
    | none => acquireFirst rest

/-- The admissible members by the cooldown they have left. -/
def rankedByCooldown (cands : List (WeightedLane n)) (pool : String) (now : Nat) (w : World n) : List (Fin n) :=
  ((cands.map WeightedLane.idx).filter (fun i => (w.lane i).laneAdmissible)).mergeSort
    (fun i j => w.cooldownRemainingIn pool i now ≤ w.cooldownRemainingIn pool j now)

/-- The member whose cooldown ends first serves although its breaker is open; the lanes tried are not left out. -/
def handleLeastBad (cands : List (WeightedLane n)) (now : Nat) (pool : String) :
    Prog (World n) Empty (Walked n) := do
  let ranked ← read (rankedByCooldown cands pool now)
  match ← acquireFirst ranked with
  | none => handleStatus503 cands now pool
  | some (i, _) => lastAttempt cands pool i

/-- The lanes that waiting can help. -/
def atCapLanes (reasons : List (Fin n × Unavailable)) : List (Fin n) :=
  reasons.foldl
    (fun lanes r =>
      match r.2 with
      | .atCapacity _ => if r.1 ∈ lanes then lanes else lanes ++ [r.1]
      | .dead | .budgetExhausted | .breakerOpen _ | .probeInFlight => lanes)
    []

/-- The lanes of a wait that have a semaphore. -/
def waitable (lanes : List (Fin n)) (bounded : Fin n → Bool) : List (Fin n) := lanes.filter bounded

def withoutLane (lanes : List (Fin n)) (lane : Fin n) : List (Fin n) := lanes.filter (· ≠ lane)

/-- The wait for a slot: a lane whose breaker refuses the winner of its slot leaves the wait. -/
def queueLoop (cands : List (WeightedLane n)) (pool : String) (atCap : List (Fin n)) :
    Prog (World n) Empty (Walked n) := do
  let bounded ← read (fun w i => World.hasSemaphore i w)
  let t ← read World.now
  if (waitable atCap bounded).isEmpty then handleStatus503 cands t pool
  else
    match ← read (World.awaitFreed (waitable atCap bounded)) with
    | none =>
      let t ← read World.now
      handleStatus503 cands t pool
    | some lane =>
      let t ← read World.now
      match ← call (World.tryAdmitBreaker pool lane.1 t) with
      | .ok _ => lastAttempt cands pool lane.1
      | .error _ =>
        modify (World.dropPermit lane.1 .bounded)
        let t ← read World.now
        if (withoutLane atCap lane.1).isEmpty then handleStatus503 cands t pool
        else queueLoop cands pool (withoutLane atCap lane.1)
termination_by atCap.length
decreasing_by
  exact List.length_filter_lt_length_iff_exists.2
    ⟨lane.1, (List.mem_filter.1 lane.2).1, by simp⟩

def handleQueue (cands : List (WeightedLane n)) (ctx : RequestCtx n) (pool : String) :
    Prog (World n) Empty (Walked n) := do
  let t ← read World.now
  if (atCapLanes ctx.excludedReasons).isEmpty then handleStatus503 cands t pool
  else queueLoop cands pool (atCapLanes ctx.excludedReasons)

/-- The members of a fallback pool, one after the other, by plain weighted selection. -/
def fallbackLoop (cands : List (WeightedLane n)) (pool : String) (ctx : RequestCtx n) :
    Prog (World n) Empty (Round n) := do
  let t ← read World.now
  if ctx.expired t then pure ⟨some .requestTimeout, [], ctx.toTried⟩
  else
    let pick ← pickAmong cands ctx none pool none
    match pick.choice with
    | none => pure ⟨none, [], { ctx.toTried with excludedReasons := pick.excludedReasons }⟩
    | some (i, _) =>
      match ← forwardOnce pool i.1 with
      | some response => pure ⟨some response, [(pool, i.1)], (ctx.picked i.1 pick.excludedReasons).toTried⟩
      | none =>
        let rest ← fallbackLoop cands pool (ctx.picked i.1 pick.excludedReasons)
        pure (rest.preceded (pool, i.1))
termination_by (ctx.fillCandidates cands).length
decreasing_by
  obtain ⟨m, hm, hi⟩ := i.2
  exact Visited.untried_lt (fun _ hk => List.mem_cons_of_mem _ hk) hm (hi ▸ List.mem_cons_self)

/-- The pools a request may still enter. -/
def App.unvisited (app : App n) (visited : List String) : Nat :=
  (Visited.untried Prod.fst app.fallbackPools.rows visited).length

theorem App.unvisited_le (app : App n) (visited : List String) (pool : String) :
    app.unvisited (pool :: visited) ≤ app.unvisited visited :=
  Visited.untried_le fun _ hk => List.mem_cons_of_mem _ hk

theorem App.unvisited_lt {app : App n} {visited : List String} {pool : String} {cands : List (WeightedLane n)}
    (hpool : app.fallbackPools.lookup pool = some cands) (hnew : pool ∉ visited) :
    app.unvisited (pool :: visited) < app.unvisited visited :=
  Visited.untried_lt (fun _ hk => List.mem_cons_of_mem _ hk)
    (Visited.mem_untried.2 ⟨Table.lookup_eq_some.1 hpool, hnew⟩) List.mem_cons_self

mutual

/-- The pool is marked visited before its mode is looked up, so that no later hop comes back to it. -/
def handleExhaustionForPool (app : App n) (cands : List (WeightedLane n)) (now : Nat) (pool : String)
    (ctx : RequestCtx n) : Prog (World n) Empty (Walked n) :=
  match app.mode pool with
  | .status503 => handleStatus503 cands now pool
  | .fallbackPool name => handleFallbackPool app name (ctx.markPoolVisited pool)
  | .leastBad => handleLeastBad cands now pool
  | .queue _ => handleQueue cands (ctx.markPoolVisited pool) pool
termination_by 2 * app.unvisited ctx.visitedPools + 1
decreasing_by
  have hle := app.unvisited_le ctx.visitedPools pool
  simp only [RequestCtx.markPoolVisited]
  omega

def handleFallbackPool (app : App n) (pool : String) (ctx : RequestCtx n) : Prog (World n) Empty (Walked n) := do
  let t ← read World.now
  if ctx.expired t then pure ⟨[], [], .requestTimeout⟩
  else if _hnew : pool ∈ ctx.visitedPools then do
    let t ← read World.now
    handleStatus503 [] t pool
  else
    match _hpool : app.fallbackPools.lookup pool with
    | none => do
      let t ← read World.now
      handleStatus503 [] t pool
    | some cands =>
      match ctx.enforceRestricts app pool cands with
      | .error name => pure ⟨[], [], .gateRejected name⟩
      | .ok cands => do
        let cands := app.withoutExclusions pool cands
        let ctx := ctx.markPoolVisited pool
        let round ← fallbackLoop cands pool ctx
        match round.answer with
        | some response => pure ⟨[pool], round.attempts, response⟩
        | none =>
          let t ← read World.now
          let rest ← handleExhaustionForPool app cands t pool { ctx with toTried := round.tried }
          pure ⟨pool :: rest.entered, round.attempts ++ rest.attempts, rest.response⟩
termination_by 2 * app.unvisited ctx.visitedPools
decreasing_by
  have hlt := App.unvisited_lt _hpool _hnew
  simp only [RequestCtx.markPoolVisited]
  omega

end

/-- A request too large for the lane that refused it is too large for every candidate whose window is known and
no larger. -/
def RequestCtx.excludeContext (ctx : RequestCtx n) (app : App n) (cands : List (WeightedLane n)) (i : Fin n) :
    RequestCtx n :=
  cands.foldl
    (fun ctx cand =>
      match (app.lanes cand.idx).contextMax, (app.lanes i).contextMax with
      | some candContextMax, some failedLimit =>
        if candContextMax ≤ failedLimit then ctx.exclude cand.idx else ctx
      | _, _ => ctx)
    ctx

/-- The attempts in the request's own pool; `attempts` counts those still allowed. -/
def attemptLoop (app : App n) (cands : List (WeightedLane n)) (pool : String) (affinityKeyHash : Option Nat)
    (policyOrder : Option (List (Fin n))) : Nat → RequestCtx n → Prog (World n) Empty (Round n)
  | 0, ctx => pure ⟨none, [], ctx.toTried⟩
  | attempts + 1, ctx => do
    let t ← read World.now
    if ctx.expired t then pure ⟨some .requestTimeout, [], ctx.toTried⟩
    else
      let pick ← pickAmong cands ctx affinityKeyHash pool policyOrder
      match pick.choice with
      | none =>
        pure ⟨if cands.isEmpty then some .overloaded else none, [],
          { ctx.toTried with excludedReasons := pick.excludedReasons }⟩
      | some (i, _) =>
        let ctx := ctx.picked i.1 pick.excludedReasons
        let reply ← read (fun w => w.upstream i.1)
        match reply with
        | .answered => pure ⟨some (.relayed pool i.1), [(pool, i.1)], ctx.toTried⟩
        | .unreachable | .failed =>
          let rest ← attemptLoop app cands pool affinityKeyHash policyOrder attempts ctx
          pure (rest.preceded (pool, i.1))
        | .contextLength =>
          let rest ← attemptLoop app cands pool affinityKeyHash policyOrder attempts (ctx.excludeContext app cands i.1)
          pure (rest.preceded (pool, i.1))

/-- What a pool's gates and its routing policy make of the candidates. -/
structure Reconciled (n : Nat) where
  cands : List (WeightedLane n)
  policyOrder : Option (List (Fin n))
  activeRestricts : List RestrictConstraint

/-- The hooks of a pool; an error names the one that rejects the request. -/
abbrev Hooks (n : Nat) := String → List (WeightedLane n) → Except String (Reconciled n)

def forwardWithPool (app : App n) (hooks : Hooks n) (cands : List (WeightedLane n)) (pool : String)
    (affinityKeyHash : Option Nat) : Prog (World n) Empty (Walked n) := do
  let failover := app.poolFailover pool
  let deadlineSecs := (failover.map FailoverCfg.timeoutSecs).getD defaultFailoverDeadlineSecs
  let maxCap := (failover.map FailoverCfg.maxHops).getD defaultFailoverCap
  let start ← read World.now
  match hooks pool (app.withoutExclusions pool cands) with
  | .error name => pure ⟨[], [], .gateRejected name⟩
  | .ok r =>
    let ctx := RequestCtx.new start deadlineSecs r.activeRestricts
    let round ← attemptLoop app r.cands pool affinityKeyHash r.policyOrder (maxCap + 1) ctx
    match round.answer with
    | some response => pure ⟨[pool], round.attempts, response⟩
    | none =>
      let t ← read World.now
      let rest ← handleExhaustionForPool app r.cands t pool { ctx with toTried := round.tried }
      pure ⟨pool :: rest.entered, round.attempts ++ rest.attempts, rest.response⟩

end Busbar.Proxy
