import Busbar.Lib.Lease
import Busbar.Lib.Run
import Busbar.Health.Lane

/-!
# Runs of the health store

The store runs any sequence of its operations on its lanes, and a log records who was admitted to which
cell with which epoch and who gave an epoch back.

* `LaneState.step`: one operation on a lane, with what it shows.
* `HealthRun.after`: the store and its log after a run from a fresh or restored store.
* `HealthRun.wins`, `HealthRun.unreleased`: what a log says about one cell.
-/

namespace Busbar

/-- The operations on a lane's breaker cells, with those that move its permits and budget. The clock, the
jitter seeds and the pools' configurations are arguments. -/
inductive LaneOp where
  | cell (pool : String)
  | tryAdmit (pool : String) (now : Nat)
  | tryAdmitBreaker (pool : String) (now : Nat)
  | recordFailure (pool : String) (now : Nat) (cfg : BreakerCfg) (retryAfter : Option Nat)
      (seed : JitterSeed)
  | recordSuccess (pool : String) (now : Nat)
  | recordHardDownAllCells (reason : String) (now : Nat)
  | recordProbeSuccessAllCells (now : Nat)
  | recordProbeFailureAllCells (now : Nat) (resolveCfg : String → BreakerCfg) (retryAfter : Option Nat)
      (seed : String → JitterSeed)
  | recoverLane (now : Nat)
  | releaseProbeOwnedIn (pool : String) (ownedEpoch : Nat)
  | dropGuard (guard : ProbeGuard)
  | releaseProbeIn (pool : String)
  | dropPermit (permit : Permit)
  | spendBudget
  | refundBudget

/-- What an operation shows: an admission to a pool's cell, or a release, with the epoch it carries. -/
abbrev Note := String × Lease.Event Nat

namespace LaneState

/-- An admission won the probe when it left the cell HalfOpen. -/
def admission (ls : LaneState) (pool : String) (probeEpoch : Nat) : Note :=
  (pool, if (ls.cell pool).breakerState = stHalfOpen then .granted probeEpoch else .joined probeEpoch)

/-- One operation on a lane. -/
def step (lim : HealthLimits) (ls : LaneState) : LaneOp → LaneState × Option Note
  | .cell pool => (ls.touch pool, none)
  | .tryAdmit pool now =>
    match ls.tryAdmit pool now with
    | (.ok a, ls') => (ls', some (ls'.admission pool a.probeEpoch))
    | (.error _, ls') => (ls', none)
  | .tryAdmitBreaker pool now =>
    match ls.tryAdmitBreaker pool now with
    | (.ok probeEpoch, ls') => (ls', some (ls'.admission pool probeEpoch))
    | (.error _, ls') => (ls', none)
  | .recordFailure pool now cfg retryAfter seed =>
    (ls.recordFailureFor lim pool now cfg retryAfter seed, none)
  | .recordSuccess pool now => (ls.recordSuccessFor pool now, none)
  | .recordHardDownAllCells reason now => (ls.recordHardDownAllCells lim reason now, none)
  | .recordProbeSuccessAllCells now => (ls.recordProbeSuccessAllCells now, none)
  | .recordProbeFailureAllCells now resolveCfg retryAfter seed =>
    (ls.recordProbeFailureAllCells lim now resolveCfg retryAfter seed, none)
  | .recoverLane now => (ls.recoverLane now, none)
  | .releaseProbeOwnedIn pool ownedEpoch =>
    (ls.releaseProbeOwnedIn pool ownedEpoch, some (pool, .released ownedEpoch))
  | .dropGuard guard =>
    if guard.armed then
      (ls.releaseProbeOwnedIn guard.pool guard.probeEpoch, some (guard.pool, .released guard.probeEpoch))
    else (ls, none)
  | .releaseProbeIn pool => (ls.releaseProbeIn pool, none)
  | .dropPermit permit => (ls.dropPermit permit, none)
  | .spendBudget => (ls.spendBudget.2, none)
  | .refundBudget => (ls.refundBudget, none)

end LaneState

/-- The store with the log of its admissions and releases, each under its lane. -/
structure HealthRun where
  store : HealthState
  log : List (Nat × Note)

namespace HealthRun

/-- One operation on one lane; a lane that does not exist panics before anything is written. -/
def step (r : HealthRun) (op : Nat × LaneOp) : HealthRun :=
  match r.store.lanes[op.1]? with
  | none => r
  | some ls =>
    let out := ls.step r.store.limits op.2
    { store := { r.store with lanes := r.store.lanes.set op.1 out.1 }
      log := r.log ++ (out.2.map (fun note => (op.1, note))).toList }

/-- A fresh store, with the health of a snapshot restored; the empty snapshot restores nothing. -/
def boot (lanes : List LaneData) (limits : HealthLimits) (restored : List LaneHealthSnapshot) : HealthRun :=
  ⟨HealthState.newWithLimitsRestored lanes limits restored, []⟩

def after (lanes : List LaneData) (limits : HealthLimits) (restored : List LaneHealthSnapshot)
    (ops : List (Nat × LaneOp)) : HealthRun :=
  Run.exec step (boot lanes limits restored) ops

/-- The part of a log that is about one cell. -/
def historyOf (log : List (Nat × Note)) (lane : Nat) (pool : String) : List (Lease.Event Nat) :=
  log.filterMap (fun e => if e.1 = lane ∧ e.2.1 = pool then some e.2.2 else none)

def history (r : HealthRun) (lane : Nat) (pool : String) : List (Lease.Event Nat) :=
  historyOf r.log lane pool

/-- The epochs admissions to a cell have won, oldest first. -/
def wins (r : HealthRun) (lane : Nat) (pool : String) : List Nat := Lease.granted (r.history lane pool)

/-- The admissions to a cell that carry an epoch and have not released it. -/
def unreleased (r : HealthRun) (lane : Nat) (pool : String) (probeEpoch : Nat) : List (Lease.Event Nat) :=
  Lease.holders probeEpoch (r.history lane pool)

end HealthRun

end Busbar
