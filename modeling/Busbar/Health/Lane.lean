import Busbar.Lib.Registry
import Busbar.Health.Breaker

/-!
# Lanes and the in-memory health store

A lane is one upstream: a concurrency semaphore, a lifetime request budget, counters, and its breaker
cells. The default cell serves the empty pool name; every other pool gets a cell of its own on first use.
Each method of the store names a lane and touches that lane's record only, so it is a function of the
record; an index past the last lane panics in the source and changes nothing here.

* `LaneState.cell`: the cell of a pool, made on first access from the lane's health.
* `LaneState.tryAdmit`, `LaneState.tryAdmitBreaker`: the two admissions.
* `LaneState.recordFailureFor` … `LaneState.recoverLane`: the outcome and recovery operations.
* `HealthState.restoreHealthImpl`: a new store takes over the health of a snapshot, lane by identity.
-/

namespace Busbar

/-- Why a lane does not admit. -/
inductive Unavailable where
  | dead
  | budgetExhausted
  | breakerOpen (deadline : Nat)
  | probeInFlight
  | atCapacity (drainHintMs : Option Nat)
  deriving DecidableEq, Repr

inductive Permit where
  | bounded | unbounded
  deriving DecidableEq, Repr

structure Admit where
  permit : Permit
  probeEpoch : Nat
  deriving DecidableEq, Repr

/-- The semaphore library's bound on permits, the source's mark of an unbounded lane. -/
def maxPermits : Nat := 2 ^ 61 - 1

/-- A lane as the configuration describes it; `permits` is what its semaphore has free. -/
structure LaneData where
  model : String
  provider : String
  max : Nat
  permits : Nat
  limited : Bool
  budget : Int
  cooldownUntil : Nat
  streak : Nat
  dead : Bool
  deadReason : String
  ok : Nat
  err : Nat
  clientFault : Nat

/-- A lane. `defaultCell` holds the breaker fields the source embeds in the lane, its `err` included;
`poolCells` is the lane's entry of the store's cell map. -/
structure LaneState where
  model : String
  provider : String
  max : Nat
  permits : Nat
  limited : Bool
  dead : Bool
  budget : Int
  ok : Nat
  clientFault : Nat
  latencyEwmaBits : Nat
  trips : Nat
  lastTripAt : Nat
  deadReason : String
  defaultCell : BreakerCell
  poolCells : Table String BreakerCell

structure PoolCellHealthSnapshot where
  pool : String
  breakerState : Nat
  cooldownUntil : Nat
  streak : Nat
  err : Nat

structure LaneHealthSnapshot where
  model : String
  provider : String
  budget : Int
  breakerState : Nat
  cooldownUntil : Nat
  streak : Nat
  dead : Bool
  deadReason : String
  ok : Nat
  err : Nat
  clientFault : Nat
  latencyEwmaBits : Nat
  trips : Nat
  lastTripAt : Nat
  cells : List PoolCellHealthSnapshot

/-- The operator's limits on cooldowns. -/
structure HealthLimits where
  hardDownCooldownSecs : Nat
  maxHonoredRetryAfterSecs : Nat

namespace LaneState

def ofData (ld : LaneData) : LaneState where
  model := ld.model
  provider := ld.provider
  max := ld.max
  permits := ld.permits
  limited := ld.limited
  dead := ld.dead
  budget := ld.budget
  ok := ld.ok
  clientFault := ld.clientFault
  latencyEwmaBits := 0
  trips := 0
  lastTripAt := 0
  deadReason := ld.deadReason
  defaultCell := { BreakerCell.new with cooldownUntil := ld.cooldownUntil, streak := ld.streak, err := ld.err }
  poolCells := Registry.empty

/-- The cell of a pool that exists already. -/
def cellAt (ls : LaneState) (pool : String) : Option BreakerCell :=
  if pool = "" then some ls.defaultCell else ls.poolCells.lookup pool

/-- A pool cell made on first access: it takes over the lane's known health, but not a probe it does not
hold. -/
def sibling (ls : LaneState) : BreakerCell :=
  { BreakerCell.new with
    breakerState :=
      if ls.defaultCell.breakerState = stHalfOpen then stOpen else ls.defaultCell.breakerState
    cooldownUntil := ls.defaultCell.cooldownUntil
    streak := ls.defaultCell.streak }

def cell (ls : LaneState) (pool : String) : BreakerCell := (ls.cellAt pool).getD ls.sibling

def setCell (ls : LaneState) (pool : String) (c : BreakerCell) : LaneState :=
  if pool = "" then { ls with defaultCell := c } else { ls with poolCells := ls.poolCells.set pool c }

/-- Resolving a cell leaves it in the map. -/
def touch (ls : LaneState) (pool : String) : LaneState := ls.setCell pool (ls.cell pool)

/-- The default cell and every existing pool cell, each under its pool's name. -/
def mapCells (ls : LaneState) (f : String → BreakerCell → BreakerCell) : LaneState :=
  { ls with defaultCell := f "" ls.defaultCell, poolCells := ls.poolCells.mapValues f }

def tryAcquire (ls : LaneState) : Option (Permit × LaneState) :=
  if ls.max ≥ maxPermits then some (.unbounded, ls)
  else if 0 < ls.permits then some (.bounded, { ls with permits := ls.permits - 1 })
  else none

/-- Dropping a permit gives its slot back. -/
def dropPermit (ls : LaneState) : Permit → LaneState
  | .bounded => { ls with permits := ls.permits + 1 }
  | .unbounded => ls

def tryAdmit (ls : LaneState) (pool : String) (now : Nat) : Except Unavailable Admit × LaneState :=
  if ls.dead then (.error .dead, ls)
  else if ls.limited ∧ ls.budget ≤ 0 then (.error .budgetExhausted, ls)
  else
    let c := ls.cell pool
    let ls := ls.touch pool
    match breakerVerdict c now with
    | .opened deadline => (.error (.breakerOpen deadline), ls)
    | .halfOpen => (.error .probeInFlight, ls)
    | .ready | .probeWinnable =>
      -- the permit comes before the probe, so a probe that is won can be dispatched
      match ls.tryAcquire with
      | none => (.error (.atCapacity none), ls)
      | some (permit, ls) =>
        match cellAcquireBreaker c now with
        | (false, _) => (.error .probeInFlight, ls.dropPermit permit)
        | (true, c') => (.ok ⟨permit, c'.probeEpoch⟩, ls.setCell pool c')

/-- The admission of a queued caller, who holds a permit already. -/
def tryAdmitBreaker (ls : LaneState) (pool : String) (now : Nat) : Except Unavailable Nat × LaneState :=
  if ls.dead then (.error .dead, ls)
  else if ls.limited ∧ ls.budget ≤ 0 then (.error .budgetExhausted, ls)
  else
    let c := ls.cell pool
    let ls := ls.touch pool
    match breakerVerdict c now with
    | .opened deadline => (.error (.breakerOpen deadline), ls)
    | .halfOpen => (.error .probeInFlight, ls)
    | .ready | .probeWinnable =>
      match cellAcquireBreaker c now with
      | (false, _) => (.error .probeInFlight, ls)
      | (true, c') => (.ok c'.probeEpoch, ls.setCell pool c')

/-- A trip counts once, with its time. -/
def countTrip (ls : LaneState) (tripped : Bool) (now : Nat) : LaneState :=
  if tripped then { ls with trips := wrapInc64 ls.trips, lastTripAt := now } else ls

/-- The lane-wide error counter; the default cell's is the same counter and was bumped with the cell. -/
def countErr (ls : LaneState) (pool : String) : LaneState :=
  if pool = "" then ls
  else { ls with defaultCell := { ls.defaultCell with err := wrapInc64 ls.defaultCell.err } }

def recordFailureFor (ls : LaneState) (lim : HealthLimits) (pool : String) (now : Nat) (cfg : BreakerCfg)
    (retryAfter : Option Nat) (seed : JitterSeed) : LaneState :=
  if ls.dead then ls
  else
    let r := cellRecordFailure (ls.cell pool) now cfg retryAfter lim.maxHonoredRetryAfterSecs seed
    ((ls.setCell pool r.2).countErr pool).countTrip r.1 now

def recordSuccessFor (ls : LaneState) (pool : String) (now : Nat) : LaneState :=
  if ls.dead then { ls with ok := wrapInc64 ls.ok }
  else
    let ls := ls.setCell pool (resetIfClosed (cellRecordSuccess (ls.cell pool) now))
    { ls with ok := wrapInc64 ls.ok }

def recordHardDownAllCells (ls : LaneState) (lim : HealthLimits) (reason : String) (now : Nat) : LaneState :=
  let wasClosed : Bool := ls.defaultCell.breakerState = stClosed
  let ls := { ls with deadReason := reason }
  (ls.mapCells (fun _ c => hardDownTrip c now lim.hardDownCooldownSecs)).countTrip wasClosed now

def recordProbeSuccessAllCells (ls : LaneState) (now : Nat) : LaneState :=
  if ls.dead then { ls with ok := wrapInc64 ls.ok }
  else
    let ls := ls.mapCells (fun _ c => resetIfClosed (cellRecordSuccess c now))
    { ls with ok := wrapInc64 ls.ok }

/-- Each cell is judged by its own pool's configuration; the trips are not counted. -/
def recordProbeFailureAllCells (ls : LaneState) (lim : HealthLimits) (now : Nat)
    (resolveCfg : String → BreakerCfg) (retryAfter : Option Nat) (seed : String → JitterSeed) : LaneState :=
  if ls.dead then ls
  else
    ls.mapCells fun pool c =>
      (cellRecordFailure c now (resolveCfg pool) retryAfter lim.maxHonoredRetryAfterSecs (seed pool)).2

def recoverLane (ls : LaneState) (now : Nat) : LaneState :=
  ls.mapCells (fun _ c => resetIfClosed (recoverClose c now))

def releaseProbeOwnedIn (ls : LaneState) (pool : String) (ownedEpoch : Nat) : LaneState :=
  ls.setCell pool (cellReleaseProbeOwned (ls.cell pool) ownedEpoch)

def releaseProbeIn (ls : LaneState) (pool : String) : LaneState :=
  ls.setCell pool (cellReleaseProbe (ls.cell pool))

/-- One round of the compare-and-swap loop that wins. -/
def spendBudget (ls : LaneState) : Bool × LaneState :=
  if ls.limited then
    if ls.budget ≤ 0 then (false, ls) else (true, { ls with budget := ls.budget - 1 })
  else (true, ls)

def refundBudget (ls : LaneState) : LaneState :=
  if ls.limited then { ls with budget := ls.budget + 1 } else ls

/-- A persisted HalfOpen becomes Open: the probe it stood for is gone. -/
def restoredBreakerState (state : Nat) : Nat := if state = stHalfOpen then stOpen else state

/-- Restore one pool cell, into the existing cell if there is one. -/
def restoreCell (cells : Table String BreakerCell) (cs : PoolCellHealthSnapshot) : Table String BreakerCell :=
  cells.set cs.pool { (cells.lookup cs.pool).getD BreakerCell.new with
    breakerState := restoredBreakerState cs.breakerState
    cooldownUntil := cs.cooldownUntil
    streak := cs.streak
    err := cs.err }

def restore (ls : LaneState) (snap : LaneHealthSnapshot) : LaneState :=
  { ls with
    -- never above the new cap, and never an unlimited lane's mark
    budget := if ls.limited ∧ 0 ≤ snap.budget then min snap.budget ls.budget else ls.budget
    dead := snap.dead
    deadReason := snap.deadReason
    ok := snap.ok
    clientFault := snap.clientFault
    latencyEwmaBits := snap.latencyEwmaBits
    trips := snap.trips
    lastTripAt := snap.lastTripAt
    defaultCell := { ls.defaultCell with
      breakerState := restoredBreakerState snap.breakerState
      cooldownUntil := snap.cooldownUntil
      streak := snap.streak
      err := snap.err }
    poolCells := snap.cells.foldl restoreCell ls.poolCells }

end LaneState

/-- The RAII release of a won probe. -/
structure ProbeGuard where
  pool : String
  armed : Bool
  probeEpoch : Nat

structure HealthState where
  lanes : List LaneState
  limits : HealthLimits

namespace HealthState

def newWithLimits (lanes : List LaneData) (limits : HealthLimits) : HealthState where
  lanes := lanes.map LaneState.ofData
  limits := limits

def restoreHealthImpl (s : HealthState) (restored : List LaneHealthSnapshot) : HealthState :=
  { s with
    lanes := s.lanes.map fun lane =>
      match restored.find? (fun snap => snap.model = lane.model ∧ snap.provider = lane.provider) with
      | some snap => lane.restore snap
      | none => lane }

def newWithLimitsRestored (lanes : List LaneData) (limits : HealthLimits)
    (restored : List LaneHealthSnapshot) : HealthState :=
  (newWithLimits lanes limits).restoreHealthImpl restored

/-- The cell of a pool on a lane that exists already. -/
def cellAt (s : HealthState) (lane : Nat) (pool : String) : Option BreakerCell :=
  (s.lanes[lane]?).bind (fun ls => ls.cellAt pool)

/-- A method of the store works on the record of its lane. -/
def onLane (s : HealthState) (lane : Nat) (f : LaneState → LaneState) : HealthState :=
  match s.lanes[lane]? with
  | none => s
  | some ls => { s with lanes := s.lanes.set lane (f ls) }

def releaseProbeOwnedIn (s : HealthState) (pool : String) (lane : Nat) (ownedEpoch : Nat) : HealthState :=
  s.onLane lane (fun ls => ls.releaseProbeOwnedIn pool ownedEpoch)

end HealthState

/-! ## The cells of a lane -/

namespace LaneState

variable {ls ls' : LaneState} {pool q : String} {c : BreakerCell}

theorem cellAt_setCell (ls : LaneState) (pool q : String) (c : BreakerCell) :
    (ls.setCell pool c).cellAt q = if pool = q then some c else ls.cellAt q := by
  unfold setCell cellAt
  by_cases hp : pool = ""
  · subst hp
    by_cases hq : q = ""
    · subst hq; rfl
    · rw [if_pos rfl, if_neg (Ne.symm hq), if_neg hq, if_neg hq]
  · rw [if_neg hp]
    by_cases hq : q = ""
    · subst hq
      rw [if_pos rfl, if_neg hp]
      rfl
    · rw [if_neg hq]
      simp only [if_neg hq]
      exact Table.lookup_set _ _ _ _

theorem cellAt_mapCells (ls : LaneState) (f : String → BreakerCell → BreakerCell) (q : String) :
    (ls.mapCells f).cellAt q = (ls.cellAt q).map (f q) := by
  unfold mapCells cellAt
  by_cases hq : q = ""
  · subst hq; rfl
  · rw [if_neg hq, if_neg hq]
    exact Table.lookup_mapValues f _ q

theorem cell_of_cellAt (h : ls.cellAt pool = some c) : ls.cell pool = c := by
  unfold cell
  rw [h]
  rfl

/-- Writing back the cell that stands there changes nothing. -/
theorem setCell_cell (h : ls.cellAt pool = some c) : ls.setCell pool c = ls := by
  unfold cellAt at h
  unfold setCell
  by_cases hp : pool = ""
  · rw [if_pos hp] at h ⊢
    rw [← Option.some.inj h]
  · rw [if_neg hp] at h ⊢
    rw [Table.set_lookup h]

theorem cellAt_touch_self (ls : LaneState) (pool : String) :
    (ls.touch pool).cellAt pool = some (ls.cell pool) := by
  unfold touch
  rw [cellAt_setCell, if_pos rfl]

/-- The cells of a lane depend on its cell records only. -/
theorem cellAt_congr (hd : ls'.defaultCell = ls.defaultCell) (hp : ls'.poolCells = ls.poolCells)
    (q : String) : ls'.cellAt q = ls.cellAt q := by
  unfold cellAt
  rw [hd, hp]

theorem cellAt_tryAcquire {permit : Permit} (h : ls.tryAcquire = some (permit, ls')) (q : String) :
    ls'.cellAt q = ls.cellAt q := by
  unfold tryAcquire at h
  split at h
  · obtain ⟨-, rfl⟩ := Prod.mk.inj (Option.some.inj h)
    rfl
  · split at h
    · obtain ⟨-, rfl⟩ := Prod.mk.inj (Option.some.inj h)
      rfl
    · exact absurd h (Option.some_ne_none _).symm

theorem cellAt_dropPermit (ls : LaneState) (permit : Permit) (q : String) :
    (ls.dropPermit permit).cellAt q = ls.cellAt q := by
  rcases permit with _ | _ <;> rfl

theorem cellAt_countTrip (ls : LaneState) (tripped : Bool) (now : Nat) (q : String) :
    (ls.countTrip tripped now).cellAt q = ls.cellAt q := by
  unfold countTrip
  split <;> rfl

end LaneState

end Busbar
