import Busbar.Num

/-!
# The circuit breaker of one cell

A breaker cell is Closed, Open or HalfOpen, with a cooldown, a failure streak, a window of recent outcomes
and the single-flight probe: a flag and the epoch of the last probe won. Every transition of the source runs
under the cell's transition lock, so each is one step here. The wall clock, the jitter's time seed and the
cell's address are arguments.

* `Settled`: the cell is HalfOpen exactly when its probe is in flight.
* `Calms`: what every transition but the acquisition does to the probe. It leaves the epoch alone, keeps
  `Settled`, and never puts a probe in flight.
* `cellAcquireBreaker_cases`: the acquisition, the only way into HalfOpen.
-/

namespace Busbar

/-- Recent outcomes with their times, oldest first; `true` is an error. -/
structure OutcomeWindow where
  entries : List (Nat × Bool)
  capacity : Nat
  deriving DecidableEq, Repr

namespace OutcomeWindow

def push (w : OutcomeWindow) (ts : Nat) (isError : Bool) : OutcomeWindow :=
  { w with
    entries := (if w.entries.length ≥ w.capacity then w.entries.tail else w.entries) ++ [(ts, isError)] }

def countInWindow (w : OutcomeWindow) (now windowS : Nat) : Nat :=
  (w.entries.filter (fun e => e.1 ≥ now - windowS)).length

def errorCountInWindow (w : OutcomeWindow) (now windowS : Nat) : Nat :=
  (w.entries.filter (fun e => e.1 ≥ now - windowS ∧ e.2)).length

def clear (w : OutcomeWindow) : OutcomeWindow := { w with entries := [] }

end OutcomeWindow

def outcomeWindowCapacity : Nat := 1024

abbrev stClosed : Nat := 0
abbrev stOpen : Nat := 1
abbrev stHalfOpen : Nat := 2

structure BreakerCell where
  breakerState : Nat
  streak : Nat
  cooldownUntil : Nat
  probeInFlight : Bool
  probeEpoch : Nat
  err : Nat
  outcomeWindow : OutcomeWindow
  currentWeight : Int
  deriving DecidableEq, Repr

def BreakerCell.new : BreakerCell where
  breakerState := stClosed
  streak := 0
  cooldownUntil := 0
  probeInFlight := false
  probeEpoch := 0
  err := 0
  outcomeWindow := ⟨[], outcomeWindowCapacity⟩
  currentWeight := 0

inductive TripMode where
  | errorRate | consecutive
  deriving DecidableEq, Repr

/-- The trip rule. `overThreshold errors count` stands for the floating-point test
`errors as f64 / count as f64 >= threshold`. -/
structure TripConfig where
  mode : TripMode
  windowS : Nat
  overThreshold : Nat → Nat → Bool
  minRequests : Nat
  consecutiveN : Nat

structure BreakerCfg where
  baseCooldownSecs : Nat
  maxCooldownSecs : Nat
  honorRetryAfter : Bool
  trip : TripConfig

/-- What the jitter is seeded with besides the streak: the clock in nanoseconds and the cell's address. -/
structure JitterSeed where
  timeSeed : Nat
  cellId : Nat
  deriving DecidableEq, Repr

inductive BreakerVerdict where
  | ready
  | opened (deadline : Nat)
  | halfOpen
  | probeWinnable
  deriving DecidableEq, Repr

def breakerVerdict (c : BreakerCell) (now : Nat) : BreakerVerdict :=
  if c.breakerState = stClosed then
    if now ≥ c.cooldownUntil then .ready else .opened c.cooldownUntil
  else if c.breakerState = stOpen then
    if now ≥ c.cooldownUntil then .probeWinnable else .opened c.cooldownUntil
  else if c.breakerState = stHalfOpen then .halfOpen
  else
    -- an encoding the source does not know: never admit
    .opened u64Max

def shouldTrip (c : BreakerCell) (now : Nat) (cfg : BreakerCfg) : Bool :=
  match cfg.trip.mode with
  | .errorRate =>
    let count := c.outcomeWindow.countInWindow now cfg.trip.windowS
    if count < cfg.trip.minRequests then false
    else cfg.trip.overThreshold (c.outcomeWindow.errorCountInWindow now cfg.trip.windowS) count
  | .consecutive => c.streak ≥ cfg.trip.consecutiveN

/-- The backoff before jitter: `base * 2^streak`, saturating, capped once the streak is positive. -/
def backoffBase (cfg : BreakerCfg) (streak : Nat) : Nat :=
  if streak = 0 then cfg.baseCooldownSecs
  else min (min (cfg.baseCooldownSecs <<< min streak 63) u64Max) cfg.maxCooldownSecs

/-- The jitter's seed: an FNV-1a step in 128 bits for each part. -/
def jitterSeed (seed : JitterSeed) (streak : Nat) : Nat :=
  [seed.timeSeed, seed.cellId, streak].foldl (fun s part => (s ^^^ part) * fnv1aPrime % 2 ^ 128)
    fnv1aOffsetBasis

/-- The cooldown of a failure; `none` is the panic of `clamp` when its bounds are out of order. -/
def computeCooldownWithRetryAfter (c : BreakerCell) (cfg : BreakerCfg) (retryAfter : Option Nat)
    (maxHonoredRetryAfterSecs : Nat) (seed : JitterSeed) : Option Nat :=
  let duration := backoffBase cfg c.streak
  let jitterRange := max (duration / 10) 1
  let unbiased := jitterSeed seed c.streak % (2 * jitterRange + 1)
  -- the draw is centred: above the range it lengthens the cooldown, below it shortens it
  let jittered :=
    if jitterRange ≤ unbiased then satAdd duration (unbiased - jitterRange)
    else duration - (jitterRange - unbiased)
  let floor := max (duration / 2) 1
  if cfg.maxCooldownSecs < floor then none
  else
    let clamped := min (max jittered floor) cfg.maxCooldownSecs
    match cfg.honorRetryAfter, retryAfter with
    | true, some ra => some (max clamped (min ra maxHonoredRetryAfterSecs))
    | _, _ => some clamped

/-- Open the cell with an escalated cooldown; a panic in its computation comes before any write. -/
def cellOpenLocked (c : BreakerCell) (now : Nat) (cfg : BreakerCfg) (retryAfter : Option Nat)
    (maxHonoredRetryAfterSecs : Nat) (seed : JitterSeed) : BreakerCell :=
  match computeCooldownWithRetryAfter c cfg retryAfter maxHonoredRetryAfterSecs seed with
  | none => c
  | some duration =>
    { c with cooldownUntil := satAdd now duration, breakerState := stOpen, probeInFlight := false }

def cellClosedLocked (c : BreakerCell) : BreakerCell :=
  { c with
    streak := 0
    outcomeWindow := c.outcomeWindow.clear
    cooldownUntil := 0
    breakerState := stClosed
    probeInFlight := false }

/-- Close a suppressed cell unless its cooldown moved past the observed one; tells whether it closed. -/
def cellClosedIfRecoverable (c : BreakerCell) (now observedCooldown : Nat) : Bool × BreakerCell :=
  if c.cooldownUntil > observedCooldown then (false, c)
  else if c.breakerState ≠ stClosed ∨ c.cooldownUntil > now then (true, cellClosedLocked c)
  else (false, c)

/-- `compare_exchange(ST_HALF_OPEN, ST_OPEN)`, its result ignored, then the flag is cleared. -/
def cellReleaseProbe (c : BreakerCell) : BreakerCell :=
  { c with
    breakerState := if c.breakerState = stHalfOpen then stOpen else c.breakerState
    probeInFlight := false }

def cellReleaseProbeOwned (c : BreakerCell) (ownedEpoch : Nat) : BreakerCell :=
  if c.probeEpoch ≠ ownedEpoch then c else cellReleaseProbe c

/-- The mutating acquisition: a Closed cell past its cooldown admits as it is, an Open one goes HalfOpen
for one winner, whose epoch is the next one. -/
def cellAcquireBreaker (c : BreakerCell) (now : Nat) : Bool × BreakerCell :=
  if c.breakerState = stClosed then (decide (now ≥ c.cooldownUntil), c)
  else if c.breakerState = stOpen then
    if now ≥ c.cooldownUntil then
      (true, { c with
        breakerState := stHalfOpen
        probeEpoch := wrapInc64 c.probeEpoch
        probeInFlight := true })
    else (false, c)
  else (false, c)

/-- Record a failure; tells whether it tripped a Closed cell. -/
def cellRecordFailure (c : BreakerCell) (now : Nat) (cfg : BreakerCfg) (retryAfter : Option Nat)
    (maxHonoredRetryAfterSecs : Nat) (seed : JitterSeed) : Bool × BreakerCell :=
  let c := { c with outcomeWindow := c.outcomeWindow.push now true, err := wrapInc64 c.err }
  if c.breakerState = stClosed then
    let c := { c with streak := wrapInc32 c.streak }
    if shouldTrip c now cfg then
      (true, cellOpenLocked c now cfg retryAfter maxHonoredRetryAfterSecs seed)
    else
      match computeCooldownWithRetryAfter c cfg retryAfter maxHonoredRetryAfterSecs seed with
      | none => (false, c)
      | some duration => (false, { c with cooldownUntil := satAdd now duration })
  else if c.breakerState = stHalfOpen then
    let c := { c with streak := wrapInc32 c.streak }
    (false, cellOpenLocked c now cfg retryAfter maxHonoredRetryAfterSecs seed)
  else (false, c)

/-- Record a success; tells whether it closed a HalfOpen cell. -/
def cellRecordSuccess (c : BreakerCell) (now : Nat) : Bool × BreakerCell :=
  let c := { c with
    streak := if c.breakerState ≠ stOpen then 0 else c.streak
    outcomeWindow := c.outcomeWindow.push now false }
  if c.breakerState = stHalfOpen then (true, cellClosedLocked c) else (false, c)

/-- The closure `trip` of `record_hard_down_all_cells`. -/
def hardDownTrip (c : BreakerCell) (now hardDownCooldownSecs : Nat) : BreakerCell :=
  { c with
    cooldownUntil := satAdd now hardDownCooldownSecs
    breakerState := stOpen
    probeInFlight := false }

/-- The closure `close` of `recover_lane`: the lock-free observation, then the close under the lock. -/
def recoverClose (c : BreakerCell) (now : Nat) : Bool × BreakerCell :=
  if c.breakerState ≠ stClosed ∨ c.cooldownUntil > now then
    cellClosedIfRecoverable c now c.cooldownUntil
  else (false, c)

/-- The breaker part of `reset_swrr_for`. -/
def resetSwrr (c : BreakerCell) : BreakerCell := { c with currentWeight := 0 }

/-- The accumulator is reset exactly where the close happened. -/
def resetIfClosed (r : Bool × BreakerCell) : BreakerCell := if r.1 then resetSwrr r.2 else r.2

/-! ## What a transition does to the probe -/

/-- HalfOpen exactly while the probe is in flight. -/
def BreakerCell.Settled (c : BreakerCell) : Prop :=
  c.breakerState = stHalfOpen ↔ c.probeInFlight = true

/-- A transition that is no acquisition: the epoch stays, no probe starts, and `Settled` is kept. -/
structure Calms (c c' : BreakerCell) : Prop where
  epoch : c'.probeEpoch = c.probeEpoch
  flag : c'.probeInFlight = true → c.probeInFlight = true
  settled : c.Settled → c'.Settled

theorem Calms.refl (c : BreakerCell) : Calms c c := ⟨rfl, fun h => h, fun h => h⟩

theorem Calms.trans {a b c : BreakerCell} (h : Calms a b) (h' : Calms b c) : Calms a c :=
  ⟨h'.epoch.trans h.epoch, fun hc => h.flag (h'.flag hc), fun hs => h'.settled (h.settled hs)⟩

/-- A transition that leaves state, flag and epoch alone. -/
theorem Calms.of_eq {c c' : BreakerCell} (hs : c'.breakerState = c.breakerState)
    (hf : c'.probeInFlight = c.probeInFlight) (he : c'.probeEpoch = c.probeEpoch) : Calms c c' := by
  refine ⟨he, fun h => hf ▸ h, fun h => ?_⟩
  unfold BreakerCell.Settled at h ⊢
  rw [hs, hf]
  exact h

/-- A transition out of HalfOpen that clears the flag. -/
theorem Calms.of_clear {c c' : BreakerCell} (hs : c'.breakerState ≠ stHalfOpen)
    (hf : c'.probeInFlight = false) (he : c'.probeEpoch = c.probeEpoch) : Calms c c' := by
  refine ⟨he, fun h => ?_, fun _ => ?_⟩
  · rw [hf] at h
    exact absurd h Bool.false_ne_true
  · unfold BreakerCell.Settled
    rw [hf]
    exact ⟨fun h => absurd h hs, fun h => absurd h Bool.false_ne_true⟩

theorem calms_open (c : BreakerCell) (now : Nat) (cfg : BreakerCfg) (ra : Option Nat) (m : Nat)
    (seed : JitterSeed) : Calms c (cellOpenLocked c now cfg ra m seed) := by
  unfold cellOpenLocked
  rcases computeCooldownWithRetryAfter c cfg ra m seed with _ | d
  · exact Calms.refl c
  · exact Calms.of_clear (show stOpen ≠ stHalfOpen by decide) rfl rfl

theorem calms_closed (c : BreakerCell) : Calms c (cellClosedLocked c) :=
  Calms.of_clear (show stClosed ≠ stHalfOpen by decide) rfl rfl

theorem calms_resetIfClosed {c : BreakerCell} {r : Bool × BreakerCell} (h : Calms c r.2) :
    Calms c (resetIfClosed r) := by
  unfold resetIfClosed
  split
  · exact h.trans (Calms.of_eq rfl rfl rfl)
  · exact h

theorem calms_closedIfRecoverable (c : BreakerCell) (now observed : Nat) :
    Calms c (cellClosedIfRecoverable c now observed).2 := by
  unfold cellClosedIfRecoverable
  split
  · exact Calms.refl c
  · split
    · exact calms_closed c
    · exact Calms.refl c

theorem calms_recoverClose (c : BreakerCell) (now : Nat) : Calms c (recoverClose c now).2 := by
  unfold recoverClose
  split
  · exact calms_closedIfRecoverable c now _
  · exact Calms.refl c

theorem calms_releaseProbe (c : BreakerCell) : Calms c (cellReleaseProbe c) := by
  refine Calms.of_clear ?_ rfl rfl
  unfold cellReleaseProbe
  by_cases h : c.breakerState = stHalfOpen
  · rw [if_pos h]
    show stOpen ≠ stHalfOpen
    decide
  · rw [if_neg h]
    exact h

theorem calms_recordFailure (c : BreakerCell) (now : Nat) (cfg : BreakerCfg) (ra : Option Nat) (m : Nat)
    (seed : JitterSeed) : Calms c (cellRecordFailure c now cfg ra m seed).2 := by
  unfold cellRecordFailure
  dsimp only
  split
  · split
    · dsimp only
      refine Calms.trans ?_ (calms_open _ now cfg ra m seed)
      exact Calms.of_eq rfl rfl rfl
    · split
      · exact Calms.of_eq rfl rfl rfl
      · exact Calms.of_eq rfl rfl rfl
  · split
    · dsimp only
      refine Calms.trans ?_ (calms_open _ now cfg ra m seed)
      exact Calms.of_eq rfl rfl rfl
    · exact Calms.of_eq rfl rfl rfl

theorem calms_recordSuccess (c : BreakerCell) (now : Nat) : Calms c (cellRecordSuccess c now).2 := by
  unfold cellRecordSuccess
  dsimp only
  split
  · dsimp only
    refine Calms.trans ?_ (calms_closed _)
    exact Calms.of_eq rfl rfl rfl
  · exact Calms.of_eq rfl rfl rfl

theorem calms_hardDown (c : BreakerCell) (now cooldown : Nat) : Calms c (hardDownTrip c now cooldown) :=
  Calms.of_clear (show stOpen ≠ stHalfOpen by decide) rfl rfl

/-! ## The acquisition and the owned release -/

/-- **The acquisition** refuses, admits through a Closed cell, or wins the probe of an Open one. -/
theorem cellAcquireBreaker_cases (c : BreakerCell) (now : Nat) :
    cellAcquireBreaker c now = (false, c) ∨
    (c.breakerState = stClosed ∧ cellAcquireBreaker c now = (true, c)) ∨
    (c.breakerState = stOpen ∧ cellAcquireBreaker c now = (true, { c with
      breakerState := stHalfOpen, probeEpoch := wrapInc64 c.probeEpoch, probeInFlight := true })) := by
  unfold cellAcquireBreaker
  by_cases hc : c.breakerState = stClosed
  · by_cases hn : now ≥ c.cooldownUntil
    · right; left; exact ⟨hc, by rw [if_pos hc, decide_eq_true hn]⟩
    · left; rw [if_pos hc, decide_eq_false hn]
  · by_cases ho : c.breakerState = stOpen
    · by_cases hn : now ≥ c.cooldownUntil
      · right; right; exact ⟨ho, by rw [if_neg hc, if_pos ho, if_pos hn]⟩
      · left; rw [if_neg hc, if_pos ho, if_neg hn]
    · left; rw [if_neg hc, if_neg ho]

/-- A release that carries another epoch changes nothing. -/
theorem cellReleaseProbeOwned_stale {c : BreakerCell} {e : Nat} (h : e ≠ c.probeEpoch) :
    cellReleaseProbeOwned c e = c := if_pos (Ne.symm h)

/-- A release on a settled cell whose probe is not in flight changes nothing, whatever its epoch. -/
theorem cellReleaseProbeOwned_idle {c : BreakerCell} (hs : c.Settled) (hf : c.probeInFlight = false)
    (e : Nat) : cellReleaseProbeOwned c e = c := by
  have hne : c.breakerState ≠ stHalfOpen := by
    intro h
    have := hs.1 h
    rw [hf] at this
    exact absurd this Bool.false_ne_true
  unfold cellReleaseProbeOwned cellReleaseProbe
  split
  · rfl
  · rw [← hf]

/-- The holder's own release puts a HalfOpen cell back to Open. -/
theorem cellReleaseProbeOwned_own {c : BreakerCell} (h : c.breakerState = stHalfOpen) :
    cellReleaseProbeOwned c c.probeEpoch = { c with breakerState := stOpen, probeInFlight := false } := by
  unfold cellReleaseProbeOwned cellReleaseProbe
  rw [if_neg (fun hne => hne rfl), if_pos h]

end Busbar
