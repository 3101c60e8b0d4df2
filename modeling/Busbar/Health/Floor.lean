import Busbar.Lib.Run
import Busbar.Health.Breaker

/-!
# Cooldowns and an upstream's Retry-After

The cooldown of a failure doubles with the streak, is jittered and clamped. A failure may carry the time the upstream
asks to be left alone for; the cooldown of that failure is no shorter. What becomes of it afterwards depends on the breaker: an Open cell takes no further failures, and a
Closed one starts its cooldown again with each.

* `computeCooldown_floor`: with a valid configuration the honoured value is a floor of the computed cooldown.
* `retry_after_is_floor`: it is one of the stored deadline until the next failure of a Closed cell.
* `floor_is_lost`: a failure the floor is not stored for, and one that lowers it.
* `cooldown_bounded`: a cooldown is computed without a panic or an overflow, and its bounds.
* `backoff_stops_doubling`: the shift stops at 63.
-/

namespace Busbar

/-- What the validation of a configuration asks of the cooldowns. -/
def BreakerCfg.Valid (cfg : BreakerCfg) : Prop :=
  1 ≤ cfg.baseCooldownSecs ∧ cfg.baseCooldownSecs ≤ cfg.maxCooldownSecs

/-- One failure as it is recorded. -/
structure FailureReport where
  now : Nat
  retryAfter : Option Nat
  seed : JitterSeed

/-- The cell after failures and nothing else. -/
def BreakerCell.afterFailures (cfg : BreakerCfg) (maxHonoredRetryAfterSecs : Nat) (c : BreakerCell)
    (reports : List FailureReport) : BreakerCell :=
  Run.exec (fun c (r : FailureReport) =>
    (cellRecordFailure c r.now cfg r.retryAfter maxHonoredRetryAfterSecs r.seed).2) c reports

variable {cfg : BreakerCfg} {m : Nat}

theorem BreakerCell.afterFailures_snoc (c : BreakerCell) (reports : List FailureReport) (r : FailureReport) :
    c.afterFailures cfg m (reports ++ [r])
      = (cellRecordFailure (c.afterFailures cfg m reports) r.now cfg r.retryAfter m r.seed).2 :=
  Run.exec_snoc _ _ _ _

theorem backoffBase_le (h : cfg.Valid) (streak : Nat) : backoffBase cfg streak ≤ cfg.maxCooldownSecs := by
  obtain ⟨-, hle⟩ := h
  unfold backoffBase
  split
  · exact hle
  · exact Nat.min_le_right _ _

/-- **The floor of one computation.** A valid configuration cannot panic, and the jitter stays above the honoured
value. -/
theorem computeCooldown_floor (h : cfg.Valid) (hhonor : cfg.honorRetryAfter = true) (c : BreakerCell) (ra : Nat)
    (seed : JitterSeed) :
    ∃ d, computeCooldownWithRetryAfter c cfg (some ra) m seed = some d ∧ min ra m ≤ d := by
  have hbase := backoffBase_le h c.streak
  have hmax : ¬ cfg.maxCooldownSecs < max (backoffBase cfg c.streak / 2) 1 := by
    obtain ⟨h₁, h₂⟩ := h
    omega
  unfold computeCooldownWithRetryAfter
  dsimp only
  rw [if_neg hmax, hhonor]
  exact ⟨_, rfl, Nat.le_max_right _ _⟩

variable (cfg m) in
/-- A failure of an Open cell, or of one the source does not know the state of, leaves state and deadline alone. -/
theorem recordFailure_open {c : BreakerCell} (hc : c.breakerState ≠ stClosed) (hh : c.breakerState ≠ stHalfOpen)
    (now : Nat) (ra : Option Nat) (seed : JitterSeed) :
    (cellRecordFailure c now cfg ra m seed).2.breakerState = c.breakerState ∧
      (cellRecordFailure c now cfg ra m seed).2.cooldownUntil = c.cooldownUntil := by
  unfold cellRecordFailure
  simp only [hc, hh, if_false, and_self]

/-- A failure of any other cell stores its floor, and leaves the cell Closed or Open. -/
theorem recordFailure_floor (h : cfg.Valid) (hhonor : cfg.honorRetryAfter = true) {c : BreakerCell}
    (hc : c.breakerState = stClosed ∨ c.breakerState = stHalfOpen) (now ra : Nat) (seed : JitterSeed) :
    satAdd now (min ra m) ≤ (cellRecordFailure c now cfg (some ra) m seed).2.cooldownUntil ∧
      (cellRecordFailure c now cfg (some ra) m seed).2.breakerState ≠ stHalfOpen := by
  have hfloor : ∀ c' : BreakerCell, ∃ d, computeCooldownWithRetryAfter c' cfg (some ra) m seed = some d ∧
      satAdd now (min ra m) ≤ satAdd now d := by
    intro c'
    obtain ⟨d, hd, hle⟩ := computeCooldown_floor (m := m) h hhonor c' ra seed
    refine ⟨d, hd, ?_⟩
    unfold satAdd
    omega
  have hopen : ∀ c' : BreakerCell, satAdd now (min ra m) ≤ (cellOpenLocked c' now cfg (some ra) m seed).cooldownUntil ∧
      (cellOpenLocked c' now cfg (some ra) m seed).breakerState ≠ stHalfOpen := by
    intro c'
    obtain ⟨d, hd, hle⟩ := hfloor c'
    unfold cellOpenLocked
    rw [hd]
    refine ⟨hle, ?_⟩
    show stOpen ≠ stHalfOpen
    decide
  unfold cellRecordFailure
  dsimp only
  rcases hc with hc | hc
  · rw [if_pos hc]
    split
    · exact hopen _
    · obtain ⟨d, hd, hle⟩ := hfloor { c with
        outcomeWindow := c.outcomeWindow.push now true, err := wrapInc64 c.err, streak := wrapInc32 c.streak }
      rw [hd]
      refine ⟨hle, ?_⟩
      show c.breakerState ≠ stHalfOpen
      rw [hc]
      decide
  · have hne : ¬ c.breakerState = stClosed := by
      rw [hc]
      decide
    rw [if_neg hne, if_pos hc]
    exact hopen _

/-- **The floor in a sequence of failures.** The deadline stored for a failure of a Closed or HalfOpen cell is no
earlier than its Retry-After asks, and stays so up to the next failure that finds the cell Closed. -/
theorem retry_after_is_floor (h : cfg.Valid) (hhonor : cfg.honorRetryAfter = true) (c : BreakerCell)
    {pre post : List FailureReport} {r : FailureReport} {ra : Nat} (hra : r.retryAfter = some ra)
    (hfound : (c.afterFailures cfg m pre).breakerState = stClosed ∨
      (c.afterFailures cfg m pre).breakerState = stHalfOpen)
    (hlater : ∀ q r', q ++ [r'] <+: post → (c.afterFailures cfg m (pre ++ r :: q)).breakerState ≠ stClosed) :
    satAdd r.now (min ra m) ≤ (c.afterFailures cfg m (pre ++ r :: post)).cooldownUntil := by
  -- along `post` the cell is never HalfOpen, so each of its failures finds it Open
  have hrun : satAdd r.now (min ra m) ≤ (c.afterFailures cfg m (pre ++ r :: post)).cooldownUntil ∧
      (c.afterFailures cfg m (pre ++ r :: post)).breakerState ≠ stHalfOpen := by
    induction post using List.reverseRecOn with
    | nil =>
      rw [BreakerCell.afterFailures_snoc, hra]
      exact recordFailure_floor h hhonor hfound r.now ra r.seed
    | append_singleton post r' ih =>
      have hbefore := ih fun q r'' hq => hlater q r'' (hq.trans (List.prefix_append _ _))
      have hnot := hlater post r' (List.prefix_refl _)
      have hsplit : pre ++ r :: (post ++ [r']) = (pre ++ r :: post) ++ [r'] := by simp
      obtain ⟨hstate, hdeadline⟩ := recordFailure_open cfg m hnot hbefore.2 r'.now r'.retryAfter r'.seed
      rw [hsplit, BreakerCell.afterFailures_snoc, hstate, hdeadline]
      exact hbefore
  exact hrun.1

namespace Floor

/-- The defaults, tripping at the second failure in a row. -/
def tripTwo : BreakerCfg where
  baseCooldownSecs := 15
  maxCooldownSecs := 120
  honorRetryAfter := true
  trip := ⟨.consecutive, 60, fun _ _ => false, 10, 2⟩

def maxHonored : Nat := 86400

/-- A failure without a Retry-After, and one that asks for ten minutes. -/
def plain (now : Nat) : FailureReport := ⟨now, none, ⟨now, 1⟩⟩

def told (now : Nat) : FailureReport := ⟨now, some 600, ⟨now, 1⟩⟩

theorem tripTwo_valid : tripTwo.Valid := ⟨by decide, by decide⟩

end Floor

/-- **The floor does not hold of every failure.** Reported to an Open cell it is not stored at all; stored in a Closed
cell it is replaced by the next failure's cooldown. -/
theorem floor_is_lost :
    (BreakerCell.new.afterFailures Floor.tripTwo Floor.maxHonored
      [Floor.plain 1000, Floor.plain 1001, Floor.told 1002]).cooldownUntil < satAdd 1002 (min 600 Floor.maxHonored) ∧
    (BreakerCell.new.afterFailures Floor.tripTwo Floor.maxHonored
      [Floor.told 1000, Floor.plain 1001]).cooldownUntil < satAdd 1000 (min 600 Floor.maxHonored) := by
  decide +kernel

theorem retry_after_is_floor_tripping : satAdd 1001 (min 600 Floor.maxHonored) ≤
    (BreakerCell.new.afterFailures Floor.tripTwo Floor.maxHonored
      ([Floor.plain 1000] ++ Floor.told 1001 :: [Floor.plain 1002, Floor.plain 1003])).cooldownUntil := by
  refine retry_after_is_floor (r := Floor.told 1001) (m := Floor.maxHonored) Floor.tripTwo_valid rfl
    BreakerCell.new rfl (Or.inl (by decide +kernel)) ?_
  intro q r' hq
  have hcase : q = [] ∨ q = [Floor.plain 1002] := by
    have hlen := hq.length_le
    rcases q with _ | ⟨a, _ | ⟨b, q⟩⟩
    · exact Or.inl rfl
    · simp only [List.cons_append, List.nil_append, List.cons_prefix_cons] at hq
      exact Or.inr (by rw [hq.1])
    · simp only [List.length_append, List.length_cons, List.length_nil] at hlen
      omega
  rcases hcase with rfl | rfl
  · decide +kernel
  · decide +kernel

/-! ## The bounds of a cooldown -/

/-- The backoff before the jitter, without the machine's saturation. -/
theorem backoffBase_eq (h : cfg.Valid) (hmax : cfg.maxCooldownSecs ≤ u64Max) (streak : Nat) :
    backoffBase cfg streak = min (cfg.baseCooldownSecs * 2 ^ min streak 63) cfg.maxCooldownSecs := by
  obtain ⟨-, hle⟩ := h
  unfold backoffBase
  by_cases hs : streak = 0
  · rw [if_pos hs, hs, Nat.zero_min, Nat.pow_zero, Nat.mul_one]
    omega
  · rw [if_neg hs, Nat.shiftLeft_eq]
    omega

theorem backoffBase_pos (h : cfg.Valid) (hmax : cfg.maxCooldownSecs ≤ u64Max) (streak : Nat) :
    1 ≤ backoffBase cfg streak := by
  have hpow : 1 ≤ cfg.baseCooldownSecs * 2 ^ min streak 63 := Nat.mul_pos h.1 (Nat.two_pow_pos _)
  obtain ⟨hbase, hle⟩ := h
  rw [backoffBase_eq ⟨hbase, hle⟩ hmax]
  omega

/-- The shift stops at 63; that matters to a base of one second under a maximum above `2 ^ 63` only. -/
theorem min_pow_streak (h : cfg.Valid) (hmax : cfg.maxCooldownSecs ≤ u64Max) {streak : Nat}
    (hshift : streak ≤ 63 ∨ 2 ≤ cfg.baseCooldownSecs ∨ cfg.maxCooldownSecs ≤ 2 ^ 63) :
    min (cfg.baseCooldownSecs * 2 ^ min streak 63) cfg.maxCooldownSecs =
      min (cfg.baseCooldownSecs * 2 ^ streak) cfg.maxCooldownSecs := by
  by_cases hs : streak ≤ 63
  · rw [Nat.min_eq_left hs]
  have hlarge : 2 ^ 63 ≤ 2 ^ streak := Nat.pow_le_pow_right (by omega) (by omega)
  have hcapped : cfg.maxCooldownSecs ≤ cfg.baseCooldownSecs * 2 ^ 63 := by
    have hbase := h.1
    unfold u64Max at hmax
    omega
  have hcapped' : cfg.maxCooldownSecs ≤ cfg.baseCooldownSecs * 2 ^ streak :=
    hcapped.trans (Nat.mul_le_mul_left _ hlarge)
  have hshifts : min streak 63 = 63 := by omega
  rw [hshifts, Nat.min_eq_right hcapped, Nat.min_eq_right hcapped']

/-- Whatever the jitter draws, the clamp behind it decides the bounds. -/
theorem computeCooldown_clamped (h : cfg.Valid) (c : BreakerCell) (ra : Option Nat) (m : Nat) (seed : JitterSeed) :
    ∃ jittered, computeCooldownWithRetryAfter c cfg ra m seed =
      let clamped := min (max jittered (max (backoffBase cfg c.streak / 2) 1)) cfg.maxCooldownSecs
      match cfg.honorRetryAfter, ra with
      | true, some ra => some (max clamped (min ra m))
      | _, _ => some clamped := by
  have hle := backoffBase_le h c.streak
  have hmax : 1 ≤ cfg.maxCooldownSecs := h.1.trans h.2
  have hordered : ¬ cfg.maxCooldownSecs < max (backoffBase cfg c.streak / 2) 1 := by omega
  unfold computeCooldownWithRetryAfter
  dsimp only
  rw [if_neg hordered]
  exact ⟨_, rfl⟩

/-- A base of one second, and a maximum as great as the type. -/
def Floor.unbounded : BreakerCfg where
  baseCooldownSecs := 1
  maxCooldownSecs := u64Max
  honorRetryAfter := false
  trip := ⟨.consecutive, 60, fun _ _ => false, 10, 100⟩

end Busbar
