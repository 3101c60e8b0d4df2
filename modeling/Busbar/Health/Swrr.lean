import Busbar.Lib.RoundRobin
import Busbar.Health.SingleFlight

/-!
# Selection by smooth weighted round robin

Each cell has an accumulator. A selection credits the healthy candidates their weights, picks the greatest
accumulator and charges it the total, so the accumulators of a pool sum to zero. A recovery resets the
accumulator of the cell it closes, whatever stands in it, and the other accumulators keep their share.

* `HealthState.selectWeightedFor`: the selection.
* `poolWeight_lane`: what an operation on a lane does to the sum of a pool.
* `select_turn`: while the sum is zero a selection is a turn of the round robin, and no account overflows.
* `sums_stay_zero_iff`: the sums stay zero if and only if every cell that recovers has accumulator zero.
* `recovery_unbalances`: a selection, a trip and a recovery leave a sum of 1.
-/

namespace Busbar

open Run

def i64Min : Int := -2 ^ 63

/-- Arithmetic on an `AtomicI64` wraps. -/
def wrapI64 (x : Int) : Int := (x - i64Min) % 2 ^ 64 + i64Min

theorem wrapI64_of_mem {x : Int} (hlo : i64Min ≤ x) (hhi : x ≤ i64Max) : wrapI64 x = x := by
  unfold wrapI64 i64Min i64Max at *
  omega

/-- A cell that would admit a request now. -/
def cellReadyBreaker (c : BreakerCell) (now : Nat) : Bool :=
  match breakerVerdict c now with
  | .ready | .probeWinnable => true
  | .opened _ | .halfOpen => false

namespace LaneState

def laneAdmissible (ls : LaneState) : Bool := !ls.dead && !(ls.limited && ls.budget ≤ 0)

/-- The accumulator of a pool's cell; a cell not made yet has none. -/
def currentWeight (ls : LaneState) (pool : String) : Int :=
  ((ls.cellAt pool).map BreakerCell.currentWeight).getD 0

/-- `fetch_add` on the accumulator of a pool's cell. -/
def addWeight (ls : LaneState) (pool : String) (delta : Int) : LaneState :=
  ls.setCell pool { ls.cell pool with currentWeight := wrapI64 ((ls.cell pool).currentWeight + delta) }

end LaneState

namespace HealthState

/-- The first pass of a selection: the usable candidates with their weights. Each admissible candidate's cell
is resolved; a lane that does not exist panics. -/
def healthyMembers (pool : String) (now : Nat) :
    List (Nat × Nat) → HealthState → Option (List (Nat × Nat)) × HealthState
  | [], s => (some [], s)
  | (candidate, weight) :: rest, s =>
    -- weight 0 drains the member
    if weight = 0 then healthyMembers pool now rest s
    else
      match s.lanes[candidate]? with
      | none => (none, s)
      | some ls =>
        if ls.laneAdmissible then
          let r := healthyMembers pool now rest (s.onLane candidate (fun ls => ls.touch pool))
          if cellReadyBreaker (ls.cell pool) now then (r.1.map ((candidate, weight) :: ·), r.2) else r
        else healthyMembers pool now rest s

def laneWeight (s : HealthState) (pool : String) (lane : Nat) : Int :=
  ((s.lanes[lane]?).map (fun ls => ls.currentWeight pool)).getD 0

def addAll (pool : String) (healthy : List (Nat × Nat)) (s : HealthState) : HealthState :=
  healthy.foldl (fun s m => s.onLane m.1 (fun ls => ls.addWeight pool m.2)) s

/-- The first member with the greatest accumulator. -/
def bestMember (s : HealthState) (pool : String) (healthy : List (Nat × Nat)) : Option Nat :=
  (healthy.foldl
    (fun best m => if best.2 < s.laneWeight pool m.1 then (some m.1, s.laneWeight pool m.1) else best)
    (none, i64Min)).1

/-- The selection; without a result it panicked. -/
def selectWeightedFor (s : HealthState) (pool : String) (candidates weights : List Nat) (now : Nat) :
    Option (Option Nat) × HealthState :=
  match healthyMembers pool now (candidates.zip weights) s with
  | (none, s) => (none, s)
  | (some [], s) => (some none, s)
  | (some healthy, s) =>
    let total := wrapI64 (healthy.map (fun m => (m.2 : Int))).sum
    let s := s.addAll pool healthy
    match s.bestMember pool healthy with
    | none => (some none, s)
    | some best => (some (some best), s.onLane best (fun ls => ls.addWeight pool (-total)))

/-- The sum of the accumulators over the cells of a pool. -/
def poolWeight (s : HealthState) (pool : String) : Int :=
  (s.lanes.map (fun ls => ls.currentWeight pool)).sum

end HealthState

/-- The operations on the store: those on one lane, and the selection. -/
inductive PoolOp where
  | lane (lane : Nat) (op : LaneOp)
  | selectWeightedFor (pool : String) (candidates weights : List Nat) (now : Nat)

namespace PoolOp

def run (s : HealthState) : PoolOp → HealthState
  | .lane i op => s.onLane i (fun ls => (ls.step s.limits op).1)
  | .selectWeightedFor pool candidates weights now => (s.selectWeightedFor pool candidates weights now).2

/-- The greatest total a selection can add. -/
def total : PoolOp → Nat
  | .lane _ _ => 0
  | .selectWeightedFor _ _ weights _ => weights.sum

def after (lanes : List LaneData) (limits : HealthLimits) (restored : List LaneHealthSnapshot)
    (ops : List PoolOp) : HealthState :=
  exec run (HealthState.newWithLimitsRestored lanes limits restored) ops

end PoolOp

/-! ## What an operation on a lane does to its accumulators -/

section Cell

variable (c : BreakerCell) (now : Nat)

theorem currentWeight_recordFailure (cfg : BreakerCfg) (ra : Option Nat) (m : Nat) (seed : JitterSeed) :
    (cellRecordFailure c now cfg ra m seed).2.currentWeight = c.currentWeight := by
  unfold cellRecordFailure cellOpenLocked
  dsimp only
  repeat' split
  all_goals rfl

theorem currentWeight_recordSuccess : (cellRecordSuccess c now).2.currentWeight = c.currentWeight := by
  unfold cellRecordSuccess cellClosedLocked
  dsimp only
  split <;> rfl

theorem currentWeight_recoverClose : (recoverClose c now).2.currentWeight = c.currentWeight := by
  unfold recoverClose cellClosedIfRecoverable cellClosedLocked
  repeat' split
  all_goals rfl

theorem currentWeight_release (e : Nat) : (cellReleaseProbeOwned c e).currentWeight = c.currentWeight := by
  unfold cellReleaseProbeOwned cellReleaseProbe
  split <;> rfl

/-- A suppressed cell is what a recovery closes. -/
theorem recoverClose_closes :
    (recoverClose c now).1 = true ↔ c.breakerState ≠ stClosed ∨ now < c.cooldownUntil := by
  unfold recoverClose cellClosedIfRecoverable
  by_cases h : c.breakerState ≠ stClosed ∨ c.cooldownUntil > now
  · rw [if_pos h, if_neg (lt_irrefl _), if_pos h]
    exact ⟨fun _ => h, fun _ => rfl⟩
  · rw [if_neg h]
    exact ⟨fun hf => absurd hf Bool.false_ne_true, fun hs => absurd hs h⟩

theorem recordSuccess_closes : (cellRecordSuccess c now).1 = true ↔ c.breakerState = stHalfOpen := by
  unfold cellRecordSuccess
  dsimp only
  split <;> simp_all

theorem currentWeight_resetIfClosed {r : Bool × BreakerCell} (h : r.2.currentWeight = c.currentWeight) :
    (resetIfClosed r).currentWeight = if r.1 = true then 0 else c.currentWeight := by
  unfold resetIfClosed resetSwrr
  rcases r.1 <;> simp [h]

end Cell

namespace LaneState

variable {ls ls' : LaneState} {pool : String} {c : BreakerCell}

theorem currentWeight_congr (h : ∀ q, ls'.cellAt q = ls.cellAt q) (q : String) :
    ls'.currentWeight q = ls.currentWeight q := by
  unfold currentWeight
  rw [h q]

/-- A cell made on first access brings no weight. -/
theorem currentWeight_cell (ls : LaneState) (pool : String) :
    (ls.cell pool).currentWeight = ls.currentWeight pool := by
  unfold currentWeight cell
  rcases ls.cellAt pool with _ | c <;> rfl

theorem currentWeight_writes (h : Writes ls pool c ls') (q : String) :
    ls'.currentWeight q = if pool = q then c.currentWeight else ls.currentWeight q := by
  unfold currentWeight
  rw [h q]
  by_cases hq : pool = q
  · rw [if_pos hq, if_pos hq]
    rfl
  · rw [if_neg hq, if_neg hq]

/-- Writing a cell with the same accumulator. -/
theorem currentWeight_writes_same (h : Writes ls pool c ls') (hc : c.currentWeight = (ls.cell pool).currentWeight)
    (q : String) : ls'.currentWeight q = ls.currentWeight q := by
  rw [currentWeight_writes h, hc, currentWeight_cell]
  by_cases hq : pool = q
  · rw [if_pos hq, hq]
  · rw [if_neg hq]

theorem currentWeight_mapCells (f : String → BreakerCell → BreakerCell) (q : String) :
    (ls.mapCells f).currentWeight q = ((ls.cellAt q).map (fun c => (f q c).currentWeight)).getD 0 := by
  unfold currentWeight
  rw [cellAt_mapCells, Option.map_map]
  rfl

theorem currentWeight_mapCells_same {f : String → BreakerCell → BreakerCell}
    (hf : ∀ p c, (f p c).currentWeight = c.currentWeight) (q : String) :
    (ls.mapCells f).currentWeight q = ls.currentWeight q := by
  rw [currentWeight_mapCells]
  simp only [hf]
  rfl

/-- The operation closes the cell of the pool, and so resets it. -/
def recovers (ls : LaneState) (pool : String) : LaneOp → Bool
  | .recordSuccess q _ => decide (q = pool ∧ ls.dead = false ∧ (ls.cell pool).breakerState = stHalfOpen)
  | .recordProbeSuccessAllCells _ => decide (ls.dead = false ∧ (ls.cell pool).breakerState = stHalfOpen)
  | .recoverLane now => decide ((ls.cell pool).breakerState ≠ stClosed ∨ now < (ls.cell pool).cooldownUntil)
  | _ => false

/-- Resetting every cell that closes. -/
theorem currentWeight_mapCells_reset {f : BreakerCell → Bool × BreakerCell}
    (hf : ∀ c, (f c).2.currentWeight = c.currentWeight) (q : String) :
    (ls.mapCells (fun _ c => resetIfClosed (f c))).currentWeight q =
      if (f (ls.cell q)).1 = true then 0 else ls.currentWeight q := by
  rw [currentWeight_mapCells]
  unfold currentWeight cell
  rcases ls.cellAt q with _ | c
  · simp
  · exact currentWeight_resetIfClosed c (hf c)

theorem currentWeight_countErr (ls : LaneState) (pool q : String) :
    (ls.countErr pool).currentWeight q = ls.currentWeight q := by
  unfold countErr
  split
  · rfl
  · -- the lane's error counter is a field of the default cell
    exact currentWeight_writes_same (writes_setCell ls "" { ls.defaultCell with
      err := wrapInc64 ls.defaultCell.err }) rfl q

theorem currentWeight_recordFailureFor (ls : LaneState) (lim : HealthLimits) (pool : String) (now : Nat)
    (cfg : BreakerCfg) (ra : Option Nat) (seed : JitterSeed) (q : String) :
    (ls.recordFailureFor lim pool now cfg ra seed).currentWeight q = ls.currentWeight q := by
  unfold recordFailureFor
  split
  · rfl
  · rw [currentWeight_congr (cellAt_countTrip _ _ now), currentWeight_countErr]
    exact currentWeight_writes_same (writes_setCell ls pool _)
      (currentWeight_recordFailure (ls.cell pool) now cfg ra lim.maxHonoredRetryAfterSecs seed) q

theorem currentWeight_recordSuccessFor (ls : LaneState) (pool : String) (now : Nat) (q : String) :
    (ls.recordSuccessFor pool now).currentWeight q =
      if ls.recovers q (.recordSuccess pool now) = true then 0 else ls.currentWeight q := by
  simp only [recovers, decide_eq_true_eq]
  by_cases hd : ls.dead = true
  · have hno : ¬ (pool = q ∧ ls.dead = false ∧ (ls.cell q).breakerState = stHalfOpen) := by simp [hd]
    rw [if_neg hno, recordSuccessFor, if_pos hd]
    exact currentWeight_congr (cellAt_congr rfl rfl) q
  have hkept : (ls.recordSuccessFor pool now).currentWeight q =
      (ls.setCell pool (resetIfClosed (cellRecordSuccess (ls.cell pool) now))).currentWeight q := by
    rw [recordSuccessFor, if_neg hd]
    exact currentWeight_congr (cellAt_congr rfl rfl) q
  rw [hkept, currentWeight_writes (writes_setCell ls pool _),
    currentWeight_resetIfClosed _ (currentWeight_recordSuccess (ls.cell pool) now), currentWeight_cell]
  by_cases hq : pool = q
  · subst hq
    simp [recordSuccess_closes, hd]
  · simp [hq]

theorem currentWeight_refused (h : Refuses ls pool ls') (q : String) :
    ls'.currentWeight q = ls.currentWeight q := by
  rcases h with h | h
  · exact currentWeight_congr h q
  · exact currentWeight_writes_same h rfl q

theorem currentWeight_acquired {now : Nat} (hacq : cellAcquireBreaker (ls.cell pool) now = (true, c))
    (h : Writes ls pool c ls') (q : String) : ls'.currentWeight q = ls.currentWeight q := by
  refine currentWeight_writes_same h ?_ q
  rcases cellAcquireBreaker_cases (ls.cell pool) now with hno | ⟨-, hc⟩ | ⟨-, hc⟩
  · rw [hno] at hacq
    cases hacq
  · rw [hc] at hacq
    cases hacq
    rfl
  · rw [hc] at hacq
    cases hacq
    rfl

/-- **An operation on a lane keeps its accumulators, but for the cells it recovers.** -/
theorem currentWeight_step (ls : LaneState) (lim : HealthLimits) (op : LaneOp) (q : String) :
    (ls.step lim op).1.currentWeight q = if ls.recovers q op = true then 0 else ls.currentWeight q := by
  cases op with
  | cell pool => exact currentWeight_writes_same (writes_setCell ls pool _) rfl q
  | tryAdmit pool now =>
    have hsame : (ls.tryAdmit pool now).2.currentWeight q = ls.currentWeight q := by
      rcases tryAdmit_cases ls pool now with ⟨_, -, href⟩ | ⟨_, c, -, hacq, -, hw⟩
      · exact currentWeight_refused href q
      · exact currentWeight_acquired hacq hw q
    simp only [step, recovers]
    rcases hr : ls.tryAdmit pool now with ⟨_ | a, ls'⟩ <;> simpa [hr] using hsame
  | tryAdmitBreaker pool now =>
    have hsame : (ls.tryAdmitBreaker pool now).2.currentWeight q = ls.currentWeight q := by
      rcases tryAdmitBreaker_cases ls pool now with ⟨_, -, href⟩ | ⟨c, -, hacq, hw⟩
      · exact currentWeight_refused href q
      · exact currentWeight_acquired hacq hw q
    simp only [step, recovers]
    rcases hr : ls.tryAdmitBreaker pool now with ⟨_ | a, ls'⟩ <;> simpa [hr] using hsame
  | recordFailure pool now cfg ra seed => exact currentWeight_recordFailureFor ls lim pool now cfg ra seed q
  | recordSuccess pool now => exact currentWeight_recordSuccessFor ls pool now q
  | recordHardDownAllCells reason now =>
    refine (currentWeight_congr (cellAt_countTrip _ _ now) q).trans ?_
    have htrip : ∀ (_ : String) (c : BreakerCell),
        (hardDownTrip c now lim.hardDownCooldownSecs).currentWeight = c.currentWeight := fun _ _ => rfl
    exact currentWeight_mapCells_same htrip q
  | recordProbeSuccessAllCells now =>
    simp only [step, recovers, recordProbeSuccessAllCells]
    by_cases hd : ls.dead = true
    · simp only [hd, if_true]
      exact currentWeight_congr (cellAt_congr rfl rfl) q
    · have hreset : (ls.mapCells (fun _ c => resetIfClosed (cellRecordSuccess c now))).currentWeight q =
          if (cellRecordSuccess (ls.cell q) now).1 = true then 0 else ls.currentWeight q :=
        currentWeight_mapCells_reset (fun c => currentWeight_recordSuccess c now) q
      rw [if_neg hd]
      refine (currentWeight_congr (cellAt_congr rfl rfl) q).trans (hreset.trans ?_)
      simp [recordSuccess_closes, hd]
  | recordProbeFailureAllCells now resolveCfg ra seed =>
    simp only [step, recordProbeFailureAllCells]
    split
    · rfl
    · exact currentWeight_mapCells_same (fun p c => currentWeight_recordFailure c now _ ra _ _) q
  | recoverLane now =>
    refine (currentWeight_mapCells_reset (fun c => currentWeight_recoverClose c now) q).trans ?_
    simp [recovers, recoverClose_closes]
  | releaseProbeOwnedIn pool e =>
    exact currentWeight_writes_same (writes_setCell ls pool _) (currentWeight_release _ e) q
  | dropGuard guard =>
    simp only [step, recovers]
    by_cases ha : guard.armed = true
    · simp only [ha, if_true]
      exact currentWeight_writes_same (writes_setCell ls guard.pool _) (currentWeight_release _ _) q
    · simp [ha]
  | releaseProbeIn pool =>
    exact currentWeight_writes_same (writes_setCell ls pool (cellReleaseProbe (ls.cell pool))) rfl q
  | dropPermit permit => exact currentWeight_congr (cellAt_dropPermit ls permit) q
  | spendBudget =>
    simp only [step, recovers, spendBudget]
    refine currentWeight_congr (fun p => ?_) q
    split
    · split <;> rfl
    · rfl
  | refundBudget =>
    simp only [step, recovers, refundBudget]
    refine currentWeight_congr (fun p => ?_) q
    split <;> rfl

end LaneState

/-! ## The sum of a pool -/

namespace HealthState

variable {s : HealthState} {pool q : String} {lane : Nat} {ls : LaneState}

theorem length_onLane (s : HealthState) (lane : Nat) (f : LaneState → LaneState) :
    (s.onLane lane f).lanes.length = s.lanes.length := by
  unfold onLane
  split <;> simp

/-- Writing a lane writes its account only. -/
theorem laneWeight_onLane (hls : s.lanes[lane]? = some ls) (f : LaneState → LaneState) (i : Nat) :
    (s.onLane lane f).laneWeight q i = if i = lane then (f ls).currentWeight q else s.laneWeight q i := by
  have hlt : lane < s.lanes.length := (List.getElem?_eq_some_iff.1 hls).1
  unfold onLane laneWeight
  rw [hls]
  by_cases hi : i = lane
  · subst hi
    simp [hlt]
  · simp [hi, Ne.symm hi]

theorem laneWeight_of_get (hls : s.lanes[lane]? = some ls) : s.laneWeight q lane = ls.currentWeight q := by
  unfold laneWeight
  rw [hls]
  rfl

/-- The sum of a pool over the lanes' numbers. -/
theorem poolWeight_eq (s : HealthState) (pool : String) :
    s.poolWeight pool = ∑ i ∈ Finset.range s.lanes.length, s.laneWeight pool i := by
  unfold poolWeight laneWeight
  induction s.lanes using List.reverseRecOn with
  | nil => rfl
  | append_singleton l ls ih =>
    have hold : ∀ i ∈ Finset.range l.length, (((l ++ [ls])[i]?).map (fun ls => ls.currentWeight pool)).getD 0 =
        ((l[i]?).map (fun ls => ls.currentWeight pool)).getD 0 := by
      intro i hi
      rw [List.getElem?_append_left (Finset.mem_range.1 hi)]
    rw [List.map_append, List.sum_append, List.length_append, List.length_singleton, Finset.sum_range_succ,
      Finset.sum_congr rfl hold, ih]
    simp

/-- **What an operation on a lane does to the sum of a pool**: the account it recovers leaves it. -/
theorem poolWeight_lane (hls : s.lanes[lane]? = some ls) (op : LaneOp) (pool : String) :
    (PoolOp.run s (.lane lane op)).poolWeight pool =
      s.poolWeight pool - if ls.recovers pool op = true then ls.currentWeight pool else 0 := by
  have hlt : lane ∈ Finset.range s.lanes.length := Finset.mem_range.2 (List.getElem?_eq_some_iff.1 hls).1
  unfold PoolOp.run
  rw [poolWeight_eq, poolWeight_eq, length_onLane]
  simp only [laneWeight_onLane hls, LaneState.currentWeight_step]
  rw [← Finset.add_sum_erase _ _ hlt, ← Finset.add_sum_erase _ (s.laneWeight pool) hlt, if_pos rfl,
    laneWeight_of_get hls]
  have hrest : ∀ i ∈ (Finset.range s.lanes.length).erase lane,
      (if i = lane then if ls.recovers pool op = true then 0 else ls.currentWeight pool else s.laneWeight pool i) =
        s.laneWeight pool i := fun i hi => if_neg (Finset.ne_of_mem_erase hi)
  rw [Finset.sum_congr rfl hrest]
  split
  · ring
  · ring

/-! ## A selection is a turn -/

theorem run_lane_none (hls : s.lanes[lane]? = none) (op : LaneOp) : PoolOp.run s (.lane lane op) = s := by
  simp only [PoolOp.run, onLane, hls]

theorem laneWeight_touch (s : HealthState) (pool : String) (lane : Nat) (q : String) (i : Nat) :
    (s.onLane lane (fun ls => ls.touch pool)).laneWeight q i = s.laneWeight q i := by
  rcases hls : s.lanes[lane]? with _ | ls
  · unfold onLane
    rw [hls]
  · rw [laneWeight_onLane hls]
    by_cases hi : i = lane
    · rw [if_pos hi, hi, laneWeight_of_get hls]
      exact LaneState.currentWeight_writes_same (writes_setCell ls pool (ls.cell pool)) rfl q
    · rw [if_neg hi]

/-- What the first pass leaves: the accounts as they were, and members that exist and have weight. -/
theorem healthyMembers_spec (pool : String) (now : Nat) (members : List (Nat × Nat)) (s : HealthState) :
    let r := healthyMembers pool now members s
    r.2.lanes.length = s.lanes.length ∧ (∀ q i, r.2.laneWeight q i = s.laneWeight q i) ∧
    ∀ healthy, r.1 = some healthy →
      healthy.Sublist members ∧ ∀ m ∈ healthy, m.1 < s.lanes.length ∧ 0 < m.2 := by
  induction members generalizing s with
  | nil => simp [healthyMembers]
  | cons m rest ih =>
    obtain ⟨candidate, weight⟩ := m
    have hskip : ∀ healthy, (healthyMembers pool now rest s).1 = some healthy →
        healthy.Sublist ((candidate, weight) :: rest) ∧ ∀ m ∈ healthy, m.1 < s.lanes.length ∧ 0 < m.2 := by
      intro healthy hh
      obtain ⟨hsub, hm⟩ := (ih s).2.2 healthy hh
      exact ⟨hsub.cons _, hm⟩
    dsimp only [healthyMembers]
    by_cases hw : weight = 0
    · rw [if_pos hw]
      exact ⟨(ih s).1, (ih s).2.1, hskip⟩
    rw [if_neg hw]
    rcases hls : s.lanes[candidate]? with _ | ls
    · exact ⟨rfl, fun _ _ => rfl, fun healthy hh => by cases hh⟩
    have hlt : candidate < s.lanes.length := (List.getElem?_eq_some_iff.1 hls).1
    dsimp only
    by_cases ha : ls.laneAdmissible = true
    · rw [if_pos ha]
      obtain ⟨hlen, hwt, hmem⟩ := ih (s.onLane candidate (fun ls => ls.touch pool))
      rw [length_onLane] at hlen hmem
      have hacct := fun q i => (hwt q i).trans (laneWeight_touch s pool candidate q i)
      by_cases hr : cellReadyBreaker (ls.cell pool) now = true
      · rw [if_pos hr]
        refine ⟨hlen, hacct, fun healthy hh => ?_⟩
        obtain ⟨healthy', hh', rfl⟩ := Option.map_eq_some_iff.1 hh
        obtain ⟨hsub, hm⟩ := hmem healthy' hh'
        refine ⟨hsub.cons_cons _, ?_⟩
        rintro m (_ | ⟨_, hm'⟩)
        · exact ⟨hlt, Nat.pos_of_ne_zero hw⟩
        · exact hm m hm'
      · rw [if_neg hr]
        refine ⟨hlen, hacct, fun healthy hh => ?_⟩
        obtain ⟨hsub, hm⟩ := hmem healthy hh
        exact ⟨hsub.cons _, hm⟩
    · rw [if_neg ha]
      exact ⟨(ih s).1, (ih s).2.1, hskip⟩

/-- What a lane gets in the second pass. -/
def credit (healthy : List (Nat × Nat)) (i : Nat) : Int :=
  (healthy.map (fun m => if m.1 = i then (m.2 : Int) else 0)).sum

theorem credit_cons (m : Nat × Nat) (healthy : List (Nat × Nat)) (i : Nat) :
    credit (m :: healthy) i = (if m.1 = i then (m.2 : Int) else 0) + credit healthy i := by
  simp [credit]

theorem credit_nonneg (healthy : List (Nat × Nat)) (i : Nat) : 0 ≤ credit healthy i := by
  induction healthy with
  | nil => simp [credit]
  | cons m healthy ih =>
    rw [credit_cons]
    split <;> omega

theorem credit_pos {healthy : List (Nat × Nat)} {i : Nat} (h : 0 < credit healthy i) : ∃ m ∈ healthy, m.1 = i := by
  by_contra hno
  push Not at hno
  have : credit healthy i = 0 := by
    unfold credit
    rw [List.map_congr_left (fun m hm => if_neg (hno m hm))]
    simp
  omega

theorem sum_credit {n : Nat} {healthy : List (Nat × Nat)} (h : ∀ m ∈ healthy, m.1 < n) :
    ∑ i ∈ Finset.range n, credit healthy i = (healthy.map (fun m => (m.2 : Int))).sum := by
  induction healthy with
  | nil => simp [credit]
  | cons m healthy ih =>
    have hm : m.1 ∈ Finset.range n := Finset.mem_range.2 (h m List.mem_cons_self)
    simp only [credit_cons]
    rw [Finset.sum_add_distrib, Finset.sum_ite_eq, if_pos hm, ih fun m' hm' => h m' (List.mem_cons_of_mem _ hm'),
      List.map_cons, List.sum_cons]

theorem laneWeight_addWeight (hls : s.lanes[lane]? = some ls) (pool : String) {delta : Int}
    (hlo : i64Min ≤ s.laneWeight pool lane + delta) (hhi : s.laneWeight pool lane + delta ≤ i64Max) (q : String)
    (i : Nat) : (s.onLane lane (fun ls => ls.addWeight pool delta)).laneWeight q i =
      s.laneWeight q i + if q = pool ∧ i = lane then delta else 0 := by
  rw [laneWeight_onLane hls]
  by_cases hi : i = lane
  · subst hi
    rw [if_pos rfl, laneWeight_of_get hls]
    rw [laneWeight_of_get hls] at hlo hhi
    unfold LaneState.addWeight
    rw [LaneState.currentWeight_writes (writes_setCell ls pool _), LaneState.currentWeight_cell,
      wrapI64_of_mem hlo hhi]
    by_cases hq : pool = q
    · subst hq
      simp
    · simp [hq, Ne.symm hq]
  · simp [hi]

theorem length_addAll (s : HealthState) (pool : String) (healthy : List (Nat × Nat)) :
    (s.addAll pool healthy).lanes.length = s.lanes.length := by
  unfold addAll
  induction healthy generalizing s with
  | nil => rfl
  | cons m healthy ih =>
    rw [List.foldl_cons, ih]
    exact length_onLane s m.1 _

/-- The second pass, while no member's account overflows. -/
theorem addAll_spec (pool : String) (healthy : List (Nat × Nat)) {s : HealthState}
    (hlane : ∀ m ∈ healthy, m.1 < s.lanes.length) (hlo : ∀ m ∈ healthy, i64Min ≤ s.laneWeight pool m.1)
    (hhi : ∀ m ∈ healthy, s.laneWeight pool m.1 + credit healthy m.1 ≤ i64Max) :
    ∀ q i, (s.addAll pool healthy).laneWeight q i =
      s.laneWeight q i + if q = pool then credit healthy i else 0 := by
  induction healthy generalizing s with
  | nil => simp [addAll, credit]
  | cons m healthy ih =>
    have hm := hlane m List.mem_cons_self
    have hrest := credit_nonneg healthy m.1
    have hlo₁ := hlo m List.mem_cons_self
    have hhi₁ := hhi m List.mem_cons_self
    rw [credit_cons, if_pos rfl] at hhi₁
    have hadd := laneWeight_addWeight (List.getElem?_eq_getElem hm) pool (by omega : i64Min ≤ _ + (m.2 : Int))
      (by omega)
    have hown : ∀ i, (s.onLane m.1 (fun ls => ls.addWeight pool m.2)).laneWeight pool i =
        s.laneWeight pool i + if m.1 = i then (m.2 : Int) else 0 := by
      intro i
      rw [hadd pool i]
      simp [eq_comm]
    have hlen := length_onLane s m.1 (fun ls => ls.addWeight pool m.2)
    have hw := ih (s := s.onLane m.1 (fun ls => ls.addWeight pool m.2))
      (fun m' hm' => by rw [hlen]; exact hlane m' (List.mem_cons_of_mem _ hm'))
      (fun m' hm' => by
        have := hlo m' (List.mem_cons_of_mem _ hm')
        rw [hown m'.1]
        split <;> omega)
      (fun m' hm' => by
        have := hhi m' (List.mem_cons_of_mem _ hm')
        rw [credit_cons] at this
        rw [hown m'.1]
        omega)
    intro q i
    show (addAll pool healthy (s.onLane m.1 (fun ls => ls.addWeight pool m.2))).laneWeight q i = _
    rw [hw q i, hadd q i, credit_cons]
    by_cases hq : q = pool
    · simp [hq, eq_comm, add_assoc]
    · simp [hq]

theorem length_selectWeightedFor (s : HealthState) (pool : String) (candidates weights : List Nat) (now : Nat) :
    (s.selectWeightedFor pool candidates weights now).2.lanes.length = s.lanes.length := by
  obtain ⟨hlen, -, -⟩ := healthyMembers_spec pool now (candidates.zip weights) s
  unfold selectWeightedFor
  rcases hr : healthyMembers pool now (candidates.zip weights) s with ⟨_ | _ | ⟨m₀, rest⟩, s₁⟩
  · rwa [hr] at hlen
  · rwa [hr] at hlen
  rw [hr] at hlen
  dsimp only
  split
  · rw [length_addAll, hlen]
  · rw [length_onLane, length_addAll, hlen]

/-- The scan for the greatest accumulator, from any start. -/
theorem bestMember_scan (w : Nat → Int) (healthy : List (Nat × Nat)) (best : Option Nat × Int) :
    let r := healthy.foldl (fun best m => if best.2 < w m.1 then (some m.1, w m.1) else best) best
    best.2 ≤ r.2 ∧ (∀ m ∈ healthy, w m.1 ≤ r.2) ∧ (r = best ∨ ∃ m ∈ healthy, r = (some m.1, w m.1)) := by
  induction healthy generalizing best with
  | nil => exact ⟨le_rfl, fun m hm => absurd hm List.not_mem_nil, Or.inl rfl⟩
  | cons m healthy ih =>
    simp only [List.foldl_cons]
    by_cases hlt : best.2 < w m.1
    · rw [if_pos hlt]
      obtain ⟨hge, hall, hr⟩ := ih (some m.1, w m.1)
      refine ⟨hlt.le.trans hge, ?_, ?_⟩
      · rintro m' (_ | ⟨_, hm'⟩)
        · exact hge
        · exact hall m' hm'
      · rcases hr with hr | ⟨m', hm', hr⟩
        · exact Or.inr ⟨m, List.mem_cons_self, hr⟩
        · exact Or.inr ⟨m', List.mem_cons_of_mem _ hm', hr⟩
    · rw [if_neg hlt]
      obtain ⟨hge, hall, hr⟩ := ih best
      refine ⟨hge, ?_, ?_⟩
      · rintro m' (_ | ⟨_, hm'⟩)
        · exact (not_lt.1 hlt).trans hge
        · exact hall m' hm'
      · rcases hr with hr | ⟨m', hm', hr⟩
        · exact Or.inl hr
        · exact Or.inr ⟨m', List.mem_cons_of_mem _ hm', hr⟩

/-- The scan finds a member no other beats. -/
theorem bestMember_spec {healthy : List (Nat × Nat)} (hne : healthy ≠ [])
    (hlo : ∀ m ∈ healthy, i64Min < s.laneWeight pool m.1) :
    ∃ m ∈ healthy, s.bestMember pool healthy = some m.1 ∧
      ∀ m' ∈ healthy, s.laneWeight pool m'.1 ≤ s.laneWeight pool m.1 := by
  obtain ⟨-, hall, hr⟩ := bestMember_scan (s.laneWeight pool) healthy (none, i64Min)
  obtain ⟨m₀, hm₀⟩ := List.exists_mem_of_ne_nil healthy hne
  rcases hr with hr | ⟨m, hm, hr⟩
  · have := hall m₀ hm₀
    rw [hr] at this
    exact absurd this (not_le.2 (hlo m₀ hm₀))
  · rw [hr] at hall
    exact ⟨m, hm, congrArg Prod.fst hr, hall⟩

theorem healthyMembers_ne_none (pool : String) (now : Nat) (members : List (Nat × Nat)) {s : HealthState}
    (h : ∀ m ∈ members, m.1 < s.lanes.length) : (healthyMembers pool now members s).1 ≠ none := by
  induction members generalizing s with
  | nil => exact nofun
  | cons m rest ih =>
    obtain ⟨candidate, weight⟩ := m
    have hrest : ∀ m ∈ rest, m.1 < s.lanes.length := fun m hm => h m (List.mem_cons_of_mem _ hm)
    have hlt : candidate < s.lanes.length := h _ List.mem_cons_self
    have hlane : s.lanes[candidate]? = some s.lanes[candidate] := List.getElem?_eq_getElem hlt
    dsimp only [healthyMembers]
    rw [hlane]
    dsimp only
    split
    · exact ih hrest
    · split
      · have hne := ih (s := s.onLane candidate (fun ls => ls.touch pool)) (by rwa [length_onLane])
        split
        · exact fun hf => hne (Option.map_eq_none_iff.1 hf)
        · exact hne
      · exact ih hrest

/-- With every candidate in the store a selection does not panic. -/
theorem selectWeightedFor_ne_none {s : HealthState} {candidates : List Nat} (pool : String) (weights : List Nat)
    (now : Nat) (h : ∀ c ∈ candidates, c < s.lanes.length) :
    (s.selectWeightedFor pool candidates weights now).1 ≠ none := by
  have hne := healthyMembers_ne_none (s := s) pool now (candidates.zip weights)
    (fun m hm => h _ (List.of_mem_zip hm).1)
  unfold selectWeightedFor
  rcases hr : healthyMembers pool now (candidates.zip weights) s with ⟨_ | _ | ⟨m₀, rest⟩, s₁⟩
  · exact absurd (congrArg Prod.fst hr) hne
  · exact nofun
  · dsimp only
    split
    · exact nofun
    · exact nofun

theorem selectWeightedFor_mem {s : HealthState} {pool : String} {candidates weights : List Nat} {now i : Nat}
    (h : (s.selectWeightedFor pool candidates weights now).1 = some (some i)) : i ∈ candidates := by
  obtain ⟨-, -, hsub⟩ := healthyMembers_spec pool now (candidates.zip weights) s
  unfold selectWeightedFor at h
  rcases hr : healthyMembers pool now (candidates.zip weights) s with ⟨_ | _ | ⟨m₀, rest⟩, s₁⟩
  · rw [hr] at h
    cases h
  · rw [hr] at h
    cases h
  rw [hr] at h hsub
  obtain ⟨hsub, -⟩ := hsub _ rfl
  dsimp only at h
  have hscan := bestMember_scan ((s₁.addAll pool (m₀ :: rest)).laneWeight pool) (m₀ :: rest) (none, i64Min)
  have hbest : (s₁.addAll pool (m₀ :: rest)).bestMember pool (m₀ :: rest) = some i := by
    cases hb : (s₁.addAll pool (m₀ :: rest)).bestMember pool (m₀ :: rest) with
    | none =>
      rw [hb] at h
      cases h
    | some best =>
      rw [hb] at h
      cases h
      rfl
  rcases hscan.2.2 with hno | ⟨m, hm, hsome⟩
  · exact absurd ((congrArg Prod.fst hno).symm.trans hbest) nofun
  · cases (congrArg Prod.fst hsome).symm.trans hbest
    exact (List.of_mem_zip (hsub.subset hm)).1

/-- The accounts of a pool sum to zero and are level. -/
structure Balanced (bound : Int) (s : HealthState) (pool : String) : Prop where
  sum : s.poolWeight pool = 0
  level : RoundRobin.Level bound (Finset.range s.lanes.length) (s.laneWeight pool)

theorem Balanced.congr {s' : HealthState} {bound : Int} (h : s.Balanced bound pool)
    (hlen : s'.lanes.length = s.lanes.length) (hw : ∀ i, s'.laneWeight pool i = s.laneWeight pool i) :
    s'.Balanced bound pool := by
  have hsum := h.sum
  rw [poolWeight_eq] at hsum
  refine ⟨?_, ?_⟩
  · rw [poolWeight_eq, hlen, Finset.sum_congr rfl fun i _ => hw i]
    exact hsum
  · rw [hlen]
    exact h.level.congr fun i _ => hw i

/-- Balanced accounts stay far from the ends of the machine type. -/
theorem Balanced.fits {bound : Int} (h : s.Balanced bound pool) {i : Nat} (hi : i < s.lanes.length) :
    -(bound * (s.lanes.length - 1)) ≤ s.laneWeight pool i ∧ s.laneWeight pool i ≤ bound * (s.lanes.length - 1) := by
  have hsum := h.sum
  rw [poolWeight_eq] at hsum
  have := h.level.bounds hsum (Finset.mem_range.2 hi)
  rwa [Finset.card_range] at this

/-- The healthy members weigh no more than the weights of the call. -/
theorem sum_healthy_le {healthy : List (Nat × Nat)} {candidates weights : List Nat}
    (h : healthy.Sublist (candidates.zip weights)) :
    (healthy.map (fun m => (m.2 : Int))).sum ≤ weights.sum := by
  induction candidates generalizing healthy weights with
  | nil =>
    rw [List.zip_nil_left, List.sublist_nil] at h
    subst h
    exact Int.natCast_nonneg _
  | cons c candidates ih =>
    rcases weights with _ | ⟨w, weights⟩
    · rw [List.zip_nil_right, List.sublist_nil] at h
      subst h
      exact le_rfl
    rw [List.zip_cons_cons] at h
    rw [List.sum_cons, Nat.cast_add]
    cases h with
    | cons _ h =>
      have := ih h
      omega
    | cons_cons _ h =>
      rw [List.map_cons, List.sum_cons]
      have := ih h
      omega

/-- **While no account can overflow, a selection is a turn of the round robin.** -/
theorem select_turn {bound total : Int} (hfits : s.lanes.length * bound < 2 ^ 63) (hb : s.Balanced bound pool)
    {healthy : List (Nat × Nat)} (hne : healthy ≠ []) (hlane : ∀ m ∈ healthy, m.1 < s.lanes.length ∧ 0 < m.2)
    (htotal : (healthy.map (fun m => (m.2 : Int))).sum = total) (hbound : total ≤ bound) :
    ∃ winner < s.lanes.length, (s.addAll pool healthy).bestMember pool healthy = some winner ∧
      (∀ i, 0 < credit healthy i →
        s.laneWeight pool i + credit healthy i ≤ s.laneWeight pool winner + credit healthy winner) ∧
      ((s.addAll pool healthy).onLane winner (fun ls => ls.addWeight pool (-wrapI64 total))).lanes.length =
        s.lanes.length ∧
      ∀ q i, ((s.addAll pool healthy).onLane winner (fun ls => ls.addWeight pool (-wrapI64 total))).laneWeight q i =
        if q = pool then RoundRobin.turn (credit healthy) total winner (s.laneWeight pool) i
        else s.laneWeight q i := by
  have hsum := sum_credit (n := s.lanes.length) fun m hm => (hlane m hm).1
  rw [htotal] at hsum
  have hle : ∀ i < s.lanes.length, credit healthy i ≤ total := by
    intro i hi
    rw [← hsum]
    exact Finset.single_le_sum (fun j _ => credit_nonneg healthy j) (Finset.mem_range.2 hi)
  have htotal0 : 0 ≤ total := by
    rw [← hsum]
    exact Finset.sum_nonneg fun j _ => credit_nonneg healthy j
  -- one total beyond the greatest balanced account still fits
  have hroom : bound * (s.lanes.length - 1) + bound < 2 ^ 63 := by linarith
  have hacct : ∀ i < s.lanes.length, i64Min + total < s.laneWeight pool i ∧
      s.laneWeight pool i + total ≤ i64Max := by
    intro i hi
    have := hb.fits hi
    unfold i64Min i64Max
    omega
  have hlen := length_addAll s pool healthy
  have hw := addAll_spec pool healthy (fun m hm => (hlane m hm).1)
    (fun m hm => by have := hacct m.1 (hlane m hm).1; omega)
    (fun m hm => by have := hacct m.1 (hlane m hm).1; have := hle m.1 (hlane m hm).1; omega)
  have hafter : ∀ i, (s.addAll pool healthy).laneWeight pool i = s.laneWeight pool i + credit healthy i := by
    intro i
    rw [hw pool i, if_pos rfl]
  have hfloor : ∀ m ∈ healthy, i64Min < (s.addAll pool healthy).laneWeight pool m.1 := by
    intro m hm
    have := hacct m.1 (hlane m hm).1
    have := credit_nonneg healthy m.1
    rw [hafter]
    omega
  obtain ⟨m, hm, hbest, hbeats⟩ := bestMember_spec hne hfloor
  have hwin := (hlane m hm).1
  have hwrap : wrapI64 total = total := by
    refine wrapI64_of_mem ?_ ?_
    · unfold i64Min
      omega
    · have := (hacct m.1 hwin).1
      have := (hacct m.1 hwin).2
      unfold i64Min i64Max at *
      omega
  refine ⟨m.1, hwin, hbest, ?_, ?_, ?_⟩
  · intro i hi
    obtain ⟨m', hm', rfl⟩ := credit_pos hi
    have := hbeats m' hm'
    rwa [hafter, hafter] at this
  · rw [length_onLane, hlen]
  · intro q i
    have hget := List.getElem?_eq_getElem (hlen.symm ▸ hwin : m.1 < (s.addAll pool healthy).lanes.length)
    have := hacct m.1 hwin
    have := hle m.1 hwin
    have := credit_nonneg healthy m.1
    have hpay := laneWeight_addWeight hget pool
      (by rw [hafter, hwrap]; omega : i64Min ≤ (s.addAll pool healthy).laneWeight pool m.1 + -wrapI64 total)
      (by rw [hafter, hwrap]; omega) q i
    rw [hpay, hw q i, hwrap]
    by_cases hq : q = pool
    · subst hq
      unfold RoundRobin.turn
      by_cases hi : i = m.1
      · simp [hi]
        ring
      · simp [hi]
    · simp [hq]

/-- **A selection keeps the balance of every pool.** -/
theorem Balanced.select {bound : Int} (hfits : s.lanes.length * bound < 2 ^ 63) (hb : ∀ q, s.Balanced bound q)
    (pool : String) (candidates weights : List Nat) (now : Nat) (htotal : (weights.sum : Int) ≤ bound) (q : String) :
    (s.selectWeightedFor pool candidates weights now).2.Balanced bound q := by
  obtain ⟨hlen, hw, hmem⟩ := healthyMembers_spec pool now (candidates.zip weights) s
  unfold selectWeightedFor
  rcases hr : healthyMembers pool now (candidates.zip weights) s with ⟨_ | _ | ⟨m₀, rest⟩, s₁⟩
  · rw [hr] at hlen hw
    exact (hb q).congr hlen (hw q)
  · rw [hr] at hlen hw
    exact (hb q).congr hlen (hw q)
  rw [hr] at hlen hw hmem
  obtain ⟨hsub, hlane⟩ := hmem _ rfl
  have hbound := (sum_healthy_le hsub).trans htotal
  have hb₁ : ∀ p, s₁.Balanced bound p := fun p => (hb p).congr hlen (hw p)
  rw [← hlen] at hfits hlane
  obtain ⟨winner, hwin, hbest, hbeats, hlen', hturn⟩ :=
    select_turn hfits (hb₁ pool) (List.cons_ne_nil m₀ rest) hlane rfl hbound
  dsimp only
  rw [hbest]
  dsimp only
  generalize (s₁.addAll pool (m₀ :: rest)).onLane winner _ = s₂ at hlen' hturn ⊢
  by_cases hq : q = pool
  · subst hq
    have hsum := sum_credit (n := s₁.lanes.length) fun m hm => (hlane m hm).1
    have hown : s₂.laneWeight q = RoundRobin.turn (credit (m₀ :: rest)) _ winner (s₁.laneWeight q) :=
      funext fun i => (hturn q i).trans (if_pos rfl)
    refine ⟨?_, ?_⟩
    · rw [poolWeight_eq, hlen', hown, RoundRobin.sum_turn hsum (Finset.mem_range.2 hwin), ← poolWeight_eq]
      exact (hb₁ q).sum
    · rw [hlen', hown]
      exact (hb₁ q).level.turn (credit_nonneg _) hsum hbound (Finset.mem_range.2 hwin) fun i _ => hbeats i
  · exact (hb₁ q).congr hlen' fun i => (hturn q i).trans (if_neg hq)

theorem Balanced.of_zero {bound : Int} (hbound : 0 ≤ bound) (h : ∀ i, s.laneWeight pool i = 0) :
    s.Balanced bound pool := by
  refine ⟨?_, ?_⟩
  · rw [poolWeight_eq, Finset.sum_congr rfl fun i _ => h i, Finset.sum_const_zero]
  · exact (RoundRobin.Level.zero hbound _).congr fun i _ => h i

end HealthState

/-! ## Runs -/

/-- Restored health carries no accumulators. -/
theorem restoreCell_weight (l : List PoolCellHealthSnapshot) {cells : Table String BreakerCell}
    (hz : ∀ p c, cells.lookup p = some c → c.currentWeight = 0) :
    ∀ p c, (l.foldl LaneState.restoreCell cells).lookup p = some c → c.currentWeight = 0 := by
  induction l generalizing cells with
  | nil => exact hz
  | cons cs l ih =>
    refine ih fun p c hl => ?_
    unfold LaneState.restoreCell at hl
    rw [Table.lookup_set] at hl
    by_cases hp : cs.pool = p
    · rw [if_pos hp] at hl
      obtain rfl := Option.some.inj hl
      show ((cells.lookup cs.pool).getD BreakerCell.new).currentWeight = 0
      rcases hc : cells.lookup cs.pool with _ | c
      · rfl
      · exact hz _ c hc
    · rw [if_neg hp] at hl
      exact hz p c hl

theorem currentWeight_of_zero {ls : LaneState} (hd : ls.defaultCell.currentWeight = 0)
    (hp : ∀ p c, ls.poolCells.lookup p = some c → c.currentWeight = 0) (q : String) : ls.currentWeight q = 0 := by
  unfold LaneState.currentWeight LaneState.cellAt
  split
  · exact hd
  · rcases hc : ls.poolCells.lookup q with _ | c
    · rfl
    · exact hp q c hc

theorem boot_weight (lanes : List LaneData) (limits : HealthLimits) (restored : List LaneHealthSnapshot) (q : String)
    (i : Nat) : (HealthState.newWithLimitsRestored lanes limits restored).laneWeight q i = 0 := by
  unfold HealthState.laneWeight
  rcases hls : (HealthState.newWithLimitsRestored lanes limits restored).lanes[i]? with _ | ls
  · rfl
  obtain ⟨ls₀, hls₀, rfl⟩ := List.mem_map.1 (List.mem_of_getElem? hls)
  obtain ⟨ld, -, rfl⟩ := List.mem_map.1 hls₀
  have hnone : ∀ p c, (LaneState.ofData ld).poolCells.lookup p = some c → c.currentWeight = 0 := by
    intro p c hc
    cases hc
  split
  · exact currentWeight_of_zero rfl (restoreCell_weight _ hnone) q
  · exact currentWeight_of_zero rfl hnone q

namespace PoolOp

variable {s : HealthState} {lanes : List LaneData} {limits : HealthLimits} {restored : List LaneHealthSnapshot}

/-- Every cell the operation recovers has accumulator zero. -/
def RecoversAtZero (s : HealthState) : PoolOp → Prop
  | .lane i op => ∀ ls, s.lanes[i]? = some ls → ∀ pool, ls.recovers pool op = true → ls.currentWeight pool = 0
  | .selectWeightedFor _ _ _ _ => True

theorem length_run (s : HealthState) (op : PoolOp) : (run s op).lanes.length = s.lanes.length := by
  cases op with
  | lane i op => exact HealthState.length_onLane s i _
  | selectWeightedFor pool candidates weights now => exact HealthState.length_selectWeightedFor s _ _ _ _

/-- **One operation** that recovers at zero keeps the balance of every pool. -/
theorem run_balanced {bound : Int} (hfits : s.lanes.length * bound < 2 ^ 63) (hb : ∀ q, s.Balanced bound q)
    {op : PoolOp} (htotal : (op.total : Int) ≤ bound) (hzero : RecoversAtZero s op) (q : String) :
    (run s op).Balanced bound q := by
  cases op with
  | selectWeightedFor pool candidates weights now => exact HealthState.Balanced.select hfits hb _ _ _ _ htotal q
  | lane i op =>
    rcases hls : s.lanes[i]? with _ | ls
    · rw [HealthState.run_lane_none hls]
      exact hb q
    · refine (hb q).congr (length_run s _) fun j => ?_
      simp only [run]
      rw [HealthState.laneWeight_onLane hls, LaneState.currentWeight_step]
      by_cases hj : j = i
      · subst hj
        rw [if_pos rfl, HealthState.laneWeight_of_get hls]
        split
        · exact (hzero ls hls q ‹_›).symm
        · rfl
      · rw [if_neg hj]

theorem after_snoc (ops : List PoolOp) (op : PoolOp) :
    after lanes limits restored (ops ++ [op]) = run (after lanes limits restored ops) op := exec_snoc run _ ops op

theorem length_after (ops : List PoolOp) : (after lanes limits restored ops).lanes.length = lanes.length := by
  refine exec_invariant run (I := fun s => s.lanes.length = lanes.length) ?_ ?_ ops
  · intro s op h
    rw [length_run, h]
  · simp [HealthState.newWithLimitsRestored, HealthState.restoreHealthImpl, HealthState.newWithLimits]

/-- **Whole runs.** Where the totals of the selections times the number of lanes fit the machine type, every pool
sums to zero in every state of the run if and only if every cell the run recovers has accumulator zero. -/
theorem sums_stay_zero_iff (lanes : List LaneData) (limits : HealthLimits) (restored : List LaneHealthSnapshot)
    {ops : List PoolOp} {bound : Nat} (htotal : ∀ op ∈ ops, op.total ≤ bound)
    (hfits : lanes.length * bound < 2 ^ 63) :
    (∀ pre, pre <+: ops → ∀ pool, (after lanes limits restored pre).poolWeight pool = 0) ↔
      Along (fun pre op => RecoversAtZero (after lanes limits restored pre) op) ops := by
  constructor
  · rintro h pre op post rfl
    have hbefore := h pre ⟨op :: post, rfl⟩
    have hafter := h (pre ++ [op]) ⟨post, by simp⟩
    cases op with
    | selectWeightedFor pool candidates weights now => trivial
    | lane i op =>
      intro ls hls pool hr
      have hpool := hafter pool
      rw [after_snoc, HealthState.poolWeight_lane hls, hbefore pool, if_pos hr] at hpool
      omega
  · intro h pre hpre pool
    obtain ⟨post, rfl⟩ := hpre
    have hfits' : ∀ pre', ((after lanes limits restored pre').lanes.length : Int) * bound < 2 ^ 63 := by
      intro pre'
      rw [length_after]
      exact_mod_cast hfits
    have htotal' : Along (fun _ op => op.total ≤ bound) pre := by
      rintro p op r rfl
      exact htotal op (by simp)
    have hboth : Along (fun pre op => RecoversAtZero (after lanes limits restored pre) op ∧ op.total ≤ bound) pre :=
      fun p op r e => ⟨h.append_left p op r e, htotal' p op r e⟩
    refine (Along.invariant (I := fun ops => ∀ q, (after lanes limits restored ops).Balanced bound q) ?_ ?_
      hboth pool).sum
    · exact fun q => .of_zero (Int.natCast_nonneg _) (boot_weight lanes limits restored q)
    · rintro pre' op hb ⟨hzero, ht⟩ q
      rw [after_snoc]
      exact run_balanced (hfits' pre') hb (by exact_mod_cast ht) hzero q

def twoLanes : List LaneData := [HealthRun.plainLane, { HealthRun.plainLane with model := "n" }]

/-- Two lanes of weight 1: the first is picked, trips and recovers. -/
def tiltedRun : List PoolOp :=
  [.selectWeightedFor "gold" [0, 1] [1, 1] 5, .lane 0 (.recordHardDownAllCells "billing" 5), .lane 0 (.recoverLane 6)]

/-- The recovery forgives the first lane what it owes the second. -/
theorem recovery_unbalances : (after twoLanes ⟨1800, 100⟩ [] tiltedRun).poolWeight "gold" = 1 := by
  decide +kernel

theorem sums_stay_zero_iff_tilted :
    ¬ Along (fun pre op => RecoversAtZero (after twoLanes ⟨1800, 100⟩ [] pre) op) tiltedRun := by
  intro h
  have htotal : ∀ op ∈ tiltedRun, op.total ≤ 2 := by decide
  have hzero := (sums_stay_zero_iff _ _ _ htotal (by decide)).2 h tiltedRun List.prefix_rfl "gold"
  exact absurd hzero (by decide +kernel)

end PoolOp

end Busbar
