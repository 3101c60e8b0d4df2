import Busbar.Health.Step

/-!
# The half-open probe is a single flight

Every breaker cell is a lease: winning the probe is the grant, the epoch is the fencing token, the owned
release shows the token, and every outcome or recovery is a revocation. The epoch counter has 64 bits, so
its tokens differ for the first `2 ^ 64 - 1` wins.

* `Tracks`: a cell's record against the log of its admissions.
* `LaneState.step_ok`: one operation keeps every cell of the lane on track.
* `after_tracks`: in every state reached, every cell is on track.
* `single_flight`: HalfOpen and flag agree, and while HalfOpen exactly one admission holds the cell.
* `epochs_repeat`: after `2 ^ 64` wins an epoch is won a second time.
-/

namespace Busbar

/-! ## A cell as a lease -/

/-- The epoch after `n` wins. -/
def epochAfter (n : Nat) : Nat := n % 2 ^ 64

theorem epochAfter_succ (n : Nat) : wrapInc64 (epochAfter n) = epochAfter (n + 1) := by
  unfold wrapInc64 epochAfter
  omega

theorem epochAfter_injOn {n : Nat} (hn : n ≤ u64Max) : Set.InjOn epochAfter (Set.Iic n) := by
  intro i hi j hj he
  have hi' : i ≤ n := hi
  have hj' : j ≤ n := hj
  unfold u64Max at hn
  unfold epochAfter at he
  omega

/-- A cell's record agrees with the log of its admissions: it is the lease its epoch and flag say. -/
def Tracks (h : List (Lease.Event Nat)) (c : BreakerCell) : Prop :=
  c.Settled ∧ ∃ n, c.probeEpoch = epochAfter n ∧ Lease.Reach epochAfter ⟨n, c.probeInFlight⟩ h

theorem Tracks.start {c : BreakerCell} (hs : c.breakerState ≠ stHalfOpen) (hf : c.probeInFlight = false)
    (he : c.probeEpoch = 0) : Tracks [] c := by
  refine ⟨?_, 0, he, ?_⟩
  · unfold BreakerCell.Settled
    rw [hf]
    exact ⟨fun h => absurd h hs, fun h => absurd h Bool.false_ne_true⟩
  · rw [hf]
    exact Lease.Reach.start

variable {h : List (Lease.Event Nat)} {c c' : BreakerCell}

/-- A transition that is no acquisition leaves the lease as it is or revokes it. -/
theorem Tracks.calm (ht : Tracks h c) (hc : Calms c c') : Tracks h c' := by
  obtain ⟨hs, n, he, hr⟩ := ht
  refine ⟨hc.settled hs, n, hc.epoch.trans he, ?_⟩
  rcases hf' : c'.probeInFlight with _ | _
  · exact Lease.Reach.revoke hr
  · rw [hc.flag hf'] at hr
    exact hr

theorem Tracks.idle (ht : Tracks h c) (hs : c.breakerState ≠ stHalfOpen) : c.probeInFlight = false := by
  rcases hf : c.probeInFlight with _ | _
  · rfl
  · exact absurd (ht.1.2 hf) hs

/-- An admission through a cell that is not HalfOpen joins without a grant. -/
theorem Tracks.join (ht : Tracks h c) (hs : c.breakerState ≠ stHalfOpen) :
    Tracks (h ++ [.joined c.probeEpoch]) c := by
  have hf := ht.idle hs
  obtain ⟨hset, n, he, hr⟩ := ht
  refine ⟨hset, n, he, ?_⟩
  rw [hf] at hr ⊢
  rw [he]
  exact hr.join

/-- Winning the probe is the grant of the next epoch. -/
theorem Tracks.win (ht : Tracks h c) (hs : c.breakerState = stOpen) :
    Tracks (h ++ [.granted (wrapInc64 c.probeEpoch)]) { c with
      breakerState := stHalfOpen, probeEpoch := wrapInc64 c.probeEpoch, probeInFlight := true } := by
  have hf := ht.idle (by rw [hs]; decide)
  obtain ⟨-, n, he, hr⟩ := ht
  rw [he, epochAfter_succ]
  refine ⟨⟨fun _ => rfl, fun _ => rfl⟩, n + 1, rfl, ?_⟩
  rw [hf] at hr
  exact hr.grant

/-- The owned release shows its epoch. -/
theorem Tracks.release (ht : Tracks h c) (e : Nat) :
    Tracks (h ++ [.released e]) (cellReleaseProbeOwned c e) := by
  by_cases hown : e = c.probeEpoch
  · by_cases hs : c.breakerState = stHalfOpen
    · -- the holder gives the probe back
      have hf := ht.1.1 hs
      obtain ⟨-, n, he, hr⟩ := ht
      rw [hown, cellReleaseProbeOwned_own hs]
      refine ⟨?_, n, he, ?_⟩
      · refine ⟨fun hso => absurd hso ?_, fun hfo => absurd hfo Bool.false_ne_true⟩
        show stOpen ≠ stHalfOpen
        decide
      · rw [hf] at hr
        exact hr.release _ he
    · have hf := ht.idle hs
      rw [cellReleaseProbeOwned_idle ht.1 hf]
      obtain ⟨hset, n, he, hr⟩ := ht
      exact ⟨hset, n, he, hr.stale e (fun _ => hf)⟩
  · rw [cellReleaseProbeOwned_stale hown]
    obtain ⟨hset, n, he, hr⟩ := ht
    exact ⟨hset, n, he, hr.stale e (fun ht' => absurd (ht'.trans he.symm) hown)⟩

/-- What an admission through `c` that left `c'` shows keeps the cell on track. -/
theorem Tracks.acquire {now : Nat} (ht : Tracks h c) (hacq : cellAcquireBreaker c now = (true, c')) :
    Tracks (h ++ [if c'.breakerState = stHalfOpen then .granted c'.probeEpoch else .joined c'.probeEpoch])
      c' := by
  rcases cellAcquireBreaker_cases c now with hno | ⟨hs, hyes⟩ | ⟨hs, hyes⟩
  · rw [hno] at hacq
    exact absurd (Prod.mk.inj hacq).1 Bool.false_ne_true
  · rw [hyes] at hacq
    obtain ⟨-, rfl⟩ := Prod.mk.inj hacq
    have hne : c.breakerState ≠ stHalfOpen := by rw [hs]; decide
    rw [if_neg hne]
    exact ht.join hne
  · rw [hyes] at hacq
    obtain ⟨-, rfl⟩ := Prod.mk.inj hacq
    rw [if_pos rfl]
    exact ht.win hs

/-! ## The cells of a lane -/

/-- Every cell of the lane is on track, and nobody was admitted to a cell that does not exist. -/
def LaneOk (hist : String → List (Lease.Event Nat)) (ls : LaneState) : Prop :=
  ∀ pool, (∀ c, ls.cellAt pool = some c → Tracks (hist pool) c) ∧ (ls.cellAt pool = none → hist pool = [])

/-- The history after what an operation shows. -/
def extend (hist : String → List (Lease.Event Nat)) : Option Note → String → List (Lease.Event Nat)
  | none => hist
  | some (pool, e) => Function.update hist pool (hist pool ++ [e])

/-- `ls'` has the cells of `ls` but for the pool's, which is `c`. -/
def Writes (ls : LaneState) (pool : String) (c : BreakerCell) (ls' : LaneState) : Prop :=
  ∀ q, ls'.cellAt q = if pool = q then some c else ls.cellAt q

section Lane

variable {hist : String → List (Lease.Event Nat)} {ls ls' : LaneState} {pool : String} {lim : HealthLimits}

theorem LaneOk.congr (ho : LaneOk hist ls) (hc : ∀ q, ls'.cellAt q = ls.cellAt q) : LaneOk hist ls' := by
  intro q
  rw [hc q]
  exact ho q

/-- The cell a pool resolves to is on track: it stands there, or it is made new. -/
theorem LaneOk.cell (ho : LaneOk hist ls) (pool : String) : Tracks (hist pool) (ls.cell pool) := by
  rcases hc : ls.cellAt pool with _ | c
  · rw [(ho pool).2 hc]
    unfold LaneState.cell
    rw [hc]
    refine Tracks.start ?_ rfl rfl
    show ls.sibling.breakerState ≠ stHalfOpen
    unfold LaneState.sibling
    by_cases hs : ls.defaultCell.breakerState = stHalfOpen
    · rw [if_pos hs]
      show stOpen ≠ stHalfOpen
      decide
    · rw [if_neg hs]
      exact hs
  · rw [LaneState.cell_of_cellAt hc]
    exact (ho pool).1 c hc

theorem LaneOk.writes {h' : List (Lease.Event Nat)} (ho : LaneOk hist ls) (hw : Writes ls pool c ls')
    (ht : Tracks h' c) : LaneOk (Function.update hist pool h') ls' := by
  intro q
  rw [hw q]
  by_cases hq : pool = q
  · subst hq
    rw [if_pos rfl, Function.update_self]
    exact ⟨fun c' hc' => Option.some.inj hc' ▸ ht, fun hn => absurd hn (Option.some_ne_none c)⟩
  · rw [if_neg hq, Function.update_of_ne (Ne.symm hq)]
    exact ho q

/-- A calm write shows nothing. -/
theorem LaneOk.writes_calm (ho : LaneOk hist ls) (hw : Writes ls pool c ls') (hc : Calms (ls.cell pool) c) :
    LaneOk hist ls' := by
  have := ho.writes hw ((ho.cell pool).calm hc)
  rwa [Function.update_eq_self] at this

theorem LaneOk.mapCells (ho : LaneOk hist ls) {f : String → BreakerCell → BreakerCell}
    (hf : ∀ pool c, Calms c (f pool c)) : LaneOk hist (ls.mapCells f) := by
  intro q
  rw [LaneState.cellAt_mapCells]
  refine ⟨?_, ?_⟩
  · intro c hc
    obtain ⟨c₀, hc₀, rfl⟩ := Option.map_eq_some_iff.1 hc
    exact ((ho q).1 c₀ hc₀).calm (hf q c₀)
  · intro hn
    exact (ho q).2 (Option.map_eq_none_iff.1 hn)

theorem writes_setCell (ls : LaneState) (pool : String) (c : BreakerCell) : Writes ls pool c (ls.setCell pool c) :=
  fun q => LaneState.cellAt_setCell ls pool q c

/-- Writing through a lane whose pool cell was touched, and whose permits may have moved. -/
theorem writes_touched {ls₁ : LaneState} (h₁ : ∀ q, ls₁.cellAt q = (ls.touch pool).cellAt q) (c : BreakerCell) :
    Writes ls pool c (ls₁.setCell pool c) := by
  intro q
  rw [LaneState.cellAt_setCell, h₁ q]
  unfold LaneState.touch
  rw [LaneState.cellAt_setCell]
  by_cases hq : pool = q
  · rw [if_pos hq, if_pos hq]
  · rw [if_neg hq, if_neg hq, if_neg hq]

/-- A refused admission leaves the cells alone, or makes the pool's cell. -/
def Refuses (ls : LaneState) (pool : String) (ls' : LaneState) : Prop :=
  (∀ q, ls'.cellAt q = ls.cellAt q) ∨ Writes ls pool (ls.cell pool) ls'

theorem LaneOk.refused (ho : LaneOk hist ls) (hr : Refuses ls pool ls') : LaneOk hist ls' := by
  rcases hr with hr | hr
  · exact ho.congr hr
  · exact ho.writes_calm hr (Calms.refl _)

/-- Past the verdict, the permit and the acquisition decide. -/
theorem acquire_cases (ls : LaneState) (pool : String) (now : Nat) {r : Except Unavailable Admit × LaneState}
    (hr : r = match (ls.touch pool).tryAcquire with
      | none => (Except.error (Unavailable.atCapacity none), ls.touch pool)
      | some (permit, ls₁) =>
        match cellAcquireBreaker (ls.cell pool) now with
        | (false, _) => (Except.error Unavailable.probeInFlight, ls₁.dropPermit permit)
        | (true, c') => (.ok (⟨permit, c'.probeEpoch⟩ : Admit), ls₁.setCell pool c')) :
    (∃ e, r.1 = .error e ∧ Refuses ls pool r.2) ∨
    (∃ a c, r.1 = .ok a ∧ cellAcquireBreaker (ls.cell pool) now = (true, c) ∧
      a.probeEpoch = c.probeEpoch ∧ Writes ls pool c r.2) := by
  subst hr
  rcases hacq : (ls.touch pool).tryAcquire with _ | ⟨permit, ls₁⟩
  · left; exact ⟨_, rfl, Or.inr (writes_setCell ls pool _)⟩
  · have h₁ : ∀ q, ls₁.cellAt q = (ls.touch pool).cellAt q := LaneState.cellAt_tryAcquire hacq
    rcases hb : cellAcquireBreaker (ls.cell pool) now with ⟨_ | _, c'⟩
    · left
      refine ⟨_, rfl, Or.inr fun q => ?_⟩
      show (ls₁.dropPermit permit).cellAt q = _
      rw [LaneState.cellAt_dropPermit, h₁ q]
      exact writes_setCell ls pool _ q
    · right; exact ⟨_, c', rfl, rfl, rfl, writes_touched h₁ c'⟩

/-- **The admission of a request**: refused, or through the pool's cell with the cell's epoch. -/
theorem tryAdmit_cases (ls : LaneState) (pool : String) (now : Nat) :
    (∃ e, (ls.tryAdmit pool now).1 = .error e ∧ Refuses ls pool (ls.tryAdmit pool now).2) ∨
    (∃ a c, (ls.tryAdmit pool now).1 = .ok a ∧ cellAcquireBreaker (ls.cell pool) now = (true, c) ∧
      a.probeEpoch = c.probeEpoch ∧ Writes ls pool c (ls.tryAdmit pool now).2) := by
  unfold LaneState.tryAdmit
  by_cases hd : ls.dead = true
  · left; rw [if_pos hd]; exact ⟨_, rfl, Or.inl fun q => rfl⟩
  rw [if_neg hd]
  by_cases hb : ls.limited = true ∧ ls.budget ≤ 0
  · left; rw [if_pos hb]; exact ⟨_, rfl, Or.inl fun q => rfl⟩
  rw [if_neg hb]
  dsimp only
  have htouch : Refuses ls pool (ls.touch pool) := Or.inr (writes_setCell ls pool _)
  rcases hv : breakerVerdict (ls.cell pool) now with _ | d | _ | _
  · exact acquire_cases ls pool now rfl
  · left; exact ⟨_, rfl, htouch⟩
  · left; exact ⟨_, rfl, htouch⟩
  · exact acquire_cases ls pool now rfl

/-- Past the verdict, the acquisition decides. -/
theorem acquireBreaker_cases (ls : LaneState) (pool : String) (now : Nat) {r : Except Unavailable Nat × LaneState}
    (hr : r = match cellAcquireBreaker (ls.cell pool) now with
      | (false, _) => (Except.error Unavailable.probeInFlight, ls.touch pool)
      | (true, c') => (.ok c'.probeEpoch, (ls.touch pool).setCell pool c')) :
    (∃ e, r.1 = .error e ∧ Refuses ls pool r.2) ∨
    (∃ c, r.1 = .ok c.probeEpoch ∧ cellAcquireBreaker (ls.cell pool) now = (true, c) ∧ Writes ls pool c r.2) := by
  subst hr
  rcases hb : cellAcquireBreaker (ls.cell pool) now with ⟨_ | _, c'⟩
  · left; exact ⟨_, rfl, Or.inr (writes_setCell ls pool _)⟩
  · right; exact ⟨c', rfl, rfl, writes_touched (fun q => rfl) c'⟩

theorem tryAdmitBreaker_cases (ls : LaneState) (pool : String) (now : Nat) :
    (∃ e, (ls.tryAdmitBreaker pool now).1 = .error e ∧ Refuses ls pool (ls.tryAdmitBreaker pool now).2) ∨
    (∃ c, (ls.tryAdmitBreaker pool now).1 = .ok c.probeEpoch ∧
      cellAcquireBreaker (ls.cell pool) now = (true, c) ∧ Writes ls pool c (ls.tryAdmitBreaker pool now).2) := by
  unfold LaneState.tryAdmitBreaker
  by_cases hd : ls.dead = true
  · left; rw [if_pos hd]; exact ⟨_, rfl, Or.inl fun q => rfl⟩
  rw [if_neg hd]
  by_cases hb : ls.limited = true ∧ ls.budget ≤ 0
  · left; rw [if_pos hb]; exact ⟨_, rfl, Or.inl fun q => rfl⟩
  rw [if_neg hb]
  dsimp only
  have htouch : Refuses ls pool (ls.touch pool) := Or.inr (writes_setCell ls pool _)
  rcases hv : breakerVerdict (ls.cell pool) now with _ | d | _ | _
  · exact acquireBreaker_cases ls pool now rfl
  · left; exact ⟨_, rfl, htouch⟩
  · left; exact ⟨_, rfl, htouch⟩
  · exact acquireBreaker_cases ls pool now rfl

theorem LaneOk.admitted {now : Nat} (ho : LaneOk hist ls) (hw : Writes ls pool c ls')
    (hacq : cellAcquireBreaker (ls.cell pool) now = (true, c)) :
    LaneOk (extend hist (some (ls'.admission pool c.probeEpoch))) ls' := by
  have hcell : ls'.cell pool = c := by
    apply LaneState.cell_of_cellAt
    rw [hw pool, if_pos rfl]
  unfold LaneState.admission extend
  rw [hcell]
  exact ho.writes hw ((ho.cell pool).acquire hacq)

theorem LaneOk.released (ho : LaneOk hist ls) (pool : String) (e : Nat) :
    LaneOk (extend hist (some (pool, .released e))) (ls.releaseProbeOwnedIn pool e) :=
  ho.writes (writes_setCell ls pool _) ((ho.cell pool).release e)

theorem LaneOk.recordFailure (ho : LaneOk hist ls) (pool : String) (now : Nat) (cfg : BreakerCfg)
    (ra : Option Nat) (seed : JitterSeed) : LaneOk hist (ls.recordFailureFor lim pool now cfg ra seed) := by
  unfold LaneState.recordFailureFor
  split
  · exact ho
  · have hset := ho.writes_calm (writes_setCell ls pool _)
      (calms_recordFailure (ls.cell pool) now cfg ra lim.maxHonoredRetryAfterSecs seed)
    refine LaneOk.congr ?_ (LaneState.cellAt_countTrip _ _ now)
    unfold LaneState.countErr
    split
    · exact hset
    · -- the lane's error counter is a field of the default cell
      refine hset.writes_calm (writes_setCell _ "" _) ?_
      exact Calms.of_eq rfl rfl rfl

theorem LaneOk.recordSuccess (ho : LaneOk hist ls) (pool : String) (now : Nat) :
    LaneOk hist (ls.recordSuccessFor pool now) := by
  unfold LaneState.recordSuccessFor
  split
  · exact ho.congr (LaneState.cellAt_congr rfl rfl)
  · refine LaneOk.congr ?_ (LaneState.cellAt_congr rfl rfl)
    exact ho.writes_calm (writes_setCell ls pool _) (calms_resetIfClosed (calms_recordSuccess _ now))

/-- **One operation keeps every cell of the lane on track.** -/
theorem LaneState.step_ok (ho : LaneOk hist ls) (op : LaneOp) :
    LaneOk (extend hist (ls.step lim op).2) (ls.step lim op).1 := by
  cases op with
  | cell pool => exact ho.writes_calm (writes_setCell ls pool _) (Calms.refl _)
  | tryAdmit pool now =>
    simp only [LaneState.step]
    have hcases := tryAdmit_cases ls pool now
    rcases hr : ls.tryAdmit pool now with ⟨_ | a, ls'⟩
    · rw [hr] at hcases
      rcases hcases with ⟨e, -, href⟩ | ⟨a, c, hok, -⟩
      · exact ho.refused href
      · simp at hok
    · rw [hr] at hcases
      rcases hcases with ⟨e, herr, -⟩ | ⟨a', c, hok, hacq, hep, hw⟩
      · simp at herr
      · obtain rfl := Except.ok.inj hok
        show LaneOk (extend hist (some (ls'.admission pool a.probeEpoch))) ls'
        rw [hep]
        exact ho.admitted hw hacq
  | tryAdmitBreaker pool now =>
    simp only [LaneState.step]
    have hcases := tryAdmitBreaker_cases ls pool now
    rcases hr : ls.tryAdmitBreaker pool now with ⟨_ | e', ls'⟩
    · rw [hr] at hcases
      rcases hcases with ⟨e, -, href⟩ | ⟨c, hok, -⟩
      · exact ho.refused href
      · simp at hok
    · rw [hr] at hcases
      rcases hcases with ⟨e, herr, -⟩ | ⟨c, hok, hacq, hw⟩
      · simp at herr
      · obtain rfl := Except.ok.inj hok
        exact ho.admitted hw hacq
  | recordFailure pool now cfg ra seed => exact ho.recordFailure pool now cfg ra seed
  | recordSuccess pool now => exact ho.recordSuccess pool now
  | recordHardDownAllCells reason now =>
    refine LaneOk.congr ?_ (LaneState.cellAt_countTrip _ _ now)
    have hreason : LaneOk hist { ls with deadReason := reason } := ho.congr (LaneState.cellAt_congr rfl rfl)
    exact hreason.mapCells (fun _ c => calms_hardDown c now _)
  | recordProbeSuccessAllCells now =>
    show LaneOk hist (ls.recordProbeSuccessAllCells now)
    unfold LaneState.recordProbeSuccessAllCells
    split
    · exact ho.congr (LaneState.cellAt_congr rfl rfl)
    · refine LaneOk.congr ?_ (LaneState.cellAt_congr rfl rfl)
      exact ho.mapCells (fun _ c => calms_resetIfClosed (calms_recordSuccess c now))
  | recordProbeFailureAllCells now resolveCfg ra seed =>
    show LaneOk hist (ls.recordProbeFailureAllCells lim now resolveCfg ra seed)
    unfold LaneState.recordProbeFailureAllCells
    split
    · exact ho
    · exact ho.mapCells (fun _ c => calms_recordFailure c now _ ra _ _)
  | recoverLane now => exact ho.mapCells (fun _ c => calms_resetIfClosed (calms_recoverClose c now))
  | releaseProbeOwnedIn pool e => exact ho.released pool e
  | dropGuard guard =>
    simp only [LaneState.step]
    by_cases ha : guard.armed = true
    · simp only [ha, if_true]
      exact ho.released guard.pool guard.probeEpoch
    · simp only [ha]
      exact ho
  | releaseProbeIn pool => exact ho.writes_calm (writes_setCell ls pool _) (calms_releaseProbe _)
  | dropPermit permit => exact ho.congr (LaneState.cellAt_dropPermit ls permit)
  | spendBudget =>
    show LaneOk hist ls.spendBudget.2
    unfold LaneState.spendBudget
    split
    · split
      · exact ho
      · exact ho.congr (LaneState.cellAt_congr rfl rfl)
    · exact ho
  | refundBudget =>
    show LaneOk hist ls.refundBudget
    unfold LaneState.refundBudget
    split
    · exact ho.congr (LaneState.cellAt_congr rfl rfl)
    · exact ho

end Lane

/-! ## A new store -/

/-- A cell no probe was ever won on. -/
def BreakerCell.Fresh (c : BreakerCell) : Prop :=
  c.breakerState ≠ stHalfOpen ∧ c.probeInFlight = false ∧ c.probeEpoch = 0

theorem restoredBreakerState_ne (state : Nat) : LaneState.restoredBreakerState state ≠ stHalfOpen := by
  unfold LaneState.restoredBreakerState
  by_cases h : state = stHalfOpen
  · rw [if_pos h]; decide
  · rw [if_neg h]; exact h

theorem restoreCell_fresh {cells : Table String BreakerCell} (hf : ∀ p c, cells.lookup p = some c → c.Fresh)
    (cs : PoolCellHealthSnapshot) :
    ∀ p c, (LaneState.restoreCell cells cs).lookup p = some c → c.Fresh := by
  intro p c hl
  unfold LaneState.restoreCell at hl
  rw [Table.lookup_set] at hl
  by_cases hp : cs.pool = p
  · rw [if_pos hp] at hl
    obtain rfl := Option.some.inj hl
    have hold : ((cells.lookup cs.pool).getD BreakerCell.new).Fresh := by
      rcases hc : cells.lookup cs.pool with _ | c
      · exact ⟨by decide, rfl, rfl⟩
      · exact hf _ c hc
    exact ⟨restoredBreakerState_ne _, hold.2.1, hold.2.2⟩
  · rw [if_neg hp] at hl
    exact hf p c hl

theorem foldl_restoreCell_fresh (l : List PoolCellHealthSnapshot) {cells : Table String BreakerCell}
    (hf : ∀ p c, cells.lookup p = some c → c.Fresh) :
    ∀ p c, (l.foldl LaneState.restoreCell cells).lookup p = some c → c.Fresh := by
  induction l generalizing cells with
  | nil => exact hf
  | cons cs l ih => exact ih (restoreCell_fresh hf cs)

theorem laneOk_of_fresh {ls : LaneState} (hd : ls.defaultCell.Fresh)
    (hp : ∀ p c, ls.poolCells.lookup p = some c → c.Fresh) : LaneOk (fun _ => []) ls := by
  intro pool
  refine ⟨fun c hc => ?_, fun _ => rfl⟩
  have hf : c.Fresh := by
    unfold LaneState.cellAt at hc
    by_cases h : pool = ""
    · rw [if_pos h] at hc
      exact Option.some.inj hc ▸ hd
    · rw [if_neg h] at hc
      exact hp pool c hc
  exact Tracks.start hf.1 hf.2.1 hf.2.2

theorem ofData_ok (ld : LaneData) : LaneOk (fun _ => []) (LaneState.ofData ld) := by
  refine laneOk_of_fresh ⟨by show stClosed ≠ stHalfOpen; decide, rfl, rfl⟩ ?_
  intro p c hc
  exact absurd hc (Option.some_ne_none c).symm

theorem restore_ok (ld : LaneData) (snap : LaneHealthSnapshot) :
    LaneOk (fun _ => []) ((LaneState.ofData ld).restore snap) := by
  refine laneOk_of_fresh ⟨restoredBreakerState_ne _, rfl, rfl⟩ ?_
  refine foldl_restoreCell_fresh snap.cells ?_
  intro p c hc
  exact absurd hc (Option.some_ne_none c).symm

/-! ## Runs -/

namespace HealthRun

theorem historyOf_append (log : List (Nat × Note)) (lane : Nat) (note : Option Note) (lane' : Nat) :
    historyOf (log ++ (note.map (fun e => (lane, e))).toList) lane' =
      if lane = lane' then extend (historyOf log lane') note else historyOf log lane' := by
  rcases note with _ | ⟨pool, e⟩
  · simp [extend]
  · funext q
    unfold historyOf
    by_cases hl : lane = lane'
    · by_cases hp : pool = q
      · subst hp; simp [hl, extend]
      · simp [hl, hp, Ne.symm hp, extend]
    · simp [hl]

/-- Every cell of the store is on track. -/
def Ok (r : HealthRun) : Prop :=
  ∀ lane ls, r.store.lanes[lane]? = some ls → LaneOk (r.history lane) ls

theorem step_ok {r : HealthRun} (ho : r.Ok) (op : Nat × LaneOp) : (r.step op).Ok := by
  unfold step
  rcases hl : r.store.lanes[op.1]? with _ | ls
  · exact ho
  · intro lane ls' hls'
    have hlane := ho op.1 ls hl
    show LaneOk (historyOf (r.log ++ _) lane) ls'
    rw [historyOf_append]
    simp only [List.getElem?_set] at hls'
    by_cases hop : op.1 = lane
    · rw [if_pos hop] at hls' ⊢
      have hlt : op.1 < r.store.lanes.length := (List.getElem?_eq_some_iff.1 hl).1
      rw [if_pos hlt] at hls'
      obtain rfl := Option.some.inj hls'
      rw [← hop]
      exact LaneState.step_ok hlane op.2
    · rw [if_neg hop] at hls' ⊢
      exact ho lane ls' hls'

theorem boot_ok (lanes : List LaneData) (limits : HealthLimits) (restored : List LaneHealthSnapshot) :
    (boot lanes limits restored).Ok := by
  intro lane ls hls
  obtain ⟨ls₀, hls₀, hls⟩ := List.mem_map.1 (List.mem_of_getElem? hls)
  obtain ⟨ld, -, rfl⟩ := List.mem_map.1 hls₀
  show LaneOk (fun _ => []) ls
  rw [← hls]
  split
  · exact restore_ok ld _
  · exact ofData_ok ld

/-- **Every cell stays on track** through every run. -/
theorem after_tracks (lanes : List LaneData) (limits : HealthLimits) (restored : List LaneHealthSnapshot)
    (ops : List (Nat × LaneOp)) {lane : Nat} {pool : String} {c : BreakerCell}
    (hc : (after lanes limits restored ops).store.cellAt lane pool = some c) :
    Tracks ((after lanes limits restored ops).history lane pool) c := by
  have ho : (after lanes limits restored ops).Ok :=
    Run.exec_invariant (I := Ok) step (fun _ op h => step_ok h op) (boot_ok lanes limits restored) ops
  unfold HealthState.cellAt at hc
  obtain ⟨ls, hls, hcell⟩ := Option.bind_eq_some_iff.1 hc
  exact (ho lane ls hls pool).1 c hcell

theorem cellAt_onLane {s : HealthState} {lane : Nat} {ls : LaneState} (hls : s.lanes[lane]? = some ls)
    (f : LaneState → LaneState) (pool : String) : (s.onLane lane f).cellAt lane pool = (f ls).cellAt pool := by
  have hlt : lane < s.lanes.length := (List.getElem?_eq_some_iff.1 hls).1
  unfold HealthState.onLane HealthState.cellAt
  rw [hls]
  simp [hlt]

/-- A release with an epoch that is not the cell's changes nothing in the store. -/
theorem release_stale {s : HealthState} {lane : Nat} {pool : String} {c : BreakerCell}
    (hc : s.cellAt lane pool = some c) {e : Nat} (he : e ≠ c.probeEpoch) :
    s.releaseProbeOwnedIn pool lane e = s := by
  unfold HealthState.cellAt at hc
  obtain ⟨ls, hls, hcell⟩ := Option.bind_eq_some_iff.1 hc
  have hsame : ls.releaseProbeOwnedIn pool e = ls := by
    unfold LaneState.releaseProbeOwnedIn
    rw [LaneState.cell_of_cellAt hcell, cellReleaseProbeOwned_stale he]
    exact LaneState.setCell_cell hcell
  unfold HealthState.releaseProbeOwnedIn HealthState.onLane
  rw [hls]
  simp only [hsame]
  obtain ⟨hlt, hget⟩ := List.getElem?_eq_some_iff.1 hls
  rw [← hget, List.set_getElem_self]

/-- The holder's release reopens a HalfOpen cell. -/
theorem release_own {s : HealthState} {lane : Nat} {pool : String} {c : BreakerCell}
    (hc : s.cellAt lane pool = some c) (hs : c.breakerState = stHalfOpen) :
    (s.releaseProbeOwnedIn pool lane c.probeEpoch).cellAt lane pool =
      some { c with breakerState := stOpen, probeInFlight := false } := by
  unfold HealthState.cellAt at hc
  obtain ⟨ls, hls, hcell⟩ := Option.bind_eq_some_iff.1 hc
  unfold HealthState.releaseProbeOwnedIn
  rw [cellAt_onLane hls]
  unfold LaneState.releaseProbeOwnedIn
  rw [LaneState.cellAt_setCell, if_pos rfl, LaneState.cell_of_cellAt hcell, cellReleaseProbeOwned_own hs]

/-- **The half-open probe is a single flight.** In every state reached from a fresh or restored store, a
cell is HalfOpen exactly while its probe is in flight, and a release with another epoch than the cell's
changes nothing. While the probe has been won fewer than `2 ^ 64` times, no epoch is won twice, and a
HalfOpen cell has exactly one unreleased admission with its epoch: the one that won it, whose release
reopens the cell. -/
theorem single_flight (lanes : List LaneData) (limits : HealthLimits) (restored : List LaneHealthSnapshot)
    (ops : List (Nat × LaneOp)) (lane : Nat) (pool : String) (c : BreakerCell)
    (hc : (after lanes limits restored ops).store.cellAt lane pool = some c) :
    (c.breakerState = stHalfOpen ↔ c.probeInFlight = true) ∧
    (∀ e, e ≠ c.probeEpoch → (after lanes limits restored ops).store.releaseProbeOwnedIn pool lane e =
      (after lanes limits restored ops).store) ∧
    (((after lanes limits restored ops).wins lane pool).length ≤ u64Max →
      ((after lanes limits restored ops).wins lane pool).Nodup ∧
      (c.breakerState = stHalfOpen →
        (after lanes limits restored ops).unreleased lane pool c.probeEpoch = [.granted c.probeEpoch] ∧
        ((after lanes limits restored ops).store.releaseProbeOwnedIn pool lane c.probeEpoch).cellAt lane pool =
          some { c with breakerState := stOpen, probeInFlight := false })) := by
  obtain ⟨hset, n, he, hr⟩ := after_tracks lanes limits restored ops hc
  refine ⟨hset, fun e hne => release_stale hc hne, ?_⟩
  intro hwins
  have hn : n ≤ u64Max := by
    have hlen : (wins (after lanes limits restored ops) lane pool).length = n := hr.granted_length
    omega
  have hinj := epochAfter_injOn hn
  refine ⟨hr.granted_nodup hinj, fun hs => ⟨?_, release_own hc hs⟩⟩
  have hheld : c.probeInFlight = true := hset.1 hs
  have huniq := hr.unique_holder hinj hheld
  rw [he]
  exact huniq

/-! ## Two runs -/

/-- An upstream without caps. -/
def plainLane : LaneData where
  model := "m"
  provider := "p"
  max := maxPermits
  permits := 0
  limited := false
  budget := -1
  cooldownUntil := 0
  streak := 0
  dead := false
  deadReason := ""
  ok := 0
  err := 0
  clientFault := 0

/-- Two admissions around a hard-down: the first through the Closed cell, the second wins the probe after
the cooldown. -/
def probeRun : List (Nat × LaneOp) :=
  [(0, .tryAdmit "gold" 5), (0, .recordHardDownAllCells "billing" 5), (0, .tryAdmit "gold" 20)]

theorem single_flight_probe :
    ∃ c, (after [plainLane] ⟨10, 100⟩ [] probeRun).store.cellAt 0 "gold" = some c ∧
      c.breakerState = stHalfOpen ∧ c.probeInFlight = true ∧
      (after [plainLane] ⟨10, 100⟩ [] probeRun).history 0 "gold" = [.joined 0, .granted 1] ∧
      (after [plainLane] ⟨10, 100⟩ [] probeRun).unreleased 0 "gold" c.probeEpoch = [.granted c.probeEpoch] := by
  rcases hc : (after [plainLane] ⟨10, 100⟩ [] probeRun).store.cellAt 0 "gold" with _ | c
  · exact absurd hc (by decide +kernel)
  · have hs : c.breakerState = stHalfOpen := by
      have hstate : ((after [plainLane] ⟨10, 100⟩ [] probeRun).store.cellAt 0 "gold").map
          BreakerCell.breakerState = some stHalfOpen := by decide +kernel
      rw [hc] at hstate
      exact Option.some.inj hstate
    obtain ⟨hiff, -, hrest⟩ := single_flight [plainLane] ⟨10, 100⟩ [] probeRun 0 "gold" c hc
    exact ⟨c, rfl, hs, hiff.1 hs, by decide +kernel, ((hrest (by decide +kernel)).2 hs).1⟩

/-- One win: the hard-down opens the cell with no cooldown, and the next admission takes the probe. -/
def winRound : List (Nat × LaneOp) :=
  [(0, .recordHardDownAllCells "" 0), (0, .tryAdmitBreaker "" 0)]

def winRounds (n : Nat) : List (Nat × LaneOp) := (List.replicate n winRound).flatten

/-- A store of one lane without caps and with no hard-down cooldown. -/
def Plain (r : HealthRun) : Prop :=
  r.store.limits.hardDownCooldownSecs = 0 ∧
    ∃ ls, r.store.lanes = [ls] ∧ ls.dead = false ∧ ls.limited = false

theorem admits_after_hardDown {ls : LaneState} {lim : HealthLimits} (hlim : lim.hardDownCooldownSecs = 0)
    (hd : ls.dead = false) (hl : ls.limited = false) :
    ∃ e ls', (ls.recordHardDownAllCells lim "" 0).step lim (.tryAdmitBreaker "" 0) =
      (ls', some ("", .granted e)) ∧ ls'.dead = false ∧ ls'.limited = false := by
  obtain ⟨ls₁, h₁⟩ : ∃ ls₁, ls₁ = ls.recordHardDownAllCells lim "" 0 := ⟨_, rfl⟩
  rw [← h₁]
  unfold LaneState.recordHardDownAllCells LaneState.countTrip at h₁
  have hd₁ : ls₁.dead = false := by rw [h₁]; dsimp only; split <;> exact hd
  have hl₁ : ls₁.limited = false := by rw [h₁]; dsimp only; split <;> exact hl
  have hc₁ : ls₁.cell "" = hardDownTrip ls.defaultCell 0 0 := by
    rw [h₁, ← hlim]; dsimp only; split <;> rfl
  have hverdict : breakerVerdict (ls₁.cell "") 0 = .probeWinnable := by rw [hc₁]; rfl
  obtain ⟨won, hwon, hacq⟩ : ∃ won, won.breakerState = stHalfOpen ∧
      cellAcquireBreaker (ls₁.cell "") 0 = (true, won) := by
    rw [hc₁]
    exact ⟨_, rfl, rfl⟩
  refine ⟨won.probeEpoch, (ls₁.touch "").setCell "" won, ?_, hd₁, hl₁⟩
  simp only [LaneState.step, LaneState.tryAdmitBreaker, hd₁, hl₁, hverdict, hacq, Bool.false_eq_true,
    if_false, false_and]
  unfold LaneState.admission
  have hcell : ((ls₁.touch "").setCell "" won).cell "" = won := rfl
  rw [hcell, if_pos hwon]

/-- A round wins the probe once more and leaves a store of the same kind. -/
theorem winRound_wins {r : HealthRun} (hp : r.Plain) :
    (Run.exec step r winRound).Plain ∧
      ((Run.exec step r winRound).wins 0 "").length = (r.wins 0 "").length + 1 := by
  obtain ⟨hlim, ls, hls, hd, hl⟩ := hp
  obtain ⟨e, ls', hstep, hd', hl'⟩ := admits_after_hardDown hlim hd hl
  have hrun : Run.exec step r winRound =
      ⟨{ r.store with lanes := [ls'] }, r.log ++ [(0, ("", .granted e))]⟩ := by
    unfold winRound
    simp only [Run.exec_cons, Run.exec_nil]
    unfold step
    simp only [hls, LaneState.step, List.getElem?_cons_zero, List.set_cons_zero, Option.map_none,
      Option.toList_none, List.append_nil]
    simp only [LaneState.step] at hstep
    simp only [hstep]
    rfl
  rw [hrun]
  refine ⟨⟨hlim, ls', rfl, hd', hl'⟩, ?_⟩
  unfold wins history historyOf
  rw [List.filterMap_append]
  show (Lease.granted (_ ++ [Lease.Event.granted e])).length = _
  rw [Lease.granted_snoc_granted, List.length_append]
  rfl

theorem winRounds_wins (n : Nat) {r : HealthRun} (hp : r.Plain) :
    (Run.exec step r (winRounds n)).Plain ∧
      ((Run.exec step r (winRounds n)).wins 0 "").length = (r.wins 0 "").length + n := by
  induction n generalizing r with
  | zero => exact ⟨hp, rfl⟩
  | succ n ih =>
    obtain ⟨hp', hlen⟩ := winRound_wins hp
    have hsplit : winRounds (n + 1) = winRound ++ winRounds n := by
      unfold winRounds
      rw [List.replicate_succ, List.flatten_cons]
    rw [hsplit, Run.exec_append]
    obtain ⟨hpn, hlen'⟩ := ih hp'
    refine ⟨hpn, ?_⟩
    rw [hlen', hlen]
    omega

/-- After `n` rounds a plain store's cell has been won the first `n` times. -/
theorem winRounds_epochs (n : Nat) :
    (after [plainLane] ⟨0, 100⟩ [] (winRounds n)).wins 0 "" =
      (List.range n).map (fun i => epochAfter (i + 1)) := by
  have hplain : (boot [plainLane] ⟨0, 100⟩ []).Plain := ⟨rfl, _, rfl, rfl, rfl⟩
  obtain ⟨⟨-, ls, hls, -⟩, hlen⟩ := winRounds_wins n hplain
  have hc : (after [plainLane] ⟨0, 100⟩ [] (winRounds n)).store.cellAt 0 "" = some ls.defaultCell := by
    unfold after HealthState.cellAt
    rw [hls]
    rfl
  obtain ⟨-, m, -, hr⟩ := after_tracks [plainLane] ⟨0, 100⟩ [] (winRounds n) hc
  have hm : (wins (after [plainLane] ⟨0, 100⟩ [] (winRounds n)) 0 "").length = m := hr.granted_length
  have hmn : m = n := by
    rw [← hm]
    exact hlen.trans (Nat.zero_add n)
  subst hmn
  exact hr.granted_eq

/-- After `2 ^ 64 + 1` wins the epoch counter has come round: the first and the last win carry the same
epoch. -/
theorem epochs_repeat :
    ¬ ((after [plainLane] ⟨0, 100⟩ [] (winRounds (2 ^ 64 + 1))).wins 0 "").Nodup := by
  intro hnodup
  rw [winRounds_epochs] at hnodup
  have hinj := List.inj_on_of_nodup_map hnodup
  have h0 : (0 : Nat) ∈ List.range (2 ^ 64 + 1) := List.mem_range.2 (by omega)
  have h1 : (2 ^ 64 : Nat) ∈ List.range (2 ^ 64 + 1) := List.mem_range.2 (by omega)
  have heq : epochAfter (0 + 1) = epochAfter (2 ^ 64 + 1) := by
    unfold epochAfter
    omega
  have := hinj h0 h1 heq
  omega

end HealthRun

end Busbar
