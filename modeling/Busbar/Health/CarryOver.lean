import Busbar.Health.SingleFlight

/-!
# A configuration apply carries the health over

An apply builds a new store from the new lanes and restores the exported health of the old one, lane by
identity. What a snapshot holds of a cell decides its verdict, except that a probe in flight is not carried:
HalfOpen comes back as Open with its cooldown.

* `Resumes`: the health a cell takes over from another.
* `restore_resumes`: a restored lane resumes every cell of the exported lane, made or not.
* `health_survives_apply`: the verdicts of the common lanes and the budgets of the new ones.
-/

namespace Busbar

open LaneState

namespace LaneState

/-- What tells a lane from the others, whatever its index. -/
def identity (ls : LaneState) : String × String := (ls.model, ls.provider)

/-- The snapshot of one pool cell. -/
def exportCell (e : String × BreakerCell) : PoolCellHealthSnapshot where
  pool := e.1
  breakerState := e.2.breakerState
  cooldownUntil := e.2.cooldownUntil
  streak := e.2.streak
  err := e.2.err

def exportHealth (ls : LaneState) : LaneHealthSnapshot where
  model := ls.model
  provider := ls.provider
  -- an unlimited lane exports a mark that no limited lane takes for a budget
  budget := if ls.limited then ls.budget else -1
  breakerState := ls.defaultCell.breakerState
  cooldownUntil := ls.defaultCell.cooldownUntil
  streak := ls.defaultCell.streak
  dead := ls.dead
  deadReason := ls.deadReason
  ok := ls.ok
  err := ls.defaultCell.err
  clientFault := ls.clientFault
  latencyEwmaBits := ls.latencyEwmaBits
  trips := ls.trips
  lastTripAt := ls.lastTripAt
  cells := ls.poolCells.rows.map exportCell

end LaneState

def HealthState.exportHealth (s : HealthState) : List LaneHealthSnapshot := s.lanes.map LaneState.exportHealth

/-! ## Cells -/

/-- The second cell has the health of the first, but for a probe in flight. -/
structure Resumes (c c' : BreakerCell) : Prop where
  state : c'.breakerState = restoredBreakerState c.breakerState
  cooldown : c'.cooldownUntil = c.cooldownUntil
  streak : c'.streak = c.streak

/-- The verdict on a cell after an apply: HalfOpen is Open again, and its probe can be won once the cooldown is
over. -/
def resumedVerdict (c : BreakerCell) (now : Nat) : BreakerVerdict :=
  match breakerVerdict c now with
  | .halfOpen => if now ≥ c.cooldownUntil then .probeWinnable else .opened c.cooldownUntil
  | v => v

theorem Resumes.verdict {c c' : BreakerCell} (h : Resumes c c') (now : Nat) :
    breakerVerdict c' now = resumedVerdict c now := by
  unfold resumedVerdict breakerVerdict
  rw [h.state, h.cooldown]
  unfold restoredBreakerState
  by_cases hh : c.breakerState = stHalfOpen
  · have hc : stHalfOpen ≠ stClosed := by decide
    have ho : stHalfOpen ≠ stOpen := by decide
    have hoc : stOpen ≠ stClosed := by decide
    simp [hh, hc, ho, hoc]
  · simp only [if_neg hh]
    repeat' split
    all_goals first | rfl | simp_all

/-- The verdict that is carried is never HalfOpen. -/
theorem resumedVerdict_ne (c : BreakerCell) (now : Nat) : resumedVerdict c now ≠ .halfOpen := by
  unfold resumedVerdict
  split
  · split <;> simp
  · assumption

/-- A new cell with the snapshot of another. -/
def restoredCell (c : BreakerCell) : BreakerCell :=
  { BreakerCell.new with
    breakerState := restoredBreakerState c.breakerState
    cooldownUntil := c.cooldownUntil
    streak := c.streak
    err := c.err }

theorem restoredCell_resumes (c : BreakerCell) : Resumes c (restoredCell c) := ⟨rfl, rfl, rfl⟩

/-! ## Lanes -/

variable {ls : LaneState} {pool : String}

/-- Restoring exported cells into a table without them. -/
theorem lookup_restoreCells (l : List (String × BreakerCell)) {cells : Table String BreakerCell}
    (hl : (l.map Prod.fst).Nodup) (hnew : ∀ e ∈ l, cells.lookup e.1 = none) (pool : String) :
    ((l.map exportCell).foldl restoreCell cells).lookup pool =
      ((l.find? (fun e => e.1 = pool)).map (fun e => restoredCell e.2)).or (cells.lookup pool) := by
  induction l generalizing cells with
  | nil => rfl
  | cons e l ih =>
    rw [List.map_cons, List.nodup_cons] at hl
    have hset : restoreCell cells (exportCell e) = cells.set e.1 (restoredCell e.2) := by
      have hnone := hnew e List.mem_cons_self
      unfold restoreCell exportCell restoredCell
      dsimp only
      rw [hnone]
      rfl
    have hother : ∀ e' ∈ l, (cells.set e.1 (restoredCell e.2)).lookup e'.1 = none := by
      intro e' he'
      have hne : e.1 ≠ e'.1 := fun h => hl.1 (h ▸ List.mem_map_of_mem he')
      rw [Table.lookup_set, if_neg hne]
      exact hnew e' (List.mem_cons_of_mem _ he')
    rw [List.map_cons, List.foldl_cons, hset, ih hl.2 hother, List.find?_cons, Table.lookup_set]
    by_cases he : e.1 = pool
    · -- the name is not exported twice
      have hgone : l.find? (fun e' => e'.1 = pool) = none := by
        rw [List.find?_eq_none]
        intro e' he' h
        have hpool : e'.1 = pool := by simpa using h
        exact hl.1 (List.mem_map.2 ⟨e', he', hpool.trans he.symm⟩)
      simp [he, hgone]
    · simp [he]

theorem cellAt_restore (ld : LaneData) (ls : LaneState) (pool : String) (hpool : pool ≠ "") :
    ((ofData ld).restore ls.exportHealth).cellAt pool = (ls.cellAt pool).map restoredCell := by
  unfold cellAt
  rw [if_neg hpool, if_neg hpool]
  have hempty : ∀ e ∈ ls.poolCells.rows, (ofData ld).poolCells.lookup e.1 = none := fun _ _ => rfl
  have hrows := lookup_restoreCells ls.poolCells.rows ls.poolCells.nodup hempty pool
  refine hrows.trans ?_
  have hnone : (ofData ld).poolCells.lookup pool = none := rfl
  rw [hnone, Option.or_none]
  unfold Table.lookup Registry.get
  rw [Option.map_map]
  rfl

/-- A cell made on first access resumes from the default cell what the old lane's would have. -/
theorem sibling_resumes {ls' : LaneState} (h : Resumes ls.defaultCell ls'.defaultCell) :
    Resumes ls.sibling ls'.sibling := by
  refine ⟨?_, h.cooldown, h.streak⟩
  show (if ls'.defaultCell.breakerState = stHalfOpen then stOpen else ls'.defaultCell.breakerState) =
    restoredBreakerState (if ls.defaultCell.breakerState = stHalfOpen then stOpen else ls.defaultCell.breakerState)
  have hne := restoredBreakerState_ne ls.defaultCell.breakerState
  rw [h.state, if_neg hne]
  show restoredBreakerState _ = restoredBreakerState (restoredBreakerState ls.defaultCell.breakerState)
  unfold restoredBreakerState at hne ⊢
  rw [if_neg hne]

/-- **A restored lane resumes every cell of the exported lane**, made or not. -/
theorem restore_resumes (ld : LaneData) (ls : LaneState) (pool : String) :
    Resumes (ls.cell pool) (((ofData ld).restore ls.exportHealth).cell pool) := by
  have hdefault : Resumes ls.defaultCell ((ofData ld).restore ls.exportHealth).defaultCell := ⟨rfl, rfl, rfl⟩
  by_cases hpool : pool = ""
  · subst hpool
    exact hdefault
  · unfold cell
    rw [cellAt_restore ld ls pool hpool]
    rcases ls.cellAt pool with _ | c
    · exact sibling_resumes hdefault
    · exact restoredCell_resumes c

/-- The budget of a restored lane lies between zero and the cap. -/
theorem restore_budget {ld : LaneData} (snap : LaneHealthSnapshot) (hcap : 0 ≤ ld.budget) :
    0 ≤ ((ofData ld).restore snap).budget ∧ ((ofData ld).restore snap).budget ≤ ld.budget := by
  have hbudget : ((ofData ld).restore snap).budget =
      if ld.limited = true ∧ 0 ≤ snap.budget then min snap.budget ld.budget else ld.budget := rfl
  rw [hbudget]
  split
  · rename_i h
    exact ⟨le_min h.2 hcap, min_le_right _ _⟩
  · exact ⟨hcap, le_rfl⟩

/-! ## The apply -/

/-- The exported snapshot of an identity is its lane's. -/
theorem find_exported {s : HealthState} (hid : (s.lanes.map identity).Nodup) (hls : ls ∈ s.lanes)
    {model provider : String} (hsame : ls.identity = (model, provider)) :
    s.exportHealth.find? (fun snap => snap.model = model ∧ snap.provider = provider) = some ls.exportHealth := by
  unfold HealthState.exportHealth
  rw [List.find?_map]
  have hfind : s.lanes.find? ((fun snap => decide (snap.model = model ∧ snap.provider = provider)) ∘
      LaneState.exportHealth) = some ls := by
    rcases hf : s.lanes.find? _ with _ | found
    · have := List.find?_eq_none.1 hf ls hls
      obtain ⟨hm, hp⟩ := Prod.mk.inj hsame
      simp [exportHealth, hm, hp] at this
    · have hfound : found.model = model ∧ found.provider = provider := by
        have hsome := List.find?_some hf
        exact of_decide_eq_true hsome
      have heq : found.identity = ls.identity := by
        rw [hsame, identity, hfound.1, hfound.2]
      rw [List.inj_on_of_nodup_map hid (List.mem_of_find?_eq_some hf) hls heq]
  rw [hfind]
  rfl

/-- The lane as the restored state has it. -/
theorem restored_get (old : HealthState) {lanes : List LaneData} (limits : HealthLimits) {i : Nat} {ld : LaneData}
    (hld : lanes[i]? = some ld) :
    (HealthState.newWithLimitsRestored lanes limits old.exportHealth).lanes[i]? =
      some (match old.exportHealth.find? (fun snap => snap.model = ld.model ∧ snap.provider = ld.provider) with
        | some snap => (ofData ld).restore snap
        | none => ofData ld) := by
  unfold HealthState.newWithLimitsRestored HealthState.restoreHealthImpl HealthState.newWithLimits
  rw [List.getElem?_map, List.getElem?_map, hld]
  rfl

/-- **Health survives a configuration apply.** -/
theorem health_survives_apply {old : HealthState} (hid : (old.lanes.map identity).Nodup) {lanes : List LaneData}
    (hcap : ∀ ld ∈ lanes, ld.limited = true → 0 ≤ ld.budget) (limits : HealthLimits) {i : Nat} {ld : LaneData}
    (hld : lanes[i]? = some ld) :
    ∃ ls', (HealthState.newWithLimitsRestored lanes limits old.exportHealth).lanes[i]? = some ls' ∧
      ls'.identity = (ld.model, ld.provider) ∧
      (∀ ls ∈ old.lanes, ls.identity = (ld.model, ld.provider) → ∀ pool now,
        breakerVerdict (ls'.cell pool) now = resumedVerdict (ls.cell pool) now) ∧
      (ls'.limited = true → 0 ≤ ls'.budget ∧ ls'.budget ≤ ld.budget) := by
  have hlimit : ld.limited = true → 0 ≤ ld.budget := hcap ld (List.mem_of_getElem? hld)
  refine ⟨_, restored_get old limits hld, ?_, ?_, ?_⟩
  · split <;> rfl
  · intro ls hls hsame pool now
    rw [find_exported hid hls hsame]
    exact (restore_resumes ld ls pool).verdict now
  · split
    · exact fun hl => restore_budget _ (hlimit hl)
    · exact fun hl => ⟨hlimit hl, le_rfl⟩

/-- A probe in flight on a lane with one request left. -/
def probing : HealthState where
  lanes := [{ ofData { HealthRun.plainLane with limited := true, budget := 1 } with
    defaultCell := { BreakerCell.new with breakerState := stHalfOpen, cooldownUntil := 50, probeInFlight := true } }]
  limits := ⟨1800, 100⟩

/-- The lane moves behind a new one and gets a higher cap. -/
def movedLanes : List LaneData :=
  [{ HealthRun.plainLane with model := "n" }, { HealthRun.plainLane with limited := true, budget := 5 }]

theorem health_survives_apply_probing :
    ∃ ls', (HealthState.newWithLimitsRestored movedLanes ⟨1800, 100⟩ probing.exportHealth).lanes[1]? = some ls' ∧
      breakerVerdict (ls'.cell "") 50 = .probeWinnable ∧ 0 ≤ ls'.budget ∧ ls'.budget ≤ 5 := by
  have hid : (probing.lanes.map identity).Nodup := by decide
  have hcap : ∀ ld ∈ movedLanes, ld.limited = true → 0 ≤ ld.budget := by decide
  have hld : movedLanes[1]? = some { HealthRun.plainLane with limited := true, budget := 5 } := rfl
  obtain ⟨ls', hls', -, hverdict, hbudget⟩ := health_survives_apply hid hcap ⟨1800, 100⟩ hld
  have hlimited : ls'.limited = true := by
    have : (HealthState.newWithLimitsRestored movedLanes ⟨1800, 100⟩ probing.exportHealth).lanes[1]?.map
        LaneState.limited = some true := rfl
    rw [hls'] at this
    exact Option.some.inj this
  exact ⟨ls', hls', hverdict _ List.mem_cons_self rfl "" 50, hbudget hlimited⟩

end Busbar
