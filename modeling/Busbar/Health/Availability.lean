import Busbar.Health.CarryOver
import Busbar.Health.Recovery
import Busbar.Health.Swrr

/-!
# The verdict without an admission

`classify` tells what an admission would answer and takes nothing; the lane's aggregate tells it of all the cells
requests are routed through.

* `classify_predicts`: a lane with room on its semaphore answers both the same.
* `tryAdmit_error`: a refused admission at most makes the pool's cell.
* `Best`: the verdict a lane's cells fold to, whatever their order.
* `availability`: in every store that configurations, operations and applies lead to.
-/

namespace Busbar

open LaneState

/-- What the configuration says of a model's lane. -/
structure ModelCfg where
  provider : String
  maxConcurrent : Option Nat
  maxRequests : Int

/-- The lane of a configured model; without a limit its semaphore has all permits there are. -/
def LaneData.ofModel (model : String) (mc : ModelCfg) : LaneData where
  model := model
  provider := mc.provider
  max := mc.maxConcurrent.getD maxPermits
  permits := mc.maxConcurrent.getD maxPermits
  limited := 0 ≤ mc.maxRequests
  budget := if 0 ≤ mc.maxRequests then mc.maxRequests else -1
  cooldownUntil := 0
  streak := 0
  dead := false
  deadReason := ""
  ok := 0
  err := 0
  clientFault := 0

namespace BreakerVerdict

def rank : BreakerVerdict → Nat
  | ready => 3
  | probeWinnable => 2
  | halfOpen => 1
  | opened _ => 0

/-- The more available of two verdicts, the sooner of two deadlines. -/
def better : BreakerVerdict → BreakerVerdict → BreakerVerdict
  | opened ua, opened ub => opened (min ua ub)
  | a, b => if rank a ≥ rank b then a else b

end BreakerVerdict

namespace LaneState

/-- The read-only verdict; like an admission it makes the pool's cell. -/
def classify (ls : LaneState) (pool : String) (now : Nat) : Except Unavailable Unit × LaneState :=
  if ls.dead then (.error .dead, ls)
  else if ls.limited ∧ ls.budget ≤ 0 then (.error .budgetExhausted, ls)
  else
    let c := ls.cell pool
    let ls := ls.touch pool
    match breakerVerdict c now with
    | .opened deadline => (.error (.breakerOpen deadline), ls)
    | .halfOpen => (.error .probeInFlight, ls)
    | .ready | .probeWinnable => if ls.permits = 0 then (.error (.atCapacity none), ls) else (.ok (), ls)

/-- One verdict for the lane: over its pool cells, or its default cell if it has none. -/
def laneBreakerVerdict (ls : LaneState) (now : Nat) : BreakerVerdict :=
  match ls.poolCells.rows.map (fun e => breakerVerdict e.2 now) with
  | [] => breakerVerdict ls.defaultCell now
  | v :: vs => vs.foldl BreakerVerdict.better v

def classifyLaneFromVerdict (ls : LaneState) (verdict : BreakerVerdict) : Except Unavailable Unit :=
  if ls.dead then .error .dead
  else if ls.limited ∧ ls.budget ≤ 0 then .error .budgetExhausted
  else
    match verdict with
    | .opened deadline => .error (.breakerOpen deadline)
    | .halfOpen => .error .probeInFlight
    | .ready | .probeWinnable => if ls.permits = 0 then .error (.atCapacity none) else .ok ()

def classifyLane (ls : LaneState) (now : Nat) : Except Unavailable Unit :=
  ls.classifyLaneFromVerdict (ls.laneBreakerVerdict now)

def laneUsableAnyCell (ls : LaneState) (now : Nat) : Bool :=
  if ls.laneAdmissible = false then false
  else
    match ls.poolCells.rows with
    | [] => cellReadyBreaker ls.defaultCell now
    | rows => rows.any fun e => cellReadyBreaker e.2 now

/-- The pools whose cells requests are routed through. -/
def routedPools (ls : LaneState) : List String :=
  match ls.poolCells.rows with
  | [] => [""]
  | rows => rows.map Prod.fst

end LaneState

/-- A verdict in which a full lane counts as available. -/
def upToPermits : Except Unavailable Unit → Except Unavailable Unit
  | .error (.atCapacity _) => .ok ()
  | r => r

/-- A lane without a limit always has permits left. -/
def LaneState.Roomy (ls : LaneState) : Prop := maxPermits ≤ ls.max → 0 < ls.permits

/-! ## One verdict, three gates -/

section Gates

variable {ls : LaneState} {pool : String} {now : Nat} {c : BreakerCell}

theorem admits_of_verdict (h : breakerVerdict c now = .ready ∨ breakerVerdict c now = .probeWinnable) :
    ∃ c', cellAcquireBreaker c now = (true, c') := by
  unfold breakerVerdict at h
  unfold cellAcquireBreaker
  by_cases hc : c.breakerState = stClosed
  · rw [if_pos hc] at h ⊢
    by_cases hn : now ≥ c.cooldownUntil
    · exact ⟨c, by rw [decide_eq_true hn]⟩
    · rw [if_neg hn] at h
      rcases h with h | h <;> cases h
  · rw [if_neg hc] at h ⊢
    by_cases ho : c.breakerState = stOpen
    · rw [if_pos ho] at h ⊢
      by_cases hn : now ≥ c.cooldownUntil
      · exact ⟨_, if_pos hn⟩
      · rw [if_neg hn] at h
        rcases h with h | h <;> cases h
    · rw [if_neg ho] at h
      split at h
      · rcases h with h | h <;> cases h
      · rcases h with h | h <;> cases h

@[simp] theorem permits_touch (ls : LaneState) (pool : String) : (ls.touch pool).permits = ls.permits := by
  unfold touch setCell
  split <;> rfl

@[simp] theorem max_touch (ls : LaneState) (pool : String) : (ls.touch pool).max = ls.max := by
  unfold touch setCell
  split <;> rfl

@[simp] theorem dead_touch (ls : LaneState) (pool : String) : (ls.touch pool).dead = ls.dead := by
  unfold touch setCell
  split <;> rfl

@[simp] theorem limited_touch (ls : LaneState) (pool : String) : (ls.touch pool).limited = ls.limited := by
  unfold touch setCell
  split <;> rfl

@[simp] theorem budget_touch (ls : LaneState) (pool : String) : (ls.touch pool).budget = ls.budget := by
  unfold touch setCell
  split <;> rfl

@[simp] theorem cell_touch (ls : LaneState) (pool : String) : (ls.touch pool).cell pool = ls.cell pool :=
  cell_of_cellAt (cellAt_touch_self ls pool)

/-- Resolving a cell twice is resolving it once. -/
@[simp] theorem touch_touch (ls : LaneState) (pool : String) : (ls.touch pool).touch pool = ls.touch pool := by
  unfold touch
  rw [cell_setCell_self]
  exact setCell_cell (by rw [cellAt_setCell, if_pos rfl])

/-- Resolving a pool's cell changes no cell. -/
theorem cell_touch_any (ls : LaneState) (pool q : String) : (ls.touch pool).cell q = ls.cell q := by
  by_cases hq : pool = q
  · rw [← hq, cell_touch]
  · unfold touch setCell
    by_cases hp : pool = ""
    · have hcell : ls.cell pool = ls.defaultCell := by
        unfold cell cellAt
        rw [if_pos hp, Option.getD_some]
      rw [if_pos hp, hcell]
    · rw [if_neg hp]
      unfold cell cellAt sibling
      dsimp only
      rw [Table.lookup_set, if_neg hq]

/-- A permit is refused exactly on a full lane. -/
theorem tryAcquire_none (h : ls.Roomy) : ls.tryAcquire = none ↔ ls.permits = 0 := by
  unfold tryAcquire
  by_cases hmax : ls.max ≥ maxPermits
  · have hpos := h hmax
    rw [if_pos hmax]
    constructor
    · intro hf
      cases hf
    · intro hf
      omega
  · rw [if_neg hmax]
    by_cases hp : 0 < ls.permits
    · rw [if_pos hp]
      constructor
      · intro hf
        cases hf
      · intro hf
        omega
    · rw [if_neg hp]
      exact ⟨fun _ => by omega, fun _ => rfl⟩

/-- **What an admission and the read-only verdict do**, by the verdict of the pool's cell. -/
theorem gates_spec (h : ls.Roomy) (pool : String) (now : Nat) :
    ((∃ e, ls.tryAdmit pool now = (.error e, ls) ∧ ls.classify pool now = (.error e, ls) ∧
        ls.tryAdmitBreaker pool now = (.error e, ls) ∧ upToPermits (.error e) = .error e) ∨
      (∃ e, ls.tryAdmit pool now = (.error e, ls.touch pool) ∧ ls.classify pool now = (.error e, ls.touch pool) ∧
        ls.tryAdmitBreaker pool now = (.error e, ls.touch pool) ∧ upToPermits (.error e) = .error e) ∨
      (ls.tryAdmit pool now = (.error (.atCapacity none), ls.touch pool) ∧
        ls.classify pool now = (.error (.atCapacity none), ls.touch pool) ∧
        ∃ epoch, (ls.tryAdmitBreaker pool now).1 = .ok epoch) ∨
      (∃ a, (ls.tryAdmit pool now).1 = .ok a ∧ ls.classify pool now = (.ok (), ls.touch pool) ∧
        ∃ epoch, (ls.tryAdmitBreaker pool now).1 = .ok epoch)) := by
  unfold LaneState.tryAdmit LaneState.classify LaneState.tryAdmitBreaker
  by_cases hd : ls.dead = true
  · exact Or.inl ⟨.dead, if_pos hd, if_pos hd, if_pos hd, rfl⟩
  rw [if_neg hd, if_neg hd, if_neg hd]
  by_cases hb : ls.limited = true ∧ ls.budget ≤ 0
  · exact Or.inl ⟨.budgetExhausted, if_pos hb, if_pos hb, if_pos hb, rfl⟩
  rw [if_neg hb, if_neg hb, if_neg hb]
  dsimp only
  have hroom : (ls.touch pool).Roomy := by
    unfold Roomy
    rw [max_touch, permits_touch]
    exact h
  have hpass : ∀ v, breakerVerdict (ls.cell pool) now = v → (v = .ready ∨ v = .probeWinnable) →
      ∃ c', cellAcquireBreaker (ls.cell pool) now = (true, c') := fun v hv hadmits => admits_of_verdict (hv ▸ hadmits)
  cases hv : breakerVerdict (ls.cell pool) now with
  | opened deadline => exact Or.inr (Or.inl ⟨_, rfl, rfl, rfl, rfl⟩)
  | halfOpen => exact Or.inr (Or.inl ⟨_, rfl, rfl, rfl, rfl⟩)
  | ready | probeWinnable =>
    obtain ⟨c', hc'⟩ := hpass _ hv (by simp)
    have hfull := tryAcquire_none hroom
    dsimp only
    rw [hc']
    cases hacq : (ls.touch pool).tryAcquire with
    | none =>
      rw [if_pos (hfull.1 hacq)]
      exact Or.inr (Or.inr (Or.inl ⟨rfl, rfl, _, rfl⟩))
    | some r =>
      have hfree : ¬ (ls.touch pool).permits = 0 := by
        intro hz
        rw [hfull.2 hz] at hacq
        cases hacq
      rw [if_neg hfree]
      exact Or.inr (Or.inr (Or.inr ⟨_, rfl, rfl, _, rfl⟩))

/-- The verdict run first takes nothing from the admission. -/
theorem classify_tryAdmit (ls : LaneState) (pool : String) (now : Nat) :
    (ls.classify pool now).2.tryAdmit pool now = ls.tryAdmit pool now := by
  by_cases hd : ls.dead = true
  · unfold classify
    rw [if_pos hd]
  by_cases hb : ls.limited = true ∧ ls.budget ≤ 0
  · unfold classify
    rw [if_neg hd, if_pos hb]
  have hstate : (ls.classify pool now).2 = ls.touch pool := by
    unfold classify
    rw [if_neg hd, if_neg hb]
    dsimp only
    cases breakerVerdict (ls.cell pool) now with
    | opened deadline => rfl
    | halfOpen => rfl
    | ready | probeWinnable =>
      dsimp only
      split <;> rfl
  rw [hstate]
  unfold LaneState.tryAdmit
  rw [dead_touch, limited_touch, budget_touch, cell_touch, touch_touch, if_neg hd, if_neg hb, if_neg hd, if_neg hb]

end Gates

/-! ## The fold of the verdicts -/

namespace BreakerVerdict

/-- When the lane could next serve; only an open verdict is told from others of its rank by it. -/
def deadline : BreakerVerdict → Nat
  | opened d => d
  | _ => 0

theorem eq_of_rank {a b : BreakerVerdict} (hr : a.rank = b.rank) (hd : a.deadline = b.deadline) : a = b := by
  cases a <;> cases b <;> simp_all [rank, deadline]

/-- The first verdict stays when the two are compared. -/
def Beats (a b : BreakerVerdict) : Prop := better a b = a

theorem beats_iff {a b : BreakerVerdict} :
    Beats a b ↔ b.rank < a.rank ∨ a.rank = b.rank ∧ a.deadline ≤ b.deadline := by
  unfold Beats
  cases a <;> cases b <;> simp [better, rank, deadline]

theorem Beats.refl (a : BreakerVerdict) : Beats a a := beats_iff.2 (Or.inr ⟨rfl, Nat.le_refl _⟩)

theorem Beats.trans {a b c : BreakerVerdict} (h : Beats a b) (h' : Beats b c) : Beats a c := by
  rw [beats_iff] at h h' ⊢
  omega

theorem Beats.antisymm {a b : BreakerVerdict} (h : Beats a b) (h' : Beats b a) : a = b := by
  rw [beats_iff] at h h'
  exact eq_of_rank (by omega) (by omega)

/-- A comparison keeps one of the two, and what it keeps beats both. -/
theorem better_spec (a b : BreakerVerdict) :
    (better a b = a ∨ better a b = b) ∧ Beats (better a b) a ∧ Beats (better a b) b := by
  have hcases : better a b = a ∧ Beats a b ∨ better a b = b ∧ Beats b a := by
    simp only [beats_iff]
    cases a <;> cases b <;> simp [better, rank, deadline]
    exact le_total _ _
  rcases hcases with ⟨heq, hb⟩ | ⟨heq, hb⟩
  · rw [heq]
    exact ⟨Or.inl rfl, Beats.refl a, hb⟩
  · rw [heq]
    exact ⟨Or.inr rfl, hb, Beats.refl b⟩

/-- One of the verdicts, that beats them all. -/
def Best (vs : List BreakerVerdict) (r : BreakerVerdict) : Prop := r ∈ vs ∧ ∀ v ∈ vs, Beats r v

/-- **The fold keeps the best.** -/
theorem best_foldl (v : BreakerVerdict) (vs : List BreakerVerdict) : Best (v :: vs) (vs.foldl better v) := by
  induction vs generalizing v with
  | nil => exact ⟨List.mem_singleton_self v, fun w hw => List.mem_singleton.1 hw ▸ Beats.refl v⟩
  | cons w vs ih =>
    obtain ⟨hmem, hall⟩ := ih (better v w)
    obtain ⟨hkeeps, hv, hw⟩ := better_spec v w
    have hhead := hall _ List.mem_cons_self
    rw [List.foldl_cons]
    refine ⟨?_, ?_⟩
    · rcases List.mem_cons.1 hmem with heq | hin
      · rw [heq]
        rcases hkeeps with hk | hk
        · rw [hk]
          exact List.mem_cons_self
        · rw [hk]
          exact List.mem_cons_of_mem _ List.mem_cons_self
      · exact List.mem_cons_of_mem _ (List.mem_cons_of_mem _ hin)
    · intro u hu
      rcases List.mem_cons.1 hu with rfl | hu
      · exact hhead.trans hv
      · rcases List.mem_cons.1 hu with rfl | hu
        · exact hhead.trans hw
        · exact hall u (List.mem_cons_of_mem _ hu)

/-- The best does not depend on the order. -/
theorem Best.unique {vs vs' : List BreakerVerdict} {r r' : BreakerVerdict} (h : Best vs r) (h' : Best vs' r')
    (hmem : ∀ v, v ∈ vs ↔ v ∈ vs') : r = r' :=
  (h.2 r' ((hmem r').2 h'.1)).antisymm (h'.2 r ((hmem r).1 h.1))

/-- The verdict lets a request through, room on the lane apart. -/
def Admits (v : BreakerVerdict) : Prop := v = ready ∨ v = probeWinnable

theorem admits_iff {v : BreakerVerdict} : v.Admits ↔ 2 ≤ v.rank := by
  unfold Admits
  cases v <;> simp [rank]

theorem Best.admits {vs : List BreakerVerdict} {r : BreakerVerdict} (h : Best vs r) :
    r.Admits ↔ ∃ v ∈ vs, v.Admits := by
  constructor
  · exact fun hr => ⟨r, h.1, hr⟩
  · rintro ⟨v, hv, hadmits⟩
    have hbeats := beats_iff.1 (h.2 v hv)
    rw [admits_iff] at hadmits ⊢
    omega

end BreakerVerdict

open BreakerVerdict

theorem cellReadyBreaker_iff {c : BreakerCell} {now : Nat} :
    cellReadyBreaker c now = true ↔ (breakerVerdict c now).Admits := by
  unfold cellReadyBreaker Admits
  cases breakerVerdict c now <;> simp

/-! ## The aggregate of a lane -/

section Aggregate

variable {ls : LaneState} {pool : String} {now : Nat}

/-- The cells requests are routed through. -/
def LaneState.routedCells (ls : LaneState) : List BreakerCell :=
  match ls.poolCells.rows with
  | [] => [ls.defaultCell]
  | rows => rows.map Prod.snd

theorem routedCells_eq (h : ls.Named) : ls.routedPools.map ls.cell = ls.routedCells := by
  have hrow : ∀ e ∈ ls.poolCells.rows, ls.cell e.1 = e.2 := by
    intro e he
    apply cell_of_cellAt
    unfold cellAt
    rw [if_neg (h e he)]
    exact Table.lookup_eq_some.2 he
  unfold routedPools routedCells
  cases hrows : ls.poolCells.rows with
  | nil => rfl
  | cons e es =>
    rw [hrows] at hrow
    dsimp only
    rw [List.map_map]
    exact List.map_congr_left hrow

/-- The lane's verdict is the best of its routed cells'. -/
theorem laneBreakerVerdict_best (ls : LaneState) (now : Nat) :
    Best (ls.routedCells.map fun c => breakerVerdict c now) (ls.laneBreakerVerdict now) := by
  unfold laneBreakerVerdict routedCells
  cases hrows : ls.poolCells.rows with
  | nil => exact best_foldl _ []
  | cons e es =>
    have hbest := best_foldl (breakerVerdict e.2 now) (es.map fun e => breakerVerdict e.2 now)
    simpa [Function.comp_def] using hbest

theorem mem_verdicts {v : BreakerVerdict} :
    v ∈ (ls.routedCells.map fun c => breakerVerdict c now) ↔ ∃ c ∈ ls.routedCells, breakerVerdict c now = v :=
  List.mem_map

/-- **A lane is usable** when its gates are open and some routed cell admits. -/
theorem laneUsableAnyCell_iff :
    ls.laneUsableAnyCell now = true ↔
      ls.laneAdmissible = true ∧ ∃ c ∈ ls.routedCells, (breakerVerdict c now).Admits := by
  unfold laneUsableAnyCell routedCells
  by_cases hadm : ls.laneAdmissible = true
  · rw [if_neg (by rw [hadm]; exact Bool.noConfusion)]
    cases hrows : ls.poolCells.rows with
    | nil => simp [hadm, cellReadyBreaker_iff]
    | cons e es =>
      dsimp only
      rw [List.any_eq_true]
      constructor
      · rintro ⟨e', he', hready⟩
        exact ⟨hadm, e'.2, List.mem_map_of_mem he', cellReadyBreaker_iff.1 hready⟩
      · rintro ⟨-, c, hc, hadmits⟩
        obtain ⟨e', he', rfl⟩ := List.mem_map.1 hc
        exact ⟨e', he', cellReadyBreaker_iff.2 hadmits⟩
  · rw [Bool.not_eq_true] at hadm
    simp [hadm]

theorem laneAdmissible_iff : ls.laneAdmissible = true ↔ ls.dead = false ∧ ¬ (ls.limited = true ∧ ls.budget ≤ 0) := by
  unfold laneAdmissible
  cases ls.limited <;> simp

/-- A pool's verdict, up to permits: the gates and the cell. -/
theorem classify_upToPermits :
    upToPermits (ls.classify pool now).1 = .ok () ↔
      ls.laneAdmissible = true ∧ (breakerVerdict (ls.cell pool) now).Admits := by
  rw [laneAdmissible_iff]
  unfold classify Admits
  by_cases hd : ls.dead = true
  · rw [if_pos hd]
    simp [upToPermits, hd]
  rw [if_neg hd]
  rw [Bool.not_eq_true] at hd
  by_cases hb : ls.limited = true ∧ ls.budget ≤ 0
  · rw [if_pos hb]
    simp [upToPermits, hb]
  rw [if_neg hb]
  dsimp only
  cases breakerVerdict (ls.cell pool) now with
  | opened deadline => simp [upToPermits]
  | halfOpen => simp [upToPermits]
  | ready | probeWinnable =>
    dsimp only
    split <;> simp [upToPermits, hd, hb]

theorem classifyLane_upToPermits :
    upToPermits (ls.classifyLane now) = .ok () ↔
      ls.laneAdmissible = true ∧ (ls.laneBreakerVerdict now).Admits := by
  rw [laneAdmissible_iff]
  unfold classifyLane classifyLaneFromVerdict Admits
  by_cases hd : ls.dead = true
  · rw [if_pos hd]
    simp [upToPermits, hd]
  rw [if_neg hd]
  rw [Bool.not_eq_true] at hd
  by_cases hb : ls.limited = true ∧ ls.budget ≤ 0
  · rw [if_pos hb]
    simp [upToPermits, hb]
  rw [if_neg hb]
  cases ls.laneBreakerVerdict now with
  | opened deadline => simp [upToPermits]
  | halfOpen => simp [upToPermits]
  | ready | probeWinnable =>
    dsimp only
    split <;> simp [upToPermits, hd, hb]

/-- **The aggregate agrees with the pools' own verdicts.** -/
theorem aggregate_agrees (h : ls.Named) :
    (ls.laneUsableAnyCell now = true ↔ ∃ pool ∈ ls.routedPools, upToPermits (ls.classify pool now).1 = .ok ()) ∧
      (upToPermits (ls.classifyLane now) = .ok () ↔ ls.laneUsableAnyCell now = true) := by
  refine ⟨?_, ?_⟩
  · rw [laneUsableAnyCell_iff, ← routedCells_eq h]
    simp only [classify_upToPermits, List.mem_map]
    constructor
    · rintro ⟨hadm, c, ⟨pool, hpool, rfl⟩, hc⟩
      exact ⟨pool, hpool, hadm, hc⟩
    · rintro ⟨pool, hpool, hadm, hc⟩
      exact ⟨hadm, _, ⟨pool, hpool, rfl⟩, hc⟩
  · rw [classifyLane_upToPermits, laneUsableAnyCell_iff, (laneBreakerVerdict_best ls now).admits]
    constructor
    · rintro ⟨hadm, v, hv, hadmits⟩
      obtain ⟨c, hc, rfl⟩ := mem_verdicts.1 hv
      exact ⟨hadm, c, hc, hadmits⟩
    · rintro ⟨hadm, c, hc, hadmits⟩
      exact ⟨hadm, _, mem_verdicts.2 ⟨c, hc, rfl⟩, hadmits⟩

/-- The cells of a lane in another order. -/
theorem mem_routedCells_perm {cells : Table String BreakerCell} (h : cells.rows.Perm ls.poolCells.rows)
    (c : BreakerCell) : c ∈ ({ ls with poolCells := cells } : LaneState).routedCells ↔ c ∈ ls.routedCells := by
  unfold routedCells
  dsimp only
  cases hrows : ls.poolCells.rows with
  | nil =>
    rw [hrows] at h
    rw [h.eq_nil]
  | cons e es =>
    rw [hrows] at h
    cases hcells : cells.rows with
    | nil =>
      rw [hcells] at h
      exact absurd h.symm.eq_nil (List.cons_ne_nil e es)
    | cons e' es' =>
      rw [hcells] at h
      exact (h.map Prod.snd).mem_iff

/-- **The order of the cells does not matter** to the aggregate. -/
theorem aggregate_perm {cells : Table String BreakerCell} (h : cells.rows.Perm ls.poolCells.rows) (now : Nat) :
    ({ ls with poolCells := cells } : LaneState).laneUsableAnyCell now = ls.laneUsableAnyCell now ∧
      ({ ls with poolCells := cells } : LaneState).laneBreakerVerdict now = ls.laneBreakerVerdict now ∧
      ({ ls with poolCells := cells } : LaneState).classifyLane now = ls.classifyLane now := by
  have hmem := mem_routedCells_perm h
  have hverdict : ({ ls with poolCells := cells } : LaneState).laneBreakerVerdict now = ls.laneBreakerVerdict now := by
    refine (laneBreakerVerdict_best _ now).unique (laneBreakerVerdict_best ls now) fun v => ?_
    rw [mem_verdicts, mem_verdicts]
    constructor
    · rintro ⟨c, hc, hv⟩
      exact ⟨c, (hmem c).1 hc, hv⟩
    · rintro ⟨c, hc, hv⟩
      exact ⟨c, (hmem c).2 hc, hv⟩
  refine ⟨?_, hverdict, ?_⟩
  · rw [Bool.eq_iff_iff, laneUsableAnyCell_iff, laneUsableAnyCell_iff]
    have hadm : ({ ls with poolCells := cells } : LaneState).laneAdmissible = ls.laneAdmissible := rfl
    rw [hadm]
    constructor
    · rintro ⟨ha, c, hc, hv⟩
      exact ⟨ha, c, (hmem c).1 hc, hv⟩
    · rintro ⟨ha, c, hc, hv⟩
      exact ⟨ha, c, (hmem c).2 hc, hv⟩
  · unfold classifyLane
    rw [hverdict]
    rfl

end Aggregate

/-! ## The stores there are -/

/-- The stores of a running program: made from a configuration, moved by the operations, and made anew by an apply from
another configuration and the health exported before. -/
inductive HealthState.Reachable : HealthState → Prop
  | boot (models : List (String × ModelCfg)) (limits : HealthLimits) :
      Reachable (newWithLimits (models.map fun m => LaneData.ofModel m.1 m.2) limits)
  | run {s : HealthState} (h : Reachable s) (op : PoolOp) : Reachable (op.run s)
  | apply {old : HealthState} (h : Reachable old) (models : List (String × ModelCfg)) (limits : HealthLimits) :
      Reachable (newWithLimitsRestored (models.map fun m => LaneData.ofModel m.1 m.2) limits old.exportHealth)

/-- A lane without a limit keeps its room, and no pool is nameless. -/
structure LaneState.Sound (ls : LaneState) : Prop where
  roomy : ls.Roomy
  named : ls.Named

section Sound

variable {ls ls' : LaneState} {pool : String}

/-- A step that takes no permit from a lane without a limit, and makes no nameless pool. -/
structure LaneState.Keeps (ls ls' : LaneState) : Prop where
  max : ls'.max = ls.max
  permits : maxPermits ≤ ls.max → ls.permits ≤ ls'.permits
  named : ls.Named → ls'.Named

theorem LaneState.Keeps.refl (ls : LaneState) : Keeps ls ls := ⟨rfl, fun _ => Nat.le_refl _, fun h => h⟩

theorem LaneState.Keeps.trans {a b c : LaneState} (h : Keeps a b) (h' : Keeps b c) : Keeps a c := by
  refine ⟨h'.max.trans h.max, fun hm => ?_, fun hn => h'.named (h.named hn)⟩
  have hb := h.permits hm
  have hc := h'.permits (by rw [h.max]; exact hm)
  omega

theorem LaneState.Sound.keep (h : ls.Sound) (hk : Keeps ls ls') : ls'.Sound := by
  refine ⟨fun hm => ?_, hk.named h.named⟩
  rw [hk.max] at hm
  have hroom := h.roomy hm
  have hle := hk.permits hm
  omega

/-- A step that leaves the semaphore and the pools' cells alone. -/
theorem keeps_of_eq (hmax : ls'.max = ls.max) (hpermits : ls'.permits = ls.permits)
    (hcells : ls'.poolCells = ls.poolCells) : Keeps ls ls' := by
  refine ⟨hmax, fun _ => hpermits.ge, fun hn => ?_⟩
  unfold Named
  rw [hcells]
  exact hn

theorem keeps_setCell (ls : LaneState) (pool : String) (c : BreakerCell) : Keeps ls (ls.setCell pool c) := by
  have hsem : (ls.setCell pool c).max = ls.max ∧ (ls.setCell pool c).permits = ls.permits := by
    unfold setCell
    split <;> exact ⟨rfl, rfl⟩
  exact ⟨hsem.1, fun _ => hsem.2.ge, fun hn => hn.setCell pool c⟩

theorem keeps_mapCells (ls : LaneState) (f : String → BreakerCell → BreakerCell) : Keeps ls (ls.mapCells f) := by
  refine ⟨rfl, fun _ => Nat.le_refl _, fun hn e he => ?_⟩
  obtain ⟨e', he', rfl⟩ := List.mem_map.1 he
  exact hn e' he'

theorem keeps_countTrip (ls : LaneState) (tripped : Bool) (now : Nat) : Keeps ls (ls.countTrip tripped now) := by
  unfold countTrip
  split
  · exact keeps_of_eq rfl rfl rfl
  · exact Keeps.refl ls

theorem keeps_countErr (ls : LaneState) (pool : String) : Keeps ls (ls.countErr pool) := by
  unfold countErr
  split
  · exact Keeps.refl ls
  · exact keeps_of_eq rfl rfl rfl

theorem keeps_tryAcquire {permit : Permit} (h : ls.tryAcquire = some (permit, ls')) : Keeps ls ls' := by
  unfold tryAcquire at h
  split at h
  · cases h
    exact Keeps.refl ls
  · rename_i hmax
    split at h
    · cases h
      exact ⟨rfl, fun hm => absurd hm hmax, fun hn => hn⟩
    · cases h

theorem keeps_dropPermit (ls : LaneState) (permit : Permit) : Keeps ls (ls.dropPermit permit) := by
  cases permit with
  | bounded => exact ⟨rfl, fun _ => Nat.le_succ _, fun hn => hn⟩
  | unbounded => exact Keeps.refl ls

theorem keeps_tryAdmit (ls : LaneState) (pool : String) (now : Nat) : Keeps ls (ls.tryAdmit pool now).2 := by
  have htouch : Keeps ls (ls.touch pool) := keeps_setCell ls pool _
  unfold LaneState.tryAdmit
  split
  · exact Keeps.refl ls
  split
  · exact Keeps.refl ls
  dsimp only
  split
  · exact htouch
  · exact htouch
  all_goals
    split
    · exact htouch
    · rename_i permit ls₁ hacq
      have hlane := htouch.trans (keeps_tryAcquire hacq)
      split
      · exact hlane.trans (keeps_dropPermit ls₁ permit)
      · exact hlane.trans (keeps_setCell ls₁ pool _)

theorem keeps_tryAdmitBreaker (ls : LaneState) (pool : String) (now : Nat) :
    Keeps ls (ls.tryAdmitBreaker pool now).2 := by
  have htouch : Keeps ls (ls.touch pool) := keeps_setCell ls pool _
  unfold LaneState.tryAdmitBreaker
  split
  · exact Keeps.refl ls
  split
  · exact Keeps.refl ls
  dsimp only
  split
  · exact htouch
  · exact htouch
  all_goals
    split
    · exact htouch
    · exact htouch.trans (keeps_setCell _ pool _)

/-- **What any operation keeps.** -/
theorem keeps_step (lim : HealthLimits) (ls : LaneState) (op : LaneOp) : Keeps ls (ls.step lim op).1 := by
  cases op with
  | cell pool => exact keeps_setCell ls pool _
  | tryAdmit pool now =>
    have hkeeps := keeps_tryAdmit ls pool now
    unfold LaneState.step
    dsimp only
    split <;> simp_all
  | tryAdmitBreaker pool now =>
    have hkeeps := keeps_tryAdmitBreaker ls pool now
    unfold LaneState.step
    dsimp only
    split <;> simp_all
  | recordFailure pool now cfg retryAfter seed =>
    show Keeps ls (ls.recordFailureFor lim pool now cfg retryAfter seed)
    unfold recordFailureFor
    split
    · exact Keeps.refl ls
    · exact ((keeps_setCell ls pool _).trans (keeps_countErr _ pool)).trans (keeps_countTrip _ _ now)
  | recordSuccess pool now =>
    show Keeps ls (ls.recordSuccessFor pool now)
    unfold recordSuccessFor
    split
    · exact keeps_of_eq rfl rfl rfl
    · exact (keeps_setCell ls pool _).trans (keeps_of_eq rfl rfl rfl)
  | recordHardDownAllCells reason now =>
    have hreason : Keeps ls { ls with deadReason := reason } := keeps_of_eq rfl rfl rfl
    exact (hreason.trans (keeps_mapCells _ _)).trans (keeps_countTrip _ _ now)
  | recordProbeSuccessAllCells now =>
    show Keeps ls (ls.recordProbeSuccessAllCells now)
    unfold recordProbeSuccessAllCells
    split
    · exact keeps_of_eq rfl rfl rfl
    · exact (keeps_mapCells ls fun _ c => resetIfClosed (cellRecordSuccess c now)).trans (keeps_of_eq rfl rfl rfl)
  | recordProbeFailureAllCells now resolveCfg retryAfter seed =>
    show Keeps ls (ls.recordProbeFailureAllCells lim now resolveCfg retryAfter seed)
    unfold recordProbeFailureAllCells
    split
    · exact Keeps.refl ls
    · exact keeps_mapCells ls _
  | recoverLane now => exact keeps_mapCells ls fun _ c => resetIfClosed (recoverClose c now)
  | releaseProbeOwnedIn pool ownedEpoch => exact keeps_setCell ls pool _
  | dropGuard guard =>
    unfold LaneState.step
    dsimp only
    split
    · exact keeps_setCell ls guard.pool _
    · exact Keeps.refl ls
  | releaseProbeIn pool => exact keeps_setCell ls pool _
  | dropPermit permit => exact keeps_dropPermit ls permit
  | spendBudget =>
    show Keeps ls ls.spendBudget.2
    unfold spendBudget
    split
    · split
      · exact Keeps.refl ls
      · exact keeps_of_eq rfl rfl rfl
    · exact Keeps.refl ls
  | refundBudget =>
    show Keeps ls ls.refundBudget
    unfold refundBudget
    split
    · exact keeps_of_eq rfl rfl rfl
    · exact Keeps.refl ls

/-! ## Every lane of every store -/

/-- Each lane of the second store is kept from the first one's. -/
def HealthState.Keeps (s s' : HealthState) : Prop :=
  ∀ (i : Nat) (ls' : LaneState), s'.lanes[i]? = some ls' →
    ∃ ls : LaneState, s.lanes[i]? = some ls ∧ LaneState.Keeps ls ls'

theorem HealthState.Keeps.refl (s : HealthState) : s.Keeps s := fun _ ls' h => ⟨ls', h, LaneState.Keeps.refl ls'⟩

theorem HealthState.Keeps.trans {s s' s'' : HealthState} (h : s.Keeps s') (h' : s'.Keeps s'') : s.Keeps s'' := by
  intro i ls'' hls''
  obtain ⟨ls', hls', hk'⟩ := h' i ls'' hls''
  obtain ⟨ls, hls, hk⟩ := h i ls' hls'
  exact ⟨ls, hls, hk.trans hk'⟩

theorem keeps_onLane (s : HealthState) (lane : Nat) {f : LaneState → LaneState} (hf : ∀ ls, LaneState.Keeps ls (f ls)) :
    s.Keeps (s.onLane lane f) := by
  intro i ls' hls'
  unfold HealthState.onLane at hls'
  cases hlane : s.lanes[lane]? with
  | none =>
    rw [hlane] at hls'
    exact ⟨ls', hls', LaneState.Keeps.refl ls'⟩
  | some ls =>
    rw [hlane] at hls'
    dsimp only at hls'
    rw [List.getElem?_set] at hls'
    by_cases hi : lane = i
    · subst hi
      rw [if_pos rfl, if_pos (List.getElem?_eq_some_iff.1 hlane).1] at hls'
      cases hls'
      exact ⟨ls, hlane, hf ls⟩
    · rw [if_neg hi] at hls'
      exact ⟨ls', hls', LaneState.Keeps.refl ls'⟩

theorem keeps_healthyMembers (pool : String) (now : Nat) (members : List (Nat × Nat)) (s : HealthState) :
    s.Keeps (HealthState.healthyMembers pool now members s).2 := by
  induction members generalizing s with
  | nil => exact HealthState.Keeps.refl s
  | cons m members ih =>
    obtain ⟨candidate, weight⟩ := m
    unfold HealthState.healthyMembers
    split
    · exact ih s
    · split
      · exact HealthState.Keeps.refl s
      · have htouch := (keeps_onLane s candidate fun ls => keeps_setCell ls pool (ls.cell pool)).trans
          (ih (s.onLane candidate fun ls => ls.touch pool))
        split
        · dsimp only
          split
          · exact htouch
          · exact htouch
        · exact ih s

theorem keeps_addAll (pool : String) (healthy : List (Nat × Nat)) (s : HealthState) :
    s.Keeps (s.addAll pool healthy) := by
  unfold HealthState.addAll
  induction healthy generalizing s with
  | nil => exact HealthState.Keeps.refl s
  | cons m healthy ih =>
    rw [List.foldl_cons]
    exact (keeps_onLane s m.1 fun ls => keeps_setCell ls pool _).trans (ih _)

theorem keeps_select (s : HealthState) (pool : String) (candidates weights : List Nat) (now : Nat) :
    s.Keeps (s.selectWeightedFor pool candidates weights now).2 := by
  have hmembers := keeps_healthyMembers pool now (candidates.zip weights) s
  unfold HealthState.selectWeightedFor
  split
  · rename_i s₁ heq
    rw [heq] at hmembers
    exact hmembers
  · rename_i s₁ heq
    rw [heq] at hmembers
    exact hmembers
  · rename_i healthy s₁ hne heq
    rw [heq] at hmembers
    have hadded := hmembers.trans (keeps_addAll pool healthy s₁)
    dsimp only
    split
    · exact hadded
    · exact hadded.trans (keeps_onLane _ _ fun ls => keeps_setCell ls pool _)

theorem keeps_run (s : HealthState) (op : PoolOp) : s.Keeps (op.run s) := by
  cases op with
  | lane i op => exact keeps_onLane s i fun ls => keeps_step s.limits ls op
  | selectWeightedFor pool candidates weights now => exact keeps_select s pool candidates weights now

theorem sound_ofModel (model : String) (mc : ModelCfg) : (LaneState.ofData (LaneData.ofModel model mc)).Sound := by
  refine ⟨fun hm => ?_, fun e he => by cases he⟩
  have hsize : 0 < maxPermits := by decide
  exact lt_of_lt_of_le hsize hm

/-- A lane that takes over an exported lane's health: its pools have the exported names. -/
theorem sound_restore {old ls : LaneState} (h : ls.Sound) (ho : old.Named) : (ls.restore old.exportHealth).Sound := by
  refine ⟨h.roomy, ?_⟩
  have hfold : ∀ (cells : List PoolCellHealthSnapshot) (T : Table String BreakerCell), (∀ cs ∈ cells, cs.pool ≠ "") →
      (∀ e ∈ T.rows, e.1 ≠ "") → ∀ e ∈ (cells.foldl restoreCell T).rows, e.1 ≠ "" := by
    intro cells
    induction cells with
    | nil => exact fun T _ hT => hT
    | cons cs cells ih =>
      intro T hcells hT
      refine ih _ (fun cs' hcs' => hcells cs' (List.mem_cons_of_mem _ hcs')) fun e he => ?_
      rcases Table.mem_rows_set.1 he with rfl | ⟨hold, -⟩
      · exact hcells cs List.mem_cons_self
      · exact hT e hold
  refine hfold _ _ (fun cs hcs => ?_) h.named
  obtain ⟨e, he, rfl⟩ := List.mem_map.1 hcs
  exact ho e he

/-- **Every lane of a running program's store is sound.** -/
theorem reachable_sound {s : HealthState} (h : s.Reachable) : ∀ ls ∈ s.lanes, ls.Sound := by
  induction h with
  | boot models limits =>
    intro ls hls
    simp only [HealthState.newWithLimits, List.map_map, List.mem_map] at hls
    obtain ⟨m, -, rfl⟩ := hls
    exact sound_ofModel m.1 m.2
  | @run s _ op ih =>
    intro ls' hls'
    obtain ⟨i, hi⟩ := List.mem_iff_getElem?.1 hls'
    obtain ⟨ls, hls, hk⟩ := keeps_run s op i ls' hi
    exact (ih ls (List.mem_of_getElem? hls)).keep hk
  | @apply old _ models limits ih =>
    intro ls hls
    simp only [HealthState.newWithLimitsRestored, HealthState.newWithLimits, HealthState.restoreHealthImpl,
      List.map_map, List.mem_map] at hls
    obtain ⟨m, -, rfl⟩ := hls
    dsimp only [Function.comp_apply]
    cases hfind : old.exportHealth.find? fun snap =>
        snap.model = (LaneState.ofData (LaneData.ofModel m.1 m.2)).model ∧
          snap.provider = (LaneState.ofData (LaneData.ofModel m.1 m.2)).provider with
    | none => exact sound_ofModel m.1 m.2
    | some snap =>
      obtain ⟨lo, hlo, rfl⟩ := List.mem_map.1 (List.mem_of_find?_eq_some hfind)
      exact sound_restore (sound_ofModel m.1 m.2) (ih lo hlo).named

end Sound

/-- **The verdict predicts the admission** in every store of a running program: run before an admission it answers what
the admission answers and changes nothing for it; a refused admission changes no cell and no permit; and the lane's
aggregate says usable exactly when some routed pool's verdict does, room apart, in whatever order the cells stand. -/
theorem availability {s : HealthState} (h : s.Reachable) {lane : Nat} {ls : LaneState} (hls : s.lanes[lane]? = some ls)
    (pool : String) (now : Nat) :
    (ls.classify pool now).1 = (ls.tryAdmit pool now).1.map (fun _ => ()) ∧
      (ls.classify pool now).2.tryAdmit pool now = ls.tryAdmit pool now ∧
      upToPermits (ls.classify pool now).1 = (ls.tryAdmitBreaker pool now).1.map (fun _ => ()) ∧
      (∀ e, (ls.tryAdmit pool now).1 = .error e →
        ((ls.tryAdmit pool now).2 = ls ∨ (ls.tryAdmit pool now).2 = ls.touch pool) ∧
        (ls.tryAdmit pool now).2.permits = ls.permits ∧ (∀ q, (ls.tryAdmit pool now).2.cell q = ls.cell q) ∧
        ∀ q c, ls.cellAt q = some c → (ls.tryAdmit pool now).2.cellAt q = some c) ∧
      (ls.laneUsableAnyCell now = true ↔
        ∃ p ∈ ls.routedPools, upToPermits (ls.classify p now).1 = .ok ()) ∧
      (upToPermits (ls.classifyLane now) = .ok () ↔ ls.laneUsableAnyCell now = true) ∧
      ∀ cells : Table String BreakerCell, cells.rows.Perm ls.poolCells.rows →
        ({ ls with poolCells := cells } : LaneState).laneUsableAnyCell now = ls.laneUsableAnyCell now ∧
        ({ ls with poolCells := cells } : LaneState).laneBreakerVerdict now = ls.laneBreakerVerdict now ∧
        ({ ls with poolCells := cells } : LaneState).classifyLane now = ls.classifyLane now := by
  have hsound := reachable_sound h ls (List.mem_of_getElem? hls)
  have hgates := gates_spec hsound.roomy pool now
  refine ⟨?_, ?_, ?_, ?_, (aggregate_agrees hsound.named).1, (aggregate_agrees hsound.named).2,
    fun cells hperm => aggregate_perm hperm now⟩
  · rcases hgates with ⟨e, ha, hc, -, -⟩ | ⟨e, ha, hc, -, -⟩ | ⟨ha, hc, -⟩ | ⟨a, ha, hc, -⟩
    · rw [ha, hc]
      rfl
    · rw [ha, hc]
      rfl
    · rw [ha, hc]
      rfl
    · rw [ha, hc]
      rfl
  · exact classify_tryAdmit ls pool now
  · rcases hgates with ⟨e, -, hc, hb, hup⟩ | ⟨e, -, hc, hb, hup⟩ | ⟨-, hc, epoch, hb⟩ | ⟨a, -, hc, epoch, hb⟩
    · rw [hc, hb, hup]
      rfl
    · rw [hc, hb, hup]
      rfl
    · rw [hc, hb]
      rfl
    · rw [hc, hb]
      rfl
  · intro e he
    have hstate : (ls.tryAdmit pool now).2 = ls ∨ (ls.tryAdmit pool now).2 = ls.touch pool := by
      rcases hgates with ⟨e', ha, -⟩ | ⟨e', ha, -⟩ | ⟨ha, -⟩ | ⟨a, ha, -⟩
      · exact Or.inl (by rw [ha])
      · exact Or.inr (by rw [ha])
      · exact Or.inr (by rw [ha])
      · rw [ha] at he
        cases he
    refine ⟨hstate, ?_⟩
    rcases hstate with heq | heq
    · rw [heq]
      exact ⟨rfl, fun q => rfl, fun q c hc => hc⟩
    · rw [heq]
      refine ⟨permits_touch ls pool, cell_touch_any ls pool, fun q c hc => ?_⟩
      unfold touch
      rw [cellAt_setCell]
      split
      · rename_i hq
        rw [hq, cell_of_cellAt hc]
      · exact hc

/-- A lane of one permit, which a request of the pool `gold` has taken. -/
def takenLane : HealthState :=
  PoolOp.run
    (HealthState.newWithLimits [LaneData.ofModel "m" ⟨"p", some 1, -1⟩] ⟨10, 100⟩) (.lane 0 (.tryAdmit "gold" 5))

theorem availability_taken :
    ∃ ls, takenLane.lanes[0]? = some ls ∧ (ls.classify "gold" 6).1 = (ls.tryAdmit "gold" 6).1.map (fun _ => ()) ∧
      (ls.tryAdmit "gold" 6).1 = .error (.atCapacity none) ∧ ls.laneUsableAnyCell 6 = true := by
  have hreach : takenLane.Reachable := .run (.boot [("m", ⟨"p", some 1, -1⟩)] ⟨10, 100⟩) _
  have hsome : (takenLane.lanes[0]?).isSome = true := rfl
  have hls : takenLane.lanes[0]? = some ((takenLane.lanes[0]?).get hsome) := rfl
  exact ⟨_, hls, (availability hreach hls "gold" 6).1, rfl, rfl⟩

end Busbar
