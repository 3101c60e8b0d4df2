import Busbar.Lib.Run
import Busbar.Health.Lane

/-!
# The recovery of a lane, access by access

`recover_lane` reads the deadline and the state of a cell without a lock, and closes the cell in a section of its
transition lock. Other requests run sections of their own on the same cells in between. The recovery is a thread
here whose steps are single accesses, and a run interleaves them with sections on any cells of the lane.

* `close_respects_observed`: a cell the recovery closes is suppressed no longer than the recovery saw.
* `suppression_survives`: a later suppression recorded after the observation stays as it is.
* `recovery_spares_newer`: both, of every run.
* `alone_recoverLane`: undisturbed, the accesses do what the atomic `LaneState.recoverLane` does.
-/

namespace Busbar

/-- The sections of a cell's transition lock, with the arguments of their callers. `closeIfRecoverable` and
`resetSwrr` are those of another recovery. -/
inductive CellSection where
  | recordFailure (now : Nat) (cfg : BreakerCfg) (retryAfter : Option Nat) (maxHonoredRetryAfterSecs : Nat)
      (seed : JitterSeed)
  | hardDown (now hardDownCooldownSecs : Nat)
  | recordSuccess (now : Nat)
  | acquireBreaker (now : Nat)
  | releaseProbe
  | releaseProbeOwned (ownedEpoch : Nat)
  | closeIfRecoverable (now observedCooldown : Nat)
  | resetSwrr

namespace CellSection

def run : CellSection → BreakerCell → BreakerCell
  | recordFailure now cfg retryAfter m seed, c => (cellRecordFailure c now cfg retryAfter m seed).2
  | hardDown now secs, c => hardDownTrip c now secs
  | recordSuccess now, c => (cellRecordSuccess c now).2
  | acquireBreaker now, c => (cellAcquireBreaker c now).2
  | releaseProbe, c => cellReleaseProbe c
  | releaseProbeOwned e, c => cellReleaseProbeOwned c e
  | closeIfRecoverable now observed, c => (cellClosedIfRecoverable c now observed).2
  | resetSwrr, c => Busbar.resetSwrr c

/-- The sections that move a probe. -/
def movesProbe : CellSection → Bool
  | acquireBreaker _ | releaseProbe | releaseProbeOwned _ => true
  | _ => false

end CellSection

/-- The next access of a recovery: the deadline of a pool's cell, its state, the section that closes it, the reset
of its accumulator; or the list of the lane's pools. -/
inductive RecoverPhase where
  | load (pool : String)
  | check (pool : String) (cooldown : Nat)
  | close (pool : String) (observedCooldown : Nat)
  | reset (pool : String)
  | list
  | done
  deriving DecidableEq, Repr

/-- A call of `recover_lane`, with the pools it has still to visit. -/
structure RecoverThread where
  now : Nat
  phase : RecoverPhase
  rest : List String

namespace RecoverThread

/-- The default cell comes first. -/
def start (now : Nat) : RecoverThread := ⟨now, .load "", []⟩

def nextPool (t : RecoverThread) : RecoverThread :=
  match t.rest with
  | [] => { t with phase := .done }
  | pool :: rest => { t with phase := .load pool, rest := rest }

/-- Behind the default cell the pools are listed, once. -/
def afterCell (t : RecoverThread) (pool : String) : RecoverThread :=
  if pool = "" then { t with phase := .list } else t.nextPool

/-- One access. -/
def step (t : RecoverThread) (ls : LaneState) : RecoverThread × LaneState :=
  match t.phase with
  | .load pool => ({ t with phase := .check pool (ls.cell pool).cooldownUntil }, ls)
  | .check pool cooldown =>
    if (ls.cell pool).breakerState ≠ stClosed ∨ cooldown > t.now then ({ t with phase := .close pool cooldown }, ls)
    else (t.afterCell pool, ls)
  | .close pool observed =>
    match cellClosedIfRecoverable (ls.cell pool) t.now observed with
    | (true, c) => ({ t with phase := .reset pool }, ls.setCell pool c)
    | (false, _) => (t.afterCell pool, ls)
  | .reset pool => (t.afterCell pool, ls.setCell pool (resetSwrr (ls.cell pool)))
  | .list => (({ t with rest := ls.poolCells.rows.map Prod.fst } : RecoverThread).nextPool, ls)
  | .done => (t, ls)

end RecoverThread

/-- What happens next: a section on a pool's cell, or the recovery's next access. -/
inductive RecoverEvent where
  | locked (pool : String) (sec : CellSection)
  | recover

/-- A lane with a recovery under way. -/
structure Recovery where
  thread : RecoverThread
  lane : LaneState

namespace Recovery

def step (r : Recovery) : RecoverEvent → Recovery
  | .locked pool sec => { r with lane := r.lane.setCell pool (sec.run (r.lane.cell pool)) }
  | .recover =>
    let out := r.thread.step r.lane
    ⟨out.1, out.2⟩

/-- The lane and the recovery after a run. -/
def after (ls : LaneState) (now : Nat) (events : List RecoverEvent) : Recovery :=
  Run.exec step ⟨.start now, ls⟩ events

end Recovery

/-! ## The cells and the names -/

namespace LaneState

variable {ls : LaneState} {pool q : String}

/-- No pool has the empty name; the default cell serves it. -/
def Named (ls : LaneState) : Prop := ∀ e ∈ ls.poolCells.rows, e.1 ≠ ""

theorem Named.setCell (h : ls.Named) (pool : String) (c : BreakerCell) : (ls.setCell pool c).Named := by
  unfold LaneState.setCell
  split
  · exact h
  · rename_i hne
    intro e he
    rcases Table.mem_rows_set.1 he with rfl | ⟨hold, -⟩
    · exact hne
    · exact h e hold

theorem cell_setCell_self (ls : LaneState) (pool : String) (c : BreakerCell) : (ls.setCell pool c).cell pool = c := by
  apply cell_of_cellAt
  rw [cellAt_setCell, if_pos rfl]

theorem isSome_setCell (h : (ls.cellAt pool).isSome = true) (q : String) (c : BreakerCell) :
    ((ls.setCell q c).cellAt pool).isSome = true := by
  rw [cellAt_setCell]
  split
  · rfl
  · exact h

/-- A write to another cell leaves an existing one alone. -/
theorem cell_setCell_ne (h : (ls.cellAt pool).isSome = true) (hne : q ≠ pool) (c : BreakerCell) :
    (ls.setCell q c).cell pool = ls.cell pool := by
  have hat := cellAt_setCell ls q pool c
  rw [if_neg hne] at hat
  unfold cell
  rw [hat]
  obtain ⟨c', hc'⟩ := Option.isSome_iff_exists.1 h
  rw [hc', Option.getD_some, Option.getD_some]

end LaneState

/-! ## The order of the visits -/

/-- The pool whose cell the phase is about. -/
def RecoverPhase.pool? : RecoverPhase → Option String
  | .load pool | .check pool _ | .close pool _ | .reset pool => some pool
  | .list | .done => none

namespace RecoverThread

variable {t : RecoverThread} {ls : LaneState} {pool : String} {observed : Nat}

/-- No pool is visited twice. -/
structure Ordered (t : RecoverThread) : Prop where
  nodup : t.rest.Nodup
  named : "" ∉ t.rest
  fresh : ∀ pool, t.phase.pool? = some pool → pool ∉ t.rest

/-- The recovery is through with the pool. -/
structure Left (t : RecoverThread) (pool : String) : Prop where
  elsewhere : t.phase.pool? ≠ some pool
  unlisted : pool ∉ t.rest
  listed : pool ≠ "" → t.phase ≠ .list ∧ t.phase.pool? ≠ some ""

/-- The recovery has read this deadline of the pool's cell, and may still close it. -/
def Passed (t : RecoverThread) (pool : String) (observed : Nat) : Prop :=
  t.phase = .check pool observed ∨ t.phase = .close pool observed ∨ t.phase = .reset pool ∨ t.Left pool

theorem ordered_nextPool (hn : t.rest.Nodup) (he : "" ∉ t.rest) : t.nextPool.Ordered := by
  unfold nextPool
  cases hr : t.rest with
  | nil => exact ⟨by simp, by simp, fun pool h => by cases h⟩
  | cons q rest =>
    rw [hr, List.nodup_cons] at hn
    rw [hr, List.mem_cons, not_or] at he
    refine ⟨hn.2, he.2, fun pool h => ?_⟩
    cases h
    exact hn.1

theorem left_nextPool (hp : pool ∉ t.rest) (he : "" ∉ t.rest) : t.nextPool.Left pool := by
  unfold nextPool
  cases hr : t.rest with
  | nil => exact ⟨by simp [RecoverPhase.pool?], by simp, fun _ => by simp [RecoverPhase.pool?]⟩
  | cons q rest =>
    rw [hr, List.mem_cons, not_or] at hp he
    refine ⟨?_, hp.2, fun _ => ⟨by simp, ?_⟩⟩
    · simpa [RecoverPhase.pool?] using fun e : q = pool => hp.1 e.symm
    · simpa [RecoverPhase.pool?] using fun e : q = "" => he.1 e.symm

theorem ordered_afterCell (h : t.Ordered) (pool : String) : (t.afterCell pool).Ordered := by
  unfold afterCell
  split
  · exact ⟨h.nodup, h.named, fun pool h => by cases h⟩
  · exact ordered_nextPool h.nodup h.named

theorem left_afterCell (h : t.Ordered) (hp : t.phase.pool? = some pool) : (t.afterCell pool).Left pool := by
  have hfresh := h.fresh pool hp
  unfold afterCell
  split
  · rename_i he
    exact ⟨by simp [RecoverPhase.pool?], hfresh, fun hne => absurd he hne⟩
  · exact left_nextPool hfresh h.named

theorem names_nodup (ls : LaneState) : (ls.poolCells.rows.map Prod.fst).Nodup := ls.poolCells.nodup

theorem names_named (h : ls.Named) : "" ∉ ls.poolCells.rows.map Prod.fst := by
  intro hm
  obtain ⟨e, he, hname⟩ := List.mem_map.1 hm
  exact h e he hname

theorem Ordered.step (h : t.Ordered) (hls : ls.Named) : (t.step ls).1.Ordered := by
  have hsame : ∀ ph : RecoverPhase, ph.pool? = t.phase.pool? → ({ t with phase := ph } : RecoverThread).Ordered :=
    fun ph hph => ⟨h.nodup, h.named, fun pool hp => h.fresh pool (hph.symm.trans hp)⟩
  unfold RecoverThread.step
  cases hph : t.phase with
  | load pool => exact hsame _ (by rw [hph]; rfl)
  | check pool cooldown =>
    dsimp only
    split
    · exact hsame _ (by rw [hph]; rfl)
    · exact ordered_afterCell h pool
  | close pool observed =>
    dsimp only
    split
    · exact hsame _ (by rw [hph]; rfl)
    · exact ordered_afterCell h pool
  | reset pool => exact ordered_afterCell h pool
  | list => exact ordered_nextPool (names_nodup ls) (names_named hls)
  | done => exact h

theorem Left.step (h : t.Left pool) (ho : t.Ordered) (hls : ls.Named) : (t.step ls).1.Left pool := by
  have hsame : ∀ ph : RecoverPhase, ph ≠ .list → ph.pool? = t.phase.pool? →
      ({ t with phase := ph } : RecoverThread).Left pool := by
    intro ph hne hph
    refine ⟨?_, h.unlisted, fun hp => ⟨hne, ?_⟩⟩
    · rw [hph]
      exact h.elsewhere
    · rw [hph]
      exact (h.listed hp).2
  -- a cell visited now is not the pool's, nor the default cell behind it
  have hafter : ∀ q, t.phase.pool? = some q → (t.afterCell q).Left pool := by
    intro q hq
    unfold afterCell
    split
    · rename_i he
      subst he
      by_cases hp : pool = ""
      · subst hp
        exact absurd hq h.elsewhere
      · exact absurd hq (h.listed hp).2
    · exact left_nextPool h.unlisted ho.named
  unfold RecoverThread.step
  cases hph : t.phase with
  | load q => exact hsame _ (by simp) (by rw [hph]; rfl)
  | check q cooldown =>
    dsimp only
    split
    · exact hsame _ (by simp) (by rw [hph]; rfl)
    · exact hafter q (by rw [hph]; rfl)
  | close q observed =>
    dsimp only
    split
    · exact hsame _ (by simp) (by rw [hph]; rfl)
    · exact hafter q (by rw [hph]; rfl)
  | reset q => exact hafter q (by rw [hph]; rfl)
  | list =>
    have hp : pool = "" := by
      by_contra hne
      exact (h.listed hne).1 hph
    subst hp
    exact left_nextPool (names_named hls) (names_named hls)
  | done => exact h

theorem Passed.step (h : t.Passed pool observed) (ho : t.Ordered) (hls : ls.Named) :
    (t.step ls).1.Passed pool observed := by
  unfold RecoverThread.step
  rcases h with h | h | h | h
  · rw [h]
    dsimp only
    split
    · exact Or.inr (Or.inl rfl)
    · exact Or.inr (Or.inr (Or.inr (left_afterCell ho (by rw [h]; rfl))))
  · rw [h]
    dsimp only
    split
    · exact Or.inr (Or.inr (Or.inl rfl))
    · exact Or.inr (Or.inr (Or.inr (left_afterCell ho (by rw [h]; rfl))))
  · rw [h]
    exact Or.inr (Or.inr (Or.inr (left_afterCell ho (by rw [h]; rfl))))
  · exact Or.inr (Or.inr (Or.inr (h.step ho hls)))

end RecoverThread

/-! ## What a recovery does to a cell -/

/-- Equal but for the accumulator of the weighted selection. -/
def SameHealth (c c' : BreakerCell) : Prop := { c' with currentWeight := c.currentWeight } = c

theorem SameHealth.refl (c : BreakerCell) : SameHealth c c := rfl

theorem SameHealth.fields {c c' : BreakerCell} (h : SameHealth c c') :
    c'.breakerState = c.breakerState ∧ c'.cooldownUntil = c.cooldownUntil ∧ c'.probeInFlight = c.probeInFlight ∧
      c'.probeEpoch = c.probeEpoch := by
  unfold SameHealth at h
  rw [← h]
  exact ⟨rfl, rfl, rfl, rfl⟩

theorem SameHealth.trans {a b c : BreakerCell} (h : SameHealth a b) (h' : SameHealth b c) : SameHealth a c := by
  unfold SameHealth at h h' ⊢
  rw [← h, ← h']

/-- The probe's own sections do not look at the accumulator. -/
theorem SameHealth.run {c c' : BreakerCell} (h : SameHealth c c') {sec : CellSection}
    (hsec : sec.movesProbe = true) : SameHealth (sec.run c) (sec.run c') := by
  unfold SameHealth at h
  rw [← h]
  cases sec with
  | acquireBreaker now =>
    simp only [CellSection.run, cellAcquireBreaker]
    split
    · rfl
    · split
      · split <;> rfl
      · rfl
  | releaseProbe => rfl
  | releaseProbeOwned e =>
    simp only [CellSection.run, cellReleaseProbeOwned]
    split <;> rfl
  | _ => cases hsec

/-- Nor do they move the deadline. -/
theorem movesProbe_cooldown (c : BreakerCell) {sec : CellSection} (hsec : sec.movesProbe = true) :
    (sec.run c).cooldownUntil = c.cooldownUntil := by
  cases sec with
  | acquireBreaker now =>
    simp only [CellSection.run, cellAcquireBreaker]
    split
    · rfl
    · split
      · split <;> rfl
      · rfl
  | releaseProbe => rfl
  | releaseProbeOwned e =>
    simp only [CellSection.run, cellReleaseProbeOwned]
    split <;> rfl
  | _ => cases hsec

/-- **The closing section.** It leaves a cell alone whose deadline is past the observed one. -/
theorem close_respects_observed (c : BreakerCell) (now observed : Nat) :
    cellClosedIfRecoverable c now observed = (false, c) ∨
      c.cooldownUntil ≤ observed ∧ cellClosedIfRecoverable c now observed = (true, cellClosedLocked c) := by
  unfold cellClosedIfRecoverable
  by_cases hlate : c.cooldownUntil > observed
  · rw [if_pos hlate]
    exact Or.inl rfl
  · rw [if_neg hlate]
    split
    · exact Or.inr ⟨by omega, rfl⟩
    · exact Or.inl rfl

theorem named_step {ls : LaneState} (h : ls.Named) (t : RecoverThread) : (t.step ls).2.Named := by
  unfold RecoverThread.step
  cases t.phase with
  | check pool cooldown =>
    dsimp only
    split <;> exact h
  | close pool observed =>
    dsimp only
    split
    · exact h.setCell _ _
    · exact h
  | reset pool => exact h.setCell _ _
  | load | list | done => exact h

/-- A recovery past the pool touches the accumulator of its cell only, if a later suppression holds it. -/
theorem passed_cell {t : RecoverThread} {ls : LaneState} {pool : String} {observed : Nat}
    (h : t.Passed pool observed) (hat : (ls.cellAt pool).isSome = true)
    (hlate : observed < (ls.cell pool).cooldownUntil) :
    SameHealth (ls.cell pool) ((t.step ls).2.cell pool) ∧ ((t.step ls).2.cellAt pool).isSome = true := by
  have helse : ∀ q c, q ≠ pool → SameHealth (ls.cell pool) ((ls.setCell q c).cell pool) ∧
      ((ls.setCell q c).cellAt pool).isSome = true := by
    intro q c hq
    rw [LaneState.cell_setCell_ne hat hq]
    exact ⟨SameHealth.refl _, LaneState.isSome_setCell hat q c⟩
  have hsame : SameHealth (ls.cell pool) (ls.cell pool) ∧ (ls.cellAt pool).isSome = true := ⟨SameHealth.refl _, hat⟩
  unfold RecoverThread.step
  rcases h with h | h | h | h
  · rw [h]
    dsimp only
    split <;> exact hsame
  · rw [h]
    dsimp only
    rcases close_respects_observed (ls.cell pool) t.now observed with hc | ⟨hle, -⟩
    · rw [hc]
      exact hsame
    · omega
  · rw [h]
    dsimp only
    rw [LaneState.cell_setCell_self]
    exact ⟨rfl, LaneState.isSome_setCell hat _ _⟩
  · have hne : ∀ q, t.phase.pool? = some q → q ≠ pool := by
      intro q hq e
      subst e
      exact h.elsewhere hq
    cases hph : t.phase with
    | load q => exact hsame
    | check q cooldown =>
      dsimp only
      split <;> exact hsame
    | close q observed' =>
      dsimp only
      split
      · exact helse q _ (hne q (by rw [hph]; rfl))
      · exact hsame
    | reset q => exact helse q _ (hne q (by rw [hph]; rfl))
    | list | done => exact hsame

namespace Recovery

variable {ls : LaneState} {now : Nat} {pool : String}

theorem after_snoc (events : List RecoverEvent) (e : RecoverEvent) :
    after ls now (events ++ [e]) = (after ls now events).step e := Run.exec_snoc _ _ _ _

/-- The sections of a run on one pool's cell. -/
def sectionsOn (pool : String) (events : List RecoverEvent) : List CellSection :=
  events.filterMap (fun e => match e with
    | .locked q sec => if q = pool then some sec else none
    | .recover => none)

theorem after_ordered (hls : ls.Named) (events : List RecoverEvent) :
    (after ls now events).thread.Ordered ∧ (after ls now events).lane.Named := by
  refine Run.exec_invariant step (I := fun r => r.thread.Ordered ∧ r.lane.Named) ?_ ⟨?_, hls⟩ events
  · rintro r e ⟨ho, hn⟩
    cases e with
    | locked q sec => exact ⟨ho, hn.setCell _ _⟩
    | recover => exact ⟨ho.step hn, named_step hn _⟩
  · exact ⟨List.nodup_nil, by simp [RecoverThread.start], fun _ _ => by simp [RecoverThread.start]⟩

theorem passed_mono (hls : ls.Named) {pre : List RecoverEvent} (post : List RecoverEvent) {observed : Nat}
    (h : (after ls now pre).thread.Passed pool observed) :
    (after ls now (pre ++ post)).thread.Passed pool observed := by
  induction post using List.reverseRecOn with
  | nil => rwa [List.append_nil]
  | append_singleton post e ih =>
    rw [← List.append_assoc, after_snoc]
    cases e with
    | locked q sec => exact ih
    | recover =>
      obtain ⟨ho, hn⟩ : (after ls now (pre ++ post)).thread.Ordered ∧ (after ls now (pre ++ post)).lane.Named :=
        after_ordered hls (pre ++ post)
      exact ih.step ho hn

/-- **What was observed.** The deadline a recovery carries is the one it read of that cell, at some point of the run. -/
theorem observed_spec (events : List RecoverEvent) {observed : Nat}
    (h : (after ls now events).thread.phase = .check pool observed ∨
      (after ls now events).thread.phase = .close pool observed) :
    ∃ pre post, events = pre ++ .recover :: post ∧ (after ls now pre).thread.phase = .load pool ∧
      ((after ls now pre).lane.cell pool).cooldownUntil = observed := by
  induction events using List.reverseRecOn with
  | nil => rcases h with h | h <;> cases h
  | append_singleton events e ih =>
    have hlift : (∃ pre post, events = pre ++ .recover :: post ∧ (after ls now pre).thread.phase = .load pool ∧
        ((after ls now pre).lane.cell pool).cooldownUntil = observed) →
        ∃ pre post, events ++ [e] = pre ++ .recover :: post ∧ (after ls now pre).thread.phase = .load pool ∧
          ((after ls now pre).lane.cell pool).cooldownUntil = observed := by
      rintro ⟨pre, post, rfl, hload, hobs⟩
      exact ⟨pre, post ++ [e], by simp, hload, hobs⟩
    rw [after_snoc] at h
    cases e with
    | locked q sec => exact hlift (ih h)
    | recover =>
      have hnext : ∀ t : RecoverThread, t.nextPool.phase ≠ .check pool observed ∧
          t.nextPool.phase ≠ .close pool observed := by
        intro t
        unfold RecoverThread.nextPool
        cases t.rest <;> simp
      have hafter : ∀ (t : RecoverThread) q, (t.afterCell q).phase ≠ .check pool observed ∧
          (t.afterCell q).phase ≠ .close pool observed := by
        intro t q
        unfold RecoverThread.afterCell
        split
        · simp
        · exact hnext t
      have hno : ∀ t : RecoverThread, (t.phase ≠ .check pool observed ∧ t.phase ≠ .close pool observed) →
          ¬ (t.phase = .check pool observed ∨ t.phase = .close pool observed) := fun t ht => by tauto
      simp only [step, RecoverThread.step] at h
      cases hph : (after ls now events).thread.phase with
      | load q =>
        rw [hph] at h
        rcases h with h | h
        · cases h
          exact ⟨events, [], rfl, hph, rfl⟩
        · cases h
      | check q cooldown =>
        rw [hph] at h
        dsimp only at h
        split at h
        · rcases h with h | h
          · cases h
          · cases h
            exact hlift (ih (Or.inl hph))
        · exact absurd h (hno _ (hafter _ q))
      | close q observed' =>
        rw [hph] at h
        dsimp only at h
        split at h
        · rcases h with h | h <;> cases h
        · exact absurd h (hno _ (hafter _ q))
      | reset q =>
        rw [hph] at h
        exact absurd h (hno _ (hafter _ q))
      | list =>
        rw [hph] at h
        exact absurd h (hno _ (hnext _))
      | done =>
        rw [hph] at h
        dsimp only at h
        rw [hph] at h
        rcases h with h | h <;> cases h

/-- From a point past the reading on, a deadline later than the one read holds the cell. -/
theorem held_run (hls : ls.Named) {base post : List RecoverEvent} {observed : Nat}
    (hpassed : (after ls now base).thread.Passed pool observed)
    (hat : ((after ls now base).lane.cellAt pool).isSome = true)
    (hlate : observed < ((after ls now base).lane.cell pool).cooldownUntil)
    (hpost : ∀ s ∈ sectionsOn pool post, s.movesProbe = true) :
    SameHealth ((sectionsOn pool post).foldl (fun c s => s.run c) ((after ls now base).lane.cell pool))
        ((after ls now (base ++ post)).lane.cell pool) ∧
      ((after ls now (base ++ post)).lane.cellAt pool).isSome = true ∧
      observed < ((after ls now (base ++ post)).lane.cell pool).cooldownUntil := by
  induction post using List.reverseRecOn with
  | nil =>
    rw [List.append_nil]
    exact ⟨SameHealth.refl _, hat, hlate⟩
  | append_singleton post e ih =>
    have hsections : sectionsOn pool (post ++ [e]) = sectionsOn pool post ++ sectionsOn pool [e] := by
      simp only [sectionsOn, List.filterMap_append]
    rw [hsections] at hpost ⊢
    obtain ⟨hsame, hat', hcool⟩ := ih fun s hs => hpost s (List.mem_append_left _ hs)
    have hpast := passed_mono hls post hpassed
    rw [← List.append_assoc, after_snoc, List.foldl_append]
    generalize after ls now (base ++ post) = r at hsame hat' hcool hpast
    cases e with
    | recover =>
      obtain ⟨hcell, hat''⟩ := passed_cell hpast hat' hcool
      obtain ⟨-, hc, -, -⟩ := hcell.fields
      refine ⟨hsame.trans hcell, hat'', ?_⟩
      show observed < ((r.thread.step r.lane).2.cell pool).cooldownUntil
      rw [hc]
      exact hcool
    | locked q sec =>
      simp only [step]
      by_cases hq : q = pool
      · subst hq
        have hs : sectionsOn q [RecoverEvent.locked q sec] = [sec] := by simp [sectionsOn]
        rw [hs] at hpost ⊢
        have hmoves := hpost sec (List.mem_append_right _ List.mem_cons_self)
        rw [LaneState.cell_setCell_self]
        refine ⟨hsame.run hmoves, LaneState.isSome_setCell hat' _ _, ?_⟩
        rw [movesProbe_cooldown _ hmoves]
        exact hcool
      · have hs : sectionsOn pool [RecoverEvent.locked q sec] = [] := by simp [sectionsOn, hq]
        rw [hs, LaneState.cell_setCell_ne hat' hq]
        exact ⟨hsame, LaneState.isSome_setCell hat' _ _, hcool⟩

/-- **Later suppressions.** From a section that leaves the cell a deadline past the observed one, the cell goes on as
its own sections move it, as long as these only move the probe. -/
theorem suppression_survives (hls : ls.Named) {pre mid post : List RecoverEvent} {sec : CellSection}
    (hload : (after ls now pre).thread.phase = .load pool)
    (hlate : ((after ls now pre).lane.cell pool).cooldownUntil <
      ((after ls now (pre ++ .recover :: mid ++ [.locked pool sec])).lane.cell pool).cooldownUntil)
    (hpost : ∀ s ∈ sectionsOn pool post, s.movesProbe = true) :
    SameHealth ((sectionsOn pool post).foldl (fun c s => s.run c)
        ((after ls now (pre ++ .recover :: mid ++ [.locked pool sec])).lane.cell pool))
      ((after ls now (pre ++ .recover :: mid ++ [.locked pool sec] ++ post)).lane.cell pool) := by
  have hread : (after ls now (pre ++ [.recover])).thread.Passed pool
      ((after ls now pre).lane.cell pool).cooldownUntil := by
    rw [after_snoc]
    simp only [step, RecoverThread.step, hload]
    exact Or.inl rfl
  have hpassed := passed_mono hls (mid ++ [.locked pool sec]) hread
  have hsplit : pre ++ [RecoverEvent.recover] ++ (mid ++ [.locked pool sec])
      = pre ++ .recover :: mid ++ [.locked pool sec] := by simp
  rw [hsplit] at hpassed
  refine (held_run hls hpassed ?_ hlate hpost).1
  rw [after_snoc]
  simp only [step]
  rw [LaneState.cellAt_setCell, if_pos rfl]
  rfl

/-- **A recovery never clears a newer suppression.** In every run, the recovery closes a cell only if its deadline is
no later than the one read of it; and a failure or a hard-down recorded after that reading with a later deadline goes
on as if there were no recovery. -/
theorem recovery_spares_newer (hls : ls.Named) (now : Nat) (events : List RecoverEvent) (pool : String) :
    (∀ observed, (after ls now events).thread.phase = .close pool observed →
      (∃ pre post, events = pre ++ .recover :: post ∧ (after ls now pre).thread.phase = .load pool ∧
        ((after ls now pre).lane.cell pool).cooldownUntil = observed) ∧
      let c := (after ls now events).lane.cell pool
      let c' := (after ls now (events ++ [.recover])).lane.cell pool
      c' = c ∨ c.cooldownUntil ≤ observed ∧ c' = cellClosedLocked c) ∧
    ∀ pre mid sec post, events = pre ++ .recover :: mid ++ [.locked pool sec] ++ post →
      (after ls now pre).thread.phase = .load pool →
      let recorded := (after ls now (pre ++ .recover :: mid ++ [.locked pool sec])).lane.cell pool
      ((after ls now pre).lane.cell pool).cooldownUntil < recorded.cooldownUntil →
      (∀ s ∈ sectionsOn pool post, s.movesProbe = true) →
      let c := (sectionsOn pool post).foldl (fun c s => s.run c) recorded
      let c' := (after ls now events).lane.cell pool
      c'.breakerState = c.breakerState ∧ c'.cooldownUntil = c.cooldownUntil ∧ c'.probeInFlight = c.probeInFlight := by
  constructor
  · intro observed h
    refine ⟨observed_spec events (Or.inr h), ?_⟩
    rw [after_snoc]
    simp only [step, RecoverThread.step, h]
    rcases close_respects_observed ((after ls now events).lane.cell pool) (after ls now events).thread.now observed with
      hc | ⟨hle, hc⟩
    · rw [hc]
      exact Or.inl rfl
    · rw [hc]
      dsimp only
      rw [LaneState.cell_setCell_self]
      exact Or.inr ⟨hle, rfl⟩
  · rintro pre mid sec post rfl hload recorded hlate hpost
    obtain ⟨h₁, h₂, h₃, -⟩ := (suppression_survives hls hload hlate hpost).fields
    exact ⟨h₁, h₂, h₃⟩

/-- A lane tripped until 50. -/
def tripped : LaneState :=
  (LaneState.ofData ⟨"m", "p", 1, 1, false, 0, 50, 3, false, "", 0, 0, 0⟩).setCell ""
    { BreakerCell.new with breakerState := stOpen, cooldownUntil := 50, streak := 3 }

theorem recovery_spares_newer_hardDown :
    let c' := (after tripped 60 ([] ++ .recover :: [.recover] ++ [.locked "" (.hardDown 61 1800)]
      ++ [.recover, .recover])).lane.cell ""
    c'.breakerState = stOpen ∧ c'.cooldownUntil = 1861 ∧ c'.probeInFlight = false :=
  have hnamed : tripped.Named := fun e he => by cases he
  (recovery_spares_newer hnamed 60 _ "").2 [] [.recover] _ [.recover, .recover] rfl
    rfl (by decide +kernel) (by decide +kernel)

/-! ## A recovery on its own -/

/-- The recovery runs from one state to the other, and nothing else does. -/
def Alone (r r' : Recovery) : Prop := ∃ n, Run.exec step r (List.replicate n .recover) = r'

theorem Alone.refl (r : Recovery) : Alone r r := ⟨0, rfl⟩

theorem Alone.step {r r' : Recovery} (h : Alone (r.step .recover) r') : Alone r r' := by
  obtain ⟨n, hn⟩ := h
  exact ⟨n + 1, hn⟩

theorem Alone.trans {a b c : Recovery} (h : Alone a b) (h' : Alone b c) : Alone a c := by
  obtain ⟨n, rfl⟩ := h
  obtain ⟨k, rfl⟩ := h'
  refine ⟨n + k, ?_⟩
  rw [List.replicate_add, Run.exec_append]

/-- One visit is the close of the atomic recovery. -/
theorem alone_visit {t : RecoverThread} {ls : LaneState} {pool : String} {c : BreakerCell} (hph : t.phase = .load pool)
    (hat : ls.cellAt pool = some c) : ∃ ls', Alone ⟨t, ls⟩ ⟨t.afterCell pool, ls'⟩ ∧ (ls.Named → ls'.Named) ∧
      (∀ q, ls'.cellAt q = if pool = q then some (resetIfClosed (recoverClose c t.now)) else ls.cellAt q) := by
  have hcell := LaneState.cell_of_cellAt hat
  have hback : ∀ ph : RecoverPhase, ({ t with phase := ph } : RecoverThread).afterCell pool = t.afterCell pool := by
    intro ph
    unfold RecoverThread.afterCell RecoverThread.nextPool
    split
    · rfl
    · cases t.rest <;> rfl
  have hkeep : ∀ q, ls.cellAt q = if pool = q then some c else ls.cellAt q := by
    intro q
    split
    · rename_i h
      rw [← h, hat]
    · rfl
  by_cases hs : c.breakerState ≠ stClosed ∨ c.cooldownUntil > t.now
  · rcases close_respects_observed c t.now c.cooldownUntil with hc | ⟨-, hc⟩
    · refine ⟨ls, .step (.step (.step ?_)), fun h => h, fun q => ?_⟩
      · simp only [step, RecoverThread.step, hph, hcell, hs, if_true, hc, hback]
        exact Alone.refl _
      · simp only [recoverClose, hs, if_true, hc, resetIfClosed]
        exact hkeep q
    · refine ⟨(ls.setCell pool (cellClosedLocked c)).setCell pool (resetSwrr (cellClosedLocked c)),
        .step (.step (.step (.step ?_))), fun h => (h.setCell _ _).setCell _ _, fun q => ?_⟩
      · simp only [step, RecoverThread.step, hph, hcell, hs, if_true, hc, hback, LaneState.cell_setCell_self]
        exact Alone.refl _
      · simp only [recoverClose, hs, if_true, hc, resetIfClosed, LaneState.cellAt_setCell]
        split <;> rfl
  · refine ⟨ls, .step (.step ?_), fun h => h, fun q => ?_⟩
    · simp only [step, RecoverThread.step, hph, hcell, hs, if_false, hback]
      exact Alone.refl _
    · simp only [recoverClose, hs, if_false, resetIfClosed]
      exact hkeep q

/-- The visits of the listed pools. -/
theorem alone_rest {t : RecoverThread} (ho : t.Ordered) (ls : LaneState)
    (hat : ∀ pool ∈ t.rest, (ls.cellAt pool).isSome = true) : ∃ t' ls', Alone ⟨t.nextPool, ls⟩ ⟨t', ls'⟩ ∧
      t'.phase = .done ∧ ∀ q, ls'.cellAt q = if q ∈ t.rest then
        (ls.cellAt q).map (fun c => resetIfClosed (recoverClose c t.now)) else ls.cellAt q := by
  obtain ⟨now, phase, rest⟩ := t
  induction rest generalizing phase ls with
  | nil => exact ⟨_, ls, Alone.refl _, rfl, fun q => by simp⟩
  | cons pool rest ih =>
    have hnd := List.nodup_cons.1 ho.nodup
    have hne : pool ≠ "" := fun e => ho.named (e ▸ List.mem_cons_self)
    obtain ⟨c, hc⟩ := Option.isSome_iff_exists.1 (hat pool List.mem_cons_self)
    obtain ⟨ls₁, hvisit, -, hcells⟩ := alone_visit (t := ⟨now, .load pool, rest⟩) rfl hc
    have hnext : (⟨now, .load pool, rest⟩ : RecoverThread).afterCell pool
        = (⟨now, .load pool, rest⟩ : RecoverThread).nextPool := if_neg hne
    rw [hnext] at hvisit
    have hordered : (⟨now, .load pool, rest⟩ : RecoverThread).Ordered := by
      refine ⟨hnd.2, fun hm => ho.named (List.mem_cons_of_mem _ hm), fun q hq => ?_⟩
      cases hq
      exact hnd.1
    have hat₁ : ∀ q ∈ rest, (ls₁.cellAt q).isSome = true := by
      intro q hq
      rw [hcells q]
      split
      · rfl
      · exact hat q (List.mem_cons_of_mem _ hq)
    obtain ⟨t', ls', hrest, hdone, hfinal⟩ := ih ls₁ (.load pool) hordered hat₁
    refine ⟨t', ls', hvisit.trans hrest, hdone, fun q => ?_⟩
    dsimp only at hfinal ⊢
    rw [hfinal q, hcells q]
    by_cases hq : pool = q
    · subst hq
      rw [if_neg hnd.1, if_pos rfl, if_pos List.mem_cons_self, hc]
      rfl
    · have hmem : q ∈ pool :: rest ↔ q ∈ rest := by
        rw [List.mem_cons]
        exact ⟨fun h => h.resolve_left (fun e => hq e.symm), Or.inr⟩
      simp only [hmem, hq, if_false]

/-- **The atomic recovery.** Undisturbed, the accesses leave every cell as `LaneState.recoverLane` does. -/
theorem alone_recoverLane (hls : ls.Named) (now : Nat) : ∃ r, Alone ⟨.start now, ls⟩ r ∧ r.thread.phase = .done ∧
    ∀ q, r.lane.cellAt q = (ls.recoverLane now).cellAt q := by
  have hdefault : ls.cellAt "" = some ls.defaultCell := if_pos rfl
  obtain ⟨ls₁, hvisit, hnamed, hcells⟩ := alone_visit (t := .start now) rfl hdefault
  have hls₁ := hnamed hls
  have hlisted : ∀ q, q ≠ "" → (q ∈ ls₁.poolCells.rows.map Prod.fst ↔ (ls₁.cellAt q).isSome = true) := by
    intro q hq
    rw [LaneState.cellAt, if_neg hq, List.mem_map, Option.isSome_iff_exists]
    constructor
    · rintro ⟨⟨q', c⟩, hm, rfl⟩
      exact ⟨c, Table.lookup_eq_some.2 hm⟩
    · rintro ⟨c, hc⟩
      exact ⟨(q, c), Table.lookup_eq_some.1 hc, rfl⟩
  set t₁ : RecoverThread := ⟨now, .list, ls₁.poolCells.rows.map Prod.fst⟩
  have ho : t₁.Ordered := ⟨RecoverThread.names_nodup ls₁, RecoverThread.names_named hls₁, fun _ h => by cases h⟩
  have hne : ∀ q ∈ t₁.rest, q ≠ "" := fun q hq e => ho.named (e ▸ hq)
  obtain ⟨t', ls', hrest, hdone, hfinal⟩ := alone_rest ho ls₁ fun q hq => (hlisted q (hne q hq)).1 hq
  refine ⟨⟨t', ls'⟩, hvisit.trans (.step hrest), hdone, fun q => ?_⟩
  rw [LaneState.recoverLane, LaneState.cellAt_mapCells]
  dsimp only
  rw [hfinal q, hcells q]
  by_cases hq : "" = q
  · subst hq
    rw [if_neg ho.named, if_pos rfl, hdefault]
    rfl
  · rw [if_neg hq]
    have hat : ls₁.cellAt q = ls.cellAt q := by rw [hcells q, if_neg hq]
    split
    · rfl
    · -- a pool that is not listed has no cell
      rename_i hunlisted
      have hnone : ls.cellAt q = none := by
        rw [← hat]
        rw [show t₁.rest = ls₁.poolCells.rows.map Prod.fst from rfl, hlisted q (Ne.symm hq)] at hunlisted
        simpa using hunlisted
      rw [hnone]
      rfl

end Recovery

end Busbar
