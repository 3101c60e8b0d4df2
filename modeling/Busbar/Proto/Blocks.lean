import Busbar.Lib.Brackets
import Busbar.Proto.Course
import Mathlib.Data.Finset.Dedup

/-!
# Content blocks

The translator keeps the indices of the blocks it has started and not stopped, and stops them itself ahead of a
terminal event and at the end of the stream. Otherwise a block event goes to the writer as the reader gave it.

* `Course.step_blocks`: the brackets of one event, read by the monitor.
* `StreamTranslate.blocks_close_once`: every block is closed, and once where the reader keeps its own events in order.
-/

namespace Busbar

variable {D W : Type}

/-! ## Brackets of a stream -/

def IrStreamEvent.bracket : IrStreamEvent → Bracket Nat
  | blockStart index _ => .opens index
  | blockDelta index _ => .inside index
  | blockStop index => .closes index
  | messageDelta (some _) _ _ | messageStop => .seals
  | _ => .other

def Emission.bracket : Emission → Bracket Nat
  | event ev => ev.bracket
  | _ => .other

/-- Whether the terminal delta waits for the end of the stream. -/
def Ending.isFolding : Ending → Bool
  | folds => true
  | _ => false

/-- What is open behind the reader's events, and whether a terminal delta waits. -/
structure BlockReading where
  blocks : Brackets Nat
  waits : Bool

namespace BlockReading

def start : BlockReading := ⟨Brackets.start, false⟩

/-- A terminal event closes what is open, and seals the stream unless its frame waits. -/
def next (folding strict : Bool) (r : BlockReading) (ev : IrStreamEvent) : Option BlockReading :=
  match ev with
  | .messageDelta (some _) _ _ => some ⟨⟨∅, r.blocks.isSealed || !folding⟩, r.waits || folding⟩
  | .messageStop => some ⟨⟨∅, r.blocks.isSealed || !r.waits⟩, r.waits⟩
  | ev => (r.blocks.step strict ev.bracket).map fun blocks => ⟨blocks, r.waits⟩

def run (folding strict : Bool) (r : BlockReading) : List IrStreamEvent → Option BlockReading
  | [] => some r
  | ev :: evs => (r.next folding strict ev).bind fun r => run folding strict r evs

theorem next_remapEvent (folding strict : Bool) (r : BlockReading) (name : String) (ev : IrStreamEvent) :
    r.next folding strict (remapEvent name ev) = r.next folding strict ev := by
  unfold remapEvent
  split <;> rfl

/-- Without a check of the order nothing is refused. -/
theorem run_lenient (folding : Bool) (r : BlockReading) (evs : List IrStreamEvent) :
    ∃ r', r.run folding false evs = some r' := by
  induction evs generalizing r with
  | nil => exact ⟨r, rfl⟩
  | cons ev evs ih =>
    have hnext : ∃ r', r.next folding false ev = some r' := by
      cases ev with
      | messageDelta stopReason => cases stopReason <;> exact ⟨_, rfl⟩
      | _ => exact ⟨_, rfl⟩
    obtain ⟨r₁, h₁⟩ := hnext
    obtain ⟨r', h'⟩ := ih r₁
    exact ⟨r', by simp only [run, h₁, Option.bind_some, h']⟩

end BlockReading

namespace Translator

theorem mem_insertSorted {i j : Nat} {js : List Nat} : j ∈ insertSorted i js ↔ j = i ∨ j ∈ js := by
  induction js with
  | nil => simp [insertSorted]
  | cons k ks ih =>
    unfold insertSorted
    split
    · simp
    split
    · rename_i hik
      subst hik
      simp
    · rw [List.mem_cons, ih, List.mem_cons]
      tauto

theorem perm_insertSorted {i : Nat} {js : List Nat} (h : i ∉ js) : (insertSorted i js).Perm (i :: js) := by
  induction js with
  | nil => exact List.Perm.refl _
  | cons k ks ih =>
    obtain ⟨hne, hks⟩ := not_or.1 (fun hmem => h (List.mem_cons.2 hmem))
    unfold insertSorted
    rw [if_neg hne]
    split
    · exact List.Perm.refl _
    · exact ((ih hks).cons k).trans (List.Perm.swap i k ks)

theorem sorted_insertSorted {i : Nat} {js : List Nat} (h : js.Pairwise (· < ·)) :
    (insertSorted i js).Pairwise (· < ·) := by
  induction js with
  | nil => simp [insertSorted]
  | cons k ks ih =>
    obtain ⟨hk, hks⟩ := List.pairwise_cons.1 h
    unfold insertSorted
    split
    · rename_i hik
      refine List.pairwise_cons.2 ⟨fun j hj => ?_, h⟩
      rcases List.mem_cons.1 hj with rfl | hj
      · exact hik
      · exact hik.trans (hk j hj)
    split
    · exact h
    · refine List.pairwise_cons.2 ⟨fun j hj => ?_, ih hks⟩
      rcases mem_insertSorted.1 hj with rfl | hj
      · omega
      · exact hk j hj

end Translator

namespace Course

variable {strict : Bool}

/-- The course and the monitor have the same blocks open. -/
structure Holds (c : Course) (m : Brackets Nat) : Prop where
  sorted : c.openBlocks.Pairwise (· < ·)
  held : m.held = c.openBlocks.toFinset

theorem Holds.track {c : Course} {m : Brackets Nat} (h : c.Holds m) (ev : IrStreamEvent) :
    (c.track ev).Holds (m.after ev.bracket) := by
  cases ev with
  | blockStart index block =>
    refine ⟨Translator.sorted_insertSorted h.sorted, ?_⟩
    ext j
    simp [Brackets.after, IrStreamEvent.bracket, Course.track, h.held, Translator.mem_insertSorted]
  | blockStop index =>
    refine ⟨h.sorted.filter _, ?_⟩
    ext j
    simp [Brackets.after, IrStreamEvent.bracket, Course.track, h.held, and_comm]
  | messageDelta stopReason => cases stopReason <;> exact ⟨h.sorted, h.held⟩
  | _ => exact ⟨h.sorted, h.held⟩

/-- Events handed to the writer, read by the monitor. -/
theorem Holds.emit {c : Course} {m m' : Brackets Nat} (h : c.Holds m) {evs : List IrStreamEvent}
    (hrun : m.run strict (evs.map IrStreamEvent.bracket) = some m') : (c.emit evs).1.Holds m' := by
  induction evs generalizing c m with
  | nil =>
    cases hrun
    exact h
  | cons ev evs ih =>
    obtain ⟨-, hrun⟩ := Brackets.run_cons.1 hrun
    exact ih (h.track ev) hrun

theorem brackets_emit (c : Course) (evs : List IrStreamEvent) :
    (c.emit evs).2.map Emission.bracket = evs.map IrStreamEvent.bracket := by
  simp only [Course.emit, List.map_map]
  rfl

/-- Behind a close nothing is open. -/
theorem Holds.close {c : Course} {m : Brackets Nat} (h : c.Holds m)
    (hs : strict = true → m.isSealed = true → m.held = ∅) :
    c.close.1.Holds ⟨∅, m.isSealed⟩ ∧
      m.run strict (c.close.2.map Emission.bracket) = some ⟨∅, m.isSealed⟩ := by
  have hnodup : c.openBlocks.Nodup := h.sorted.imp fun hlt => Nat.ne_of_lt hlt
  have hrun : m.run strict (c.openBlocks.map .closes) = some ⟨∅, m.isSealed⟩ :=
    Brackets.run_closes hnodup h.held fun hst hseal => by
      have hempty := hs hst hseal
      rw [h.held] at hempty
      exact List.toFinset_eq_empty_iff _ |>.1 hempty
  refine ⟨⟨?_, ?_⟩, ?_⟩
  · rw [close_openBlocks]
    exact List.Pairwise.nil
  · rw [close_openBlocks]
    rfl
  · rw [Course.close, brackets_emit, List.map_map]
    exact hrun

/-- The state of the course, of its reading and of the monitor. -/
structure Tracks (strict : Bool) (c : Course) (r : BlockReading) (m : Brackets Nat) : Prop where
  holds : c.Holds m
  read : r.blocks.held = m.held
  hasSeal : m.isSealed = true → r.blocks.isSealed = true
  stopped : c.messageStopped = true → r.blocks.isSealed = true
  empty : strict = true → m.isSealed = true → m.held = ∅
  waits : r.waits = c.pendingTerminal.isSome
  folding : c.pendingTerminal.isSome = true → c.ending.isFolding = true

/-- Only blocks, the stop mark, the ending and the waiting delta matter. -/
theorem Tracks.congr {c c' : Course} {r : BlockReading} {m : Brackets Nat} (h : Tracks strict c r m)
    (hopen : c'.openBlocks = c.openBlocks) (hstop : c'.messageStopped = c.messageStopped)
    (hpend : c'.pendingTerminal.isSome = c.pendingTerminal.isSome) (hend : c'.ending.isFolding = c.ending.isFolding) :
    Tracks strict c' r m := by
  refine ⟨⟨?_, ?_⟩, h.read, h.hasSeal, ?_, h.empty, ?_, ?_⟩
  · rw [hopen]
    exact h.holds.sorted
  · rw [hopen]
    exact h.holds.held
  · rw [hstop]
    exact h.stopped
  · rw [hpend]
    exact h.waits
  · rw [hpend, hend]
    exact h.folding

/-- What the reading allows, the monitor does. -/
theorem Tracks.allows {c : Course} {r : BlockReading} {m : Brackets Nat} (h : Tracks strict c r m)
    {b : Bracket Nat} (hb : r.blocks.allows strict b = true) : m.allows strict b = true := by
  have hopen : strict = true → r.blocks.isSealed = false → m.isSealed = false := fun _ hr => by
    by_contra hne
    have := h.hasSeal (by simpa using hne)
    rw [hr] at this
    cases this
  have hread := h.read
  cases hst : strict with
  | false =>
    rw [hst] at hb
    cases b with
    | seals => simpa [Brackets.allows, hread] using hb
    | _ => rfl
  | true =>
    rw [hst] at hb
    cases b with
    | seals => simpa [Brackets.allows, hread] using hb
    | other => rfl
    | _ =>
      simp only [Brackets.allows, Bool.not_true, Bool.false_or, Bool.and_eq_true, Bool.not_eq_true',
        decide_eq_true_eq, hread] at hb ⊢
      exact ⟨hopen hst hb.1, hb.2⟩

/-- A block event goes out, and moves the reading and the monitor alike. -/
theorem Tracks.after {c c' : Course} {r : BlockReading} {m : Brackets Nat} (h : Tracks strict c r m)
    {ev : IrStreamEvent} (hb : r.blocks.allows strict ev.bracket = true) (hseal : ev.bracket ≠ .seals)
    (hc : c' = c.track ev) : Tracks strict c' ⟨r.blocks.after ev.bracket, r.waits⟩ (m.after ev.bracket) := by
  have hkeep : ∀ s : Brackets Nat, (s.after ev.bracket).isSealed = s.isSealed := fun s => by
    cases hev : ev.bracket with
    | seals => exact absurd hev hseal
    | _ => rfl
  have hsame : c'.messageStopped = c.messageStopped ∧ c'.pendingTerminal = c.pendingTerminal ∧
      c'.ending = c.ending := by
    rw [hc]
    cases ev <;> exact ⟨rfl, rfl, rfl⟩
  refine ⟨?_, ?_, ?_, ?_, ?_, ?_, ?_⟩
  · rw [hc]
    exact h.holds.track ev
  · have hread := h.read
    cases hev : ev.bracket <;> simp [Brackets.after, hread]
  · simp only [hkeep]
    exact h.hasSeal
  · simp only [hkeep, hsame.1]
    exact h.stopped
  · intro hst hsealed
    rw [hkeep] at hsealed
    have hempty := h.empty hst hsealed
    have hm := h.allows hb
    cases hev : ev.bracket with
    | seals => exact absurd hev hseal
    | other => exact hempty
    | _ =>
      rw [hev] at hm
      simp [Brackets.allows, hst, hsealed] at hm
  · rw [hsame.2.1]
    exact h.waits
  · rw [hsame.2.1, hsame.2.2]
    exact h.folding

variable {cfg : StreamConfig D W}

/-- The pieces of a fanned-out citation are deltas of its block. -/
theorem citationFanOut_bracket {ev : IrStreamEvent} {events : List IrStreamEvent}
    (h : Translator.citationFanOut cfg ev = some events) :
    ∃ index, ev.bracket = .inside index ∧ ∀ e ∈ events, ∃ delta, e = .blockDelta index delta := by
  unfold Translator.citationFanOut at h
  split at h
  · split at h
    · cases h
      refine ⟨_, rfl, fun e he => ?_⟩
      obtain ⟨group, -, rfl⟩ := List.mem_map.1 he
      exact ⟨_, rfl⟩
    · cases h
  · cases h

theorem emit_deltas (c : Course) {evs : List IrStreamEvent} {index : Nat}
    (h : ∀ e ∈ evs, ∃ delta, e = .blockDelta index delta) : (c.emit evs).1 = c := by
  induction evs with
  | nil => rfl
  | cons ev evs ih =>
    obtain ⟨delta, rfl⟩ := h ev List.mem_cons_self
    exact ih fun e he => h e (List.mem_cons_of_mem _ he)

theorem run_deltas {m : Brackets Nat} {evs : List IrStreamEvent} {index : Nat}
    (hm : m.allows strict (.inside index) = true) (h : ∀ e ∈ evs, ∃ delta, e = .blockDelta index delta) :
    m.run strict (evs.map IrStreamEvent.bracket) = some m := by
  induction evs with
  | nil => rfl
  | cons ev evs ih =>
    obtain ⟨delta, rfl⟩ := h ev List.mem_cons_self
    exact Brackets.run_cons.2 ⟨hm, ih fun e he => h e (List.mem_cons_of_mem _ he)⟩

theorem run_singleton {m : Brackets Nat} {b : Bracket Nat} (hb : m.allows strict b = true) :
    m.run strict [b] = some (m.after b) := Brackets.run_cons.2 ⟨hb, rfl⟩

/-- An event that ends nothing goes out as it is, or in pieces. -/
theorem plain_blocks {c : Course} {r : BlockReading} {m : Brackets Nat} (h : Tracks strict c r m) {ev : IrStreamEvent}
    (hd : Translator.isDelta ev = false) (hseal : ev.bracket ≠ .seals)
    (hb : r.blocks.allows strict ev.bracket = true) :
    ∃ m', m.run strict ((c.plain cfg ev).2.map Emission.bracket) = some m' ∧
      Tracks strict (c.plain cfg ev).1 ⟨r.blocks.after ev.bracket, r.waits⟩ m' := by
  have hm := h.allows hb
  unfold plain
  rw [hd, Bool.and_false, if_neg Bool.false_ne_true]
  cases hfan : Translator.citationFanOut cfg ev with
  | some events =>
    obtain ⟨index, hev, hpieces⟩ := citationFanOut_bracket hfan
    rw [hev] at hm ⊢
    have hrun := run_deltas hm hpieces
    rw [← brackets_emit c] at hrun
    have htracks : Tracks strict (c.emit events).1 r m := by
      rw [emit_deltas c hpieces]
      exact h
    cases ev with
    | messageStop => exact absurd rfl hseal
    | _ => exact ⟨m, hrun, htracks⟩
  | none =>
    have hrun := run_singleton hm
    cases ev with
    | messageStop => exact absurd rfl hseal
    | messageStart =>
      refine ⟨m, ?_, h.after hb hseal rfl⟩
      dsimp only
      split <;> rfl
    | _ => exact ⟨_, hrun, h.after hb hseal rfl⟩

variable (cfg) in
/-- A bare message stop seals the stream, unless a terminal delta waits for it. -/
theorem messageStop_blocks {c : Course} {r : BlockReading} {m : Brackets Nat} (h : Tracks strict c r m)
    (hempty : m.held = ∅) :
    ∃ m', m.run strict ((c.answer cfg .messageStop).2.map Emission.bracket) = some m' ∧
      Tracks strict (c.answer cfg .messageStop).1 ⟨⟨∅, r.blocks.isSealed || !r.waits⟩, r.waits⟩ m' := by
  have hread : r.blocks.held = ∅ := h.read.trans hempty
  have hfan : Translator.citationFanOut cfg .messageStop = none := by
    unfold Translator.citationFanOut
    split <;> simp_all
  have hplain : c.plain cfg .messageStop = ({ c with messageStopped := true }, [.event .messageStop]) := by
    simp only [plain, hfan, Translator.isDelta, Bool.and_false, Bool.false_eq_true, if_false]
    rfl
  cases hp : c.pendingTerminal with
  | some p =>
    obtain ⟨reason, seq, acc⟩ := p
    have hwaits : r.waits = true := by rw [h.waits, hp]; rfl
    have hfold : c.ending = .folds := by
      have := h.folding (by rw [hp]; rfl)
      cases he : c.ending with
      | folds => rfl
      | _ =>
        rw [he] at this
        cases this
    have hans : c.answer cfg .messageStop = ({ c with pendingStop := true }, []) := by
      simp only [answer, hfold, hp]
    rw [hans, hwaits, Bool.not_true, Bool.or_false, ← hread]
    have htracks : Tracks strict { c with pendingStop := true } r m := h.congr rfl rfl rfl rfl
    rw [show (⟨⟨r.blocks.held, r.blocks.isSealed⟩, true⟩ : BlockReading) = r from by rw [← hwaits]]
    exact ⟨m, rfl, htracks⟩
  | none =>
    have hwaits : r.waits = false := by rw [h.waits, hp]; rfl
    have hans : c.answer cfg .messageStop = c.plain cfg .messageStop := by
      simp only [answer, hp]
      cases c.ending <;> rfl
    rw [hans, hplain, hwaits, Bool.not_false, Bool.or_true]
    have hm : m.allows strict .seals = true := by simp [Brackets.allows, hempty]
    refine ⟨m.after .seals, run_singleton hm, ⟨h.holds.sorted, h.holds.held⟩, ?_, fun _ => rfl, fun _ => rfl,
      fun _ _ => hempty, ?_, ?_⟩
    · exact hempty.symm
    · rw [hp]
      rfl
    · rw [hp]
      intro h
      cases h

theorem plain_delta (c : Course) (stopReason : Option IrStopReason) (seq : Option String) (usage : IrUsage) :
    c.plain cfg (.messageDelta stopReason seq usage) =
      if c.messageStopped then (c, []) else (c, [.event (.messageDelta stopReason seq usage)]) := by
  have hfan : Translator.citationFanOut cfg (.messageDelta stopReason seq usage) = none := by
    unfold Translator.citationFanOut
    split <;> simp_all
  simp only [plain, hfan, Translator.isDelta, Bool.and_true]
  split <;> rfl

variable (cfg) in
/-- The terminal delta seals the stream where it goes out at once. -/
theorem stop_blocks {c : Course} {r : BlockReading} {m : Brackets Nat} (h : Tracks strict c r m) (hempty : m.held = ∅)
    (reason : IrStopReason) (seq : Option String) (usage : IrUsage) :
    let did := c.answer cfg (.messageDelta (some reason) seq usage)
    ∃ m', m.run strict (did.2.map Emission.bracket) = some m' ∧
      Tracks strict did.1 ⟨⟨∅, r.blocks.isSealed || !c.ending.isFolding⟩, r.waits || c.ending.isFolding⟩ m' := by
  have hread : r.blocks.held = ∅ := h.read.trans hempty
  have hm : m.allows strict .seals = true := by simp [Brackets.allows, hempty]
  have hholds : ∀ c' : Course, c'.openBlocks = c.openBlocks → c'.Holds ⟨m.held, true⟩ := fun c' hc =>
    ⟨by rw [hc]; exact h.holds.sorted, by rw [hc]; exact h.holds.held⟩
  -- a seal on a framing that has none waiting
  have hsealed : ∀ c' : Course, c'.openBlocks = c.openBlocks → c'.pendingTerminal = c.pendingTerminal →
      c'.ending.isFolding = c.ending.isFolding → c.ending.isFolding = false →
      Tracks strict c' ⟨⟨∅, true⟩, r.waits⟩ (m.after .seals) := by
    intro c' hopen hpend hend hfold
    refine ⟨hholds c' hopen, hempty.symm, fun _ => rfl, fun _ => rfl, fun _ _ => hempty, ?_, ?_⟩
    · rw [hpend]
      exact h.waits
    · rw [hpend, hend]
      exact h.folding
  cases hend : c.ending with
  | folds =>
    have hwait : ∀ p, Tracks strict { c with pendingTerminal := some p } ⟨⟨∅, r.blocks.isSealed⟩, true⟩ m := by
      intro p
      refine ⟨⟨h.holds.sorted, h.holds.held⟩, hempty.symm, h.hasSeal, h.stopped, h.empty, rfl, fun _ => ?_⟩
      simp only [hend, Ending.isFolding]
    simp only [Ending.isFolding, Bool.not_true, Bool.or_false, Bool.or_true]
    cases hp : c.pendingTerminal with
    | some p =>
      obtain ⟨reason', seq', acc⟩ := p
      have hans : c.answer cfg (.messageDelta (some reason) seq usage) =
          ({ c with pendingTerminal := some (reason', seq', mergeTrailingUsage acc usage) }, []) := by
        simp only [answer, hend, hp]
      rw [hans]
      exact ⟨m, rfl, hwait _⟩
    | none =>
      have hans : c.answer cfg (.messageDelta (some reason) seq usage) =
          ({ c with pendingTerminal := some (reason, seq, usage) }, []) := by
        simp only [answer, hend, hp]
      rw [hans]
      exact ⟨m, rfl, hwait _⟩
  | plain =>
    have hfold : c.ending.isFolding = false := by rw [hend]; rfl
    have hans : c.answer cfg (.messageDelta (some reason) seq usage) =
        c.plain cfg (.messageDelta (some reason) seq usage) := by
      simp only [answer, hend]
    rw [hans, plain_delta]
    simp only [Ending.isFolding, Bool.not_false, Bool.or_true, Bool.or_false]
    by_cases hstop : c.messageStopped = true
    · rw [if_pos hstop]
      have hr : (⟨⟨∅, true⟩, r.waits⟩ : BlockReading) = r := by
        rw [← hread, ← h.stopped hstop]
      rw [hr]
      exact ⟨m, rfl, h⟩
    · rw [if_neg hstop]
      exact ⟨_, run_singleton hm, hsealed c rfl rfl rfl hfold⟩
  | metadata fr =>
    have hfold : c.ending.isFolding = false := by rw [hend]; rfl
    have hans : c.answer cfg (.messageDelta (some reason) seq usage) =
        ({ c with ending := .metadata (fr.onCombinedStopDelta reason seq usage).2 } : Course).emit
          (fr.onCombinedStopDelta reason seq usage).1 := by
      simp only [answer, hend]
    rw [hans]
    dsimp only
    rw [brackets_emit]
    simp only [Ending.isFolding, Bool.not_false, Bool.or_true, Bool.or_false]
    unfold BedrockStreamFraming.onCombinedStopDelta
    split
    · exact ⟨_, run_singleton hm, hsealed _ rfl rfl (by rw [hend]; rfl) hfold⟩
    split
    · have hrun : m.run strict [.seals, .other] = some (m.after .seals) :=
        Brackets.run_cons.2 ⟨hm, run_singleton rfl⟩
      exact ⟨_, hrun, hsealed _ rfl rfl (by rw [hend]; rfl) hfold⟩
    · exact ⟨_, run_singleton hm, hsealed _ rfl rfl (by rw [hend]; rfl) hfold⟩

/-- Usage without a stop is no bracket. -/
theorem usage_blocks {c : Course} {r : BlockReading} {m : Brackets Nat} (h : Tracks strict c r m)
    (seq : Option String) (usage : IrUsage) :
    let did := c.answer cfg (.messageDelta none seq usage)
    m.run strict (did.2.map Emission.bracket) = some m ∧ Tracks strict did.1 r m := by
  have hplain : m.run strict ((c.plain cfg (.messageDelta none seq usage)).2.map Emission.bracket) = some m ∧
      Tracks strict (c.plain cfg (.messageDelta none seq usage)).1 r m := by
    rw [plain_delta]
    split
    · exact ⟨rfl, h⟩
    · exact ⟨run_singleton rfl, h⟩
  cases hend : c.ending with
  | folds =>
    cases hp : c.pendingTerminal with
    | some p =>
      obtain ⟨reason, seq', acc⟩ := p
      have hans : c.answer cfg (.messageDelta none seq usage) =
          ({ c with pendingTerminal := some (reason, seq', mergeTrailingUsage acc usage) }, []) := by
        simp only [answer, hend, hp]
      rw [hans]
      exact ⟨rfl, h.congr rfl rfl (by rw [hp]; rfl) rfl⟩
    | none =>
      have hans : c.answer cfg (.messageDelta none seq usage) = c.plain cfg (.messageDelta none seq usage) := by
        simp only [answer, hend, hp]
      rw [hans]
      exact hplain
  | plain =>
    have hans : c.answer cfg (.messageDelta none seq usage) = c.plain cfg (.messageDelta none seq usage) := by
      simp only [answer, hend]
    rw [hans]
    exact hplain
  | metadata fr =>
    simp only [answer, hend]
    split
    · exact ⟨run_singleton rfl, h.congr rfl rfl rfl (by rw [hend]; rfl)⟩
    · exact ⟨rfl, h.congr rfl rfl rfl (by rw [hend]; rfl)⟩

/-- A block event is read by the monitor as it is read by the reading. -/
theorem BlockReading.next_block {folding : Bool} {r r' : BlockReading} {ev : IrStreamEvent}
    (ht : Translator.isTerminal ev = false) (h : r.next folding strict ev = some r') :
    r.blocks.allows strict ev.bracket = true ∧ ev.bracket ≠ .seals ∧ r' = ⟨r.blocks.after ev.bracket, r.waits⟩ := by
  have hnext : r.next folding strict ev = (r.blocks.step strict ev.bracket).map fun blocks => ⟨blocks, r.waits⟩ := by
    cases ev with
    | messageDelta stopReason =>
      cases stopReason with
      | none => rfl
      | some => simp [Translator.isTerminal] at ht
    | messageStop => simp [Translator.isTerminal] at ht
    | _ => rfl
  have hseal : ev.bracket ≠ .seals := by
    cases ev with
    | messageDelta stopReason =>
      cases stopReason with
      | none => nofun
      | some => simp [Translator.isTerminal] at ht
    | messageStop => simp [Translator.isTerminal] at ht
    | _ => nofun
  rw [hnext, Option.map_eq_some_iff] at h
  obtain ⟨blocks, hstep, rfl⟩ := h
  obtain ⟨hallows, rfl⟩ := Brackets.step_eq_some.1 hstep
  exact ⟨hallows, hseal, rfl⟩

theorem answer_plain {c : Course} {ev : IrStreamEvent} (ht : Translator.isTerminal ev = false)
    (hd : Translator.isDelta ev = false) : c.answer cfg ev = c.plain cfg ev := by
  cases ev with
  | messageDelta => simp [Translator.isDelta] at hd
  | messageStop => simp [Translator.isTerminal] at ht
  | _ =>
    simp only [answer]
    cases c.ending <;> rfl

/-- An event that ends nothing, behind the framing. -/
theorem answer_blocks {c : Course} {r r' : BlockReading} {m : Brackets Nat} (h : Tracks strict c r m)
    {ev : IrStreamEvent} (ht : Translator.isTerminal ev = false)
    (hr : r.next c.ending.isFolding strict ev = some r') :
    ∃ m', m.run strict ((c.answer cfg ev).2.map Emission.bracket) = some m' ∧
      Tracks strict (c.answer cfg ev).1 r' m' := by
  obtain ⟨hallows, hseal, rfl⟩ := BlockReading.next_block ht hr
  by_cases hd : Translator.isDelta ev = true
  · cases ev with
    | messageDelta stopReason seq usage =>
      cases stopReason with
      | some reason => simp [Translator.isTerminal] at ht
      | none => exact ⟨m, usage_blocks h seq usage⟩
    | _ => simp [Translator.isDelta] at hd
  · have hd : Translator.isDelta ev = false := by simpa using hd
    rw [answer_plain ht hd]
    exact plain_blocks h hd hseal hallows

/-- A terminal event, with every block closed ahead of it. -/
theorem terminal_blocks {c : Course} {r r' : BlockReading} {m : Brackets Nat} (h : Tracks strict c r m)
    {ev : IrStreamEvent} (ht : Translator.isTerminal ev = true)
    (hr : r.next c.ending.isFolding strict ev = some r') :
    ∃ m', m.run strict ((c.close.2 ++ (c.close.1.answer cfg ev).2).map Emission.bracket) = some m' ∧
      Tracks strict (c.close.1.answer cfg ev).1 r' m' := by
  obtain ⟨hholds, hclose⟩ := h.holds.close h.empty
  have hsame : c.close.1.messageStopped = c.messageStopped ∧ c.close.1.pendingTerminal = c.pendingTerminal ∧
      c.close.1.ending = c.ending := by
    have hfold : ∀ (is : List Nat) (c : Course),
        ((is.map IrStreamEvent.blockStop).foldl track c).messageStopped = c.messageStopped ∧
        ((is.map IrStreamEvent.blockStop).foldl track c).pendingTerminal = c.pendingTerminal ∧
        ((is.map IrStreamEvent.blockStop).foldl track c).ending = c.ending := by
      intro is
      induction is with
      | nil => exact fun c => ⟨rfl, rfl, rfl⟩
      | cons i is ih => exact fun c => ih (c.track (.blockStop i))
    exact hfold c.openBlocks { c with openBlocks := [] }
  have htracks : Tracks strict c.close.1 ⟨⟨∅, r.blocks.isSealed⟩, r.waits⟩ ⟨∅, m.isSealed⟩ := by
    refine ⟨hholds, rfl, h.hasSeal, ?_, fun _ _ => rfl, ?_, ?_⟩
    · rw [hsame.1]
      exact h.stopped
    · rw [hsame.2.1]
      exact h.waits
    · rw [hsame.2.1, hsame.2.2]
      exact h.folding
  suffices hans : ∃ m', (⟨∅, m.isSealed⟩ : Brackets Nat).run strict
      ((c.close.1.answer cfg ev).2.map Emission.bracket) = some m' ∧
        Tracks strict (c.close.1.answer cfg ev).1 r' m' by
    obtain ⟨m', hrun, htr⟩ := hans
    refine ⟨m', ?_, htr⟩
    rw [List.map_append]
    exact Brackets.run_append.2 ⟨_, hclose, hrun⟩
  cases ev with
  | messageDelta stopReason seq usage =>
    cases stopReason with
    | none => simp [Translator.isTerminal] at ht
    | some reason =>
      obtain ⟨m', hrun, htr⟩ := stop_blocks cfg htracks rfl reason seq usage
      rw [hsame.2.2] at htr
      cases hr
      exact ⟨m', hrun, htr⟩
  | messageStop =>
    obtain ⟨m', hrun, htr⟩ := messageStop_blocks cfg htracks rfl
    cases hr
    exact ⟨m', hrun, htr⟩
  | _ => simp [Translator.isTerminal] at ht

theorem observe_blocks {c : Course} {r : BlockReading} {m : Brackets Nat} (h : Tracks strict c r m)
    (folding : Bool) (ev : IrStreamEvent) :
    Tracks strict (c.observe ev).1 r m ∧ (c.observe ev).1.ending = c.ending ∧
      r.next folding strict (c.observe ev).2 = r.next folding strict ev := by
  cases ev with
  | messageDelta stopReason => cases stopReason <;> exact ⟨h.congr rfl rfl rfl rfl, rfl, rfl⟩
  | messageStart => exact ⟨h.congr rfl rfl rfl rfl, rfl, rfl⟩
  | _ => exact ⟨h, rfl, rfl⟩

variable (cfg) in
/-- **The brackets of one event, read by the monitor.** -/
theorem step_blocks {c : Course} {r r' : BlockReading} {m : Brackets Nat} (h : Tracks strict c r m)
    {ev : IrStreamEvent} (hr : r.next c.ending.isFolding strict ev = some r') :
    ∃ m', m.run strict ((c.step cfg ev).2.map Emission.bracket) = some m' ∧
      Tracks strict (c.step cfg ev).1 r' m' := by
  obtain ⟨hseen, hend, hnext⟩ := observe_blocks h c.ending.isFolding (remapEvent cfg.ingress.name ev)
  rw [BlockReading.next_remapEvent, hr, ← hend] at hnext
  unfold step
  generalize c.observe (remapEvent cfg.ingress.name ev) = seen at hseen hnext ⊢
  obtain ⟨c₁, ev₁⟩ := seen
  dsimp only at hseen hnext ⊢
  cases hexc : exception cfg ev₁ with
  | some p =>
    have hother : r.next c₁.ending.isFolding strict ev₁ = some r := by
      cases ev₁ <;> first | rfl | simp [exception] at hexc
    rw [hother] at hnext
    cases hnext
    exact ⟨m, run_singleton rfl, hseen⟩
  | none =>
    dsimp only
    cases ht : Translator.isTerminal ev₁ with
    | true => exact terminal_blocks hseen ht hnext
    | false => exact answer_blocks hseen ht hnext

theorem plain_ending (c : Course) (ev : IrStreamEvent) : (c.plain cfg ev).1.ending = c.ending := by
  unfold plain
  split
  · rfl
  cases Translator.citationFanOut cfg ev with
  | some events => cases ev <;> exact emit_ending _ events
  | none => cases ev <;> rfl

variable (cfg) in
theorem answer_isFolding (c : Course) (ev : IrStreamEvent) :
    (c.answer cfg ev).1.ending.isFolding = c.ending.isFolding := by
  have hplain : (c.plain cfg ev).1.ending.isFolding = c.ending.isFolding := by rw [plain_ending]
  unfold answer
  split
  · rename_i hend
    rw [emit_ending, hend]
    rfl
  · rename_i hend
    dsimp only
    split
    · rw [emit_ending, hend]
      rfl
    · rw [hend]
      rfl
  · rfl
  · rfl
  · rfl
  · rfl
  · exact hplain

variable (cfg) in
/-- No event changes the kind of the ending. -/
theorem step_isFolding (c : Course) (ev : IrStreamEvent) :
    (c.step cfg ev).1.ending.isFolding = c.ending.isFolding := by
  have hseen : ∀ ev, (c.observe ev).1.ending = c.ending := fun ev => by cases ev <;> rfl
  unfold step
  rw [← hseen (remapEvent cfg.ingress.name ev)]
  generalize c.observe (remapEvent cfg.ingress.name ev) = seen
  obtain ⟨c₁, ev₁⟩ := seen
  dsimp only
  cases exception cfg ev₁ with
  | some p => rfl
  | none =>
    dsimp only
    cases Translator.isTerminal ev₁ with
    | true =>
      have hclose : c₁.close.1.ending = c₁.ending := emit_ending _ _
      rw [← hclose]
      exact answer_isFolding cfg c₁.close.1 ev₁
    | false => exact answer_isFolding cfg c₁ ev₁

variable (cfg) in
theorem run_blocks {c : Course} {r r' : BlockReading} {m : Brackets Nat} (h : Tracks strict c r m)
    {evs : List IrStreamEvent} (hr : r.run c.ending.isFolding strict evs = some r') :
    ∃ m', m.run strict ((c.run cfg evs).2.map Emission.bracket) = some m' ∧
      Tracks strict (c.run cfg evs).1 r' m' := by
  induction evs generalizing c r m with
  | nil =>
    cases hr
    exact ⟨m, rfl, h⟩
  | cons ev evs ih =>
    simp only [BlockReading.run, Option.bind_eq_some_iff] at hr
    obtain ⟨r₁, hr₁, hr⟩ := hr
    obtain ⟨m₁, hm₁, h₁⟩ := step_blocks cfg h hr₁
    rw [← step_isFolding cfg c ev] at hr
    obtain ⟨m', hm', h'⟩ := ih h₁ hr
    refine ⟨m', ?_, h'⟩
    simp only [run, List.map_append]
    exact Brackets.run_append.2 ⟨m₁, hm₁, hm'⟩

variable (strict) in
/-- A stream with nothing open, asked for seals and other things only. -/
theorem run_seals {m : Brackets Nat} (hempty : m.held = ∅) {bs : List (Bracket Nat)}
    (h : ∀ b ∈ bs, b = .seals ∨ b = .other) : ∃ m', m.run strict bs = some m' ∧ m'.held = ∅ := by
  induction bs generalizing m with
  | nil => exact ⟨m, rfl, hempty⟩
  | cons b bs ih =>
    have hallows : m.allows strict b = true ∧ (m.after b).held = ∅ := by
      rcases h b List.mem_cons_self with rfl | rfl
      · exact ⟨by simp [Brackets.allows, hempty], hempty⟩
      · exact ⟨rfl, hempty⟩
    obtain ⟨m', hrun, hend⟩ := ih hallows.2 fun b hb => h b (List.mem_cons_of_mem _ hb)
    exact ⟨m', Brackets.run_cons.2 ⟨hallows.1, hrun⟩, hend⟩

/-- The end closes what is open, and brings nothing but terminal events behind it. -/
theorem finish_blocks {c : Course} {r : BlockReading} {m : Brackets Nat} (h : Tracks strict c r m) :
    ∃ m', m.run strict (c.finish.2.map Emission.bracket) = some m' ∧ m'.held = ∅ := by
  obtain ⟨-, hclose⟩ := h.holds.close h.empty
  have hout : ∃ behind, c.finish.2 = c.close.2 ++ behind ∧
      ∀ b ∈ behind.map Emission.bracket, b = .seals ∨ b = .other := by
    simp only [finish]
    refine ⟨_, List.append_assoc _ _ _, ?_⟩
    intro b hb
    rw [List.map_append, brackets_emit, brackets_emit] at hb
    rcases List.mem_append.1 hb with hb | hb
    · obtain ⟨ev, hev, rfl⟩ := List.mem_map.1 hb
      unfold owed at hev
      split at hev
      · rename_i fr _
        simp only [BedrockStreamFraming.onFinish] at hev
        split at hev
        · simp at hev
        · rw [Option.toList_some, List.mem_singleton] at hev
          rw [hev]
          exact Or.inr rfl
      · simp at hev
    · obtain ⟨ev, hev, rfl⟩ := List.mem_map.1 hb
      unfold pendingEvents at hev
      split at hev
      · rcases List.mem_cons.1 hev with rfl | hev
        · exact Or.inl rfl
        · split at hev
          · rw [List.mem_singleton] at hev
            rw [hev]
            exact Or.inl rfl
          · simp at hev
      · simp at hev
  obtain ⟨behind, hfinish, hbehind⟩ := hout
  obtain ⟨m', hrun, hempty⟩ := run_seals strict (m := ⟨∅, m.isSealed⟩) rfl hbehind
  refine ⟨m', ?_, hempty⟩
  rw [hfinish, List.map_append]
  exact Brackets.run_append.2 ⟨_, hclose, hrun⟩

end Course

namespace StreamTranslate

variable {protocolFor : String → Option (Protocol D W)} {initDecode : D} {initWriter : W} {ingress egress : String}
  {t₀ : StreamTranslate D W}

theorem new_tracks (strict : Bool) (hb : new protocolFor initDecode initWriter ingress egress = some t₀)
    (opted : Bool) :
    Course.Tracks strict (t₀.setClientIncludeUsage opted).course BlockReading.start Brackets.start := by
  unfold new at hb
  split at hb
  · cases hb
  simp only [build, Option.bind_eq_bind, Option.bind_eq_some_iff, Option.some.injEq] at hb
  obtain ⟨ingressProto, -, egressProto, -, rfl⟩ := hb
  exact ⟨⟨List.Pairwise.nil, rfl⟩, rfl, (fun h => by cases h), (fun h => by cases h), fun _ _ => rfl, rfl, (fun h => by cases h)⟩

theorem new_translates (hb : new protocolFor initDecode initWriter ingress egress = some t₀) (opted : Bool) :
    (t₀.setClientIncludeUsage opted).Fresh ∧ (t₀.setClientIncludeUsage opted).sameProto = false := by
  unfold new at hb
  split at hb
  · cases hb
  refine ⟨build_fresh hb opted, ?_⟩
  simp only [build, Option.bind_eq_bind, Option.bind_eq_some_iff, Option.some.injEq] at hb
  obtain ⟨ingressProto, -, egressProto, -, rfl⟩ := hb
  rfl

/-- The monitor accepts what is emitted, strictly where the reader keeps order. -/
theorem whole_blocks (strict : Bool) (hb : new protocolFor initDecode initWriter ingress egress = some t₀)
    (opted : Bool) {evs : List IrStreamEvent} {r : BlockReading} :
    let t := t₀.setClientIncludeUsage opted
    BlockReading.start.run t.course.ending.isFolding strict evs = some r →
    ∃ m, Brackets.start.run strict ((t.course.whole t.toStreamConfig evs false).map Emission.bracket) = some m ∧
      m.held = ∅ := by
  intro t hr
  obtain ⟨m, hrun, htracks⟩ := Course.run_blocks t.toStreamConfig (new_tracks strict hb opted) hr
  obtain ⟨m', hfinish, hempty⟩ := Course.finish_blocks htracks
  refine ⟨m', ?_, hempty⟩
  simp only [Course.whole, Bool.false_eq_true, if_false, List.map_append]
  exact Brackets.run_append.2 ⟨m, hrun, hfinish⟩

/-- **Every block is closed** ahead of the next terminal event, whatever the reader reads. Where the reader's own block
events are in order it is closed once, and nothing is said of a block that is not open. That is what goes out for a
stream in chunks. -/
theorem blocks_close_once (lib : WireLib) (elapsedMs : Nat)
    (hb : new protocolFor initDecode initWriter ingress egress = some t₀) (opted : Bool) :
    let t := t₀.setClientIncludeUsage opted
    (∀ evs,
      let blocks := (t.course.whole t.toStreamConfig evs false).map Emission.bracket
      Brackets.Closed blocks ∧
        ((BlockReading.start.run t.course.ending.isFolding true evs).isSome = true → Brackets.ClosedOnce blocks)) ∧
      ∀ chunks, (t.run lib elapsedMs chunks).1.aborted = false →
        ∃ fs done, fs <+: (t.framer.drain chunks.flatten).1 ∧
          (done = [] ∨ t.emitDone = true ∧ done = sseDoneFrame) ∧
          (t.run lib elapsedMs chunks).2 = (t.clientFrames (some elapsedMs) (t.readFrames lib t.decode fs)).flatMap
            (ClientFrame.bytes lib t.toStreamConfig) ++ done := by
  intro t
  refine ⟨fun evs => ⟨?_, fun hr => ?_⟩, fun chunks hlive => ?_⟩
  · obtain ⟨r, hr⟩ := BlockReading.run_lenient t.course.ending.isFolding BlockReading.start evs
    obtain ⟨m, hrun, hempty⟩ := whole_blocks false hb opted hr
    exact Brackets.closed hrun hempty
  · obtain ⟨r, hr⟩ := Option.isSome_iff_exists.1 hr
    obtain ⟨m, hrun, hempty⟩ := whole_blocks true hb opted hr
    exact Brackets.closedOnce hrun hempty
  · obtain ⟨hfresh, hx⟩ := new_translates hb opted
    obtain ⟨fs, done, hpre, hdone, hout, -⟩ := run_course lib elapsedMs hfresh hx chunks
    rw [hlive] at hout
    exact ⟨fs, done, hpre, hdone, hout⟩

section Witness

/-- Protocols that read and write nothing, and fold the usage into the terminal delta. -/
def foldingDialect (name : String) : Option (Protocol Unit Unit) := some { muteProtocol with name := name }

def foldingTranslator : StreamTranslate Unit Unit :=
  { muteTranslator false with egress := { muteProtocol with name := protoOpenAi } }

theorem new_foldingTranslator : new foldingDialect () () protoAnthropic protoOpenAi = some foldingTranslator := rfl

/-- A block that is stopped behind the stop. -/
def lateStop : List IrStreamEvent :=
  [.blockStart 0 .text, .messageDelta (some .endTurn) none .zero, .blockStop 0]

/-- A block that is stopped behind the stop is closed twice, and a delta goes out for a block that was never open. -/
theorem late_stop_closes_twice :
    (foldingTranslator.course.whole foldingTranslator.toStreamConfig lateStop false).map Emission.bracket =
        [.opens 0, .closes 0, .closes 0, .seals] ∧
      (foldingTranslator.course.whole foldingTranslator.toStreamConfig [.blockDelta 3 (.text "a")] false).map
        Emission.bracket = [.inside 3] := ⟨rfl, rfl⟩

theorem blocks_close_once_truncated :
    Brackets.ClosedOnce ((foldingTranslator.course.whole foldingTranslator.toStreamConfig
      [.blockStart 0 .text, .blockDelta 0 (.text "a")] false).map Emission.bracket) :=
  ((blocks_close_once muteLib 3 new_foldingTranslator false).1 _).2 rfl

end Witness

end StreamTranslate

end Busbar
