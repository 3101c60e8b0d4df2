import Busbar.Proto.Bedrock
import Busbar.Proto.Blocks

/-!
# The usage the client sees

The account of a stream is merged from every delta. The usage on the wire is the deferred terminal delta's, which the
deltas behind the stop are merged into, or the one that the metadata was taken from.

* `Course.Folded`: from the stop on, the deferred delta and the account are merged alike.
* `StreamTranslate.terminal_usage_is_billed`: the usage of the terminal frame is the one that is billed.
-/

namespace Busbar

variable {D W : Type} {cfg : StreamConfig D W}

namespace IrUsage

theorem merge_zero (u : IrUsage) : mergeTrailingUsage .zero u = u := by
  obtain ⟨input, output, creation, read⟩ := u
  simp only [mergeTrailingUsage, zero, Option.or_none, IrUsage.mk.injEq, and_true]
  refine ⟨?_, ?_⟩ <;> split <;> omega

/-- The counters, with those that are missing at zero. -/
def counts (u : IrUsage) : Nat × Nat × Nat × Nat :=
  (u.inputTokens, u.outputTokens, u.cacheCreationInputTokens.getD 0, u.cacheReadInputTokens.getD 0)

/-- What `v` reports `u` has reported. -/
structure Repeats (u v : IrUsage) : Prop where
  input : v.inputTokens = 0 ∨ v.inputTokens = u.inputTokens
  output : v.outputTokens = 0 ∨ v.outputTokens = u.outputTokens
  creation : v.cacheCreationInputTokens = none ∨
    v.cacheCreationInputTokens.getD 0 = u.cacheCreationInputTokens.getD 0
  read : v.cacheReadInputTokens = none ∨ v.cacheReadInputTokens.getD 0 = u.cacheReadInputTokens.getD 0

theorem counts_or {a b : Option Nat} {n : Nat} (hb : b.getD 0 = n) (h : a = none ∨ a.getD 0 = n) :
    (a.or b).getD 0 = n := by
  cases a with
  | none => exact hb
  | some x => simpa using h

/-- A usage that repeats another changes no count. -/
theorem Repeats.merge {u v acc : IrUsage} (h : u.Repeats v) (hacc : acc.counts = u.counts) :
    (mergeTrailingUsage acc v).counts = u.counts := by
  simp only [counts, Prod.mk.injEq] at hacc ⊢
  obtain ⟨h₁, h₂, h₃, h₄⟩ := hacc
  refine ⟨?_, ?_, counts_or h₃ h.creation, counts_or h₄ h.read⟩
  · simp only [mergeTrailingUsage]
    split
    · have := h.input
      omega
    · exact h₁
  · simp only [mergeTrailingUsage]
    split
    · have := h.output
      omega
    · exact h₂

theorem counts_of_not_real {u : IrUsage} (h : u.isReal = false) : u.counts = IrUsage.zero.counts := by
  simp only [isReal, Bool.or_eq_false_iff, decide_eq_false_iff_not, not_not] at h
  obtain ⟨⟨⟨hi, ho⟩, hr⟩, hc⟩ := h
  simp [counts, zero, hi, ho, hr, hc]

/-- A usage that reports nothing merges into nothing. -/
theorem merge_not_real {acc u : IrUsage} (hacc : acc.counts = IrUsage.zero.counts) (h : u.isReal = false) :
    (mergeTrailingUsage acc u).counts = IrUsage.zero.counts := by
  have hu := counts_of_not_real h
  simp only [counts, zero, Prod.mk.injEq] at hu
  obtain ⟨h₁, h₂, h₃, h₄⟩ := hu
  exact Repeats.merge ⟨Or.inl h₁, Or.inl h₂, Or.inr h₃, Or.inr h₄⟩ hacc

theorem merge_counts_of_zero {acc u : IrUsage} (hacc : acc.counts = IrUsage.zero.counts) :
    (mergeTrailingUsage acc u).counts = u.counts := by
  simp only [counts, zero, Prod.mk.injEq, Option.getD_none] at hacc
  obtain ⟨h₁, h₂, h₃, h₄⟩ := hacc
  have hor : ∀ a b : Option Nat, b.getD 0 = 0 → (a.or b).getD 0 = a.getD 0 := fun a b hb => by
    cases a with
    | none => exact hb
    | some x => rfl
  simp only [counts, mergeTrailingUsage, h₁, h₂, hor _ _ h₃, hor _ _ h₄, Prod.mk.injEq, and_true]
  refine ⟨?_, ?_⟩ <;> split <;> omega

end IrUsage

/-- What the deltas report, filled in from the start: whether it comes with a stop, and the usage. -/
def reports (start : Option IrUsage) : List IrStreamEvent → List (Bool × IrUsage)
  | [] => []
  | .messageStart _ usage _ _ _ :: evs => reports (usage.or start) evs
  | .messageDelta stopReason _ usage :: evs => (stopReason.isSome, usage.backfill start) :: reports start evs
  | _ :: evs => reports start evs

/-- Behind the report the metadata is taken from, the first without a stop or with something in it, there are only
repetitions. -/
def ReportsOnce : List (Bool × IrUsage) → Prop
  | [] => True
  | (stops, usage) :: rest =>
    if stops = true ∧ usage.isReal = false then ReportsOnce rest else ∀ r ∈ rest, usage.Repeats r.2

namespace Course

/-! ## The account -/

theorem emit_account (c : Course) (evs : List IrStreamEvent) : (c.emit evs).1.lastUsage = c.lastUsage ∧
    (c.emit evs).1.startUsage = c.startUsage ∧ (c.emit evs).1.pendingTerminal = c.pendingTerminal := by
  induction evs generalizing c with
  | nil => exact ⟨rfl, rfl, rfl⟩
  | cons ev evs ih =>
    have hhead : (c.track ev).lastUsage = c.lastUsage ∧ (c.track ev).startUsage = c.startUsage ∧
        (c.track ev).pendingTerminal = c.pendingTerminal := by
      cases ev <;> exact ⟨rfl, rfl, rfl⟩
    obtain ⟨h₁, h₂, h₃⟩ := ih (c.track ev)
    exact ⟨h₁.trans hhead.1, h₂.trans hhead.2.1, h₃.trans hhead.2.2⟩

variable (cfg) in
theorem plain_account (c : Course) (ev : IrStreamEvent) : (c.plain cfg ev).1.lastUsage = c.lastUsage ∧
    (c.plain cfg ev).1.startUsage = c.startUsage ∧ (c.plain cfg ev).1.pendingTerminal = c.pendingTerminal := by
  unfold plain
  split
  · exact ⟨rfl, rfl, rfl⟩
  cases Translator.citationFanOut cfg ev with
  | some events => cases ev <;> exact emit_account _ events
  | none => cases ev <;> exact ⟨rfl, rfl, rfl⟩

variable (cfg) in
theorem answer_account (c : Course) (ev : IrStreamEvent) : (c.answer cfg ev).1.lastUsage = c.lastUsage ∧
    (c.answer cfg ev).1.startUsage = c.startUsage := by
  have hplain := plain_account cfg c ev
  unfold answer
  split
  · obtain ⟨h₁, h₂, -⟩ := emit_account ({ c with ending := _ } : Course) _
    exact ⟨h₁, h₂⟩
  · dsimp only
    split <;> exact ⟨rfl, rfl⟩
  · exact ⟨rfl, rfl⟩
  · exact ⟨rfl, rfl⟩
  · exact ⟨rfl, rfl⟩
  · exact ⟨rfl, rfl⟩
  · exact ⟨hplain.1, hplain.2.1⟩

variable (cfg) in
/-- The account of a step is that of its event. -/
theorem step_account (c : Course) (ev : IrStreamEvent) :
    (c.step cfg ev).1.lastUsage = (c.observe (remapEvent cfg.ingress.name ev)).1.lastUsage ∧
      (c.step cfg ev).1.startUsage = (c.observe (remapEvent cfg.ingress.name ev)).1.startUsage := by
  unfold step
  generalize c.observe (remapEvent cfg.ingress.name ev) = seen
  obtain ⟨c₁, ev₁⟩ := seen
  dsimp only
  cases exception cfg ev₁ with
  | some p => exact ⟨rfl, rfl⟩
  | none =>
    dsimp only
    cases Translator.isTerminal ev₁ with
    | true =>
      obtain ⟨h₁, h₂⟩ := answer_account cfg c₁.close.1 ev₁
      obtain ⟨h₃, h₄, -⟩ := emit_account ({ c₁ with openBlocks := [] } : Course) (c₁.openBlocks.map .blockStop)
      exact ⟨h₁.trans h₃, h₂.trans h₄⟩
    | false => exact answer_account cfg c₁ ev₁

/-- The report of an event, if it is a delta. -/
def report (c : Course) : IrStreamEvent → List (Bool × IrUsage)
  | .messageDelta stopReason _ usage => [(stopReason.isSome, usage.backfill c.startUsage)]
  | _ => []

variable (cfg) in
theorem reports_cons (c : Course) (ev : IrStreamEvent) (evs : List IrStreamEvent) :
    reports c.startUsage (ev :: evs) = c.report ev ++ reports (c.step cfg ev).1.startUsage evs := by
  rw [(step_account cfg c ev).2]
  cases ev with
  | blockStart index block => cases block <;> rfl
  | _ => rfl

variable (cfg) in
/-- A report is merged into the account, and anything else leaves it alone. -/
theorem step_lastUsage (c : Course) (ev : IrStreamEvent) : (c.step cfg ev).1.lastUsage =
    (c.report ev).foldl (fun acc r => some (mergeTrailingUsage (acc.getD .zero) r.2)) c.lastUsage := by
  rw [(step_account cfg c ev).1]
  cases ev with
  | blockStart index block => cases block <;> rfl
  | _ => rfl

/-! ## The metadata -/

variable (cfg) in
/-- Once the metadata is out, repetitions leave the counts as they were sent. -/
theorem run_reported {c : Course} {fr : BedrockStreamFraming} (h : c.Metadata fr) (he : fr.emitted = true)
    {u : IrUsage} {evs : List IrStreamEvent} (hacc : (c.lastUsage.getD .zero).counts = u.counts)
    (hrep : ∀ r ∈ reports c.startUsage evs, u.Repeats r.2) :
    (((c.run cfg evs).1.lastUsage).getD .zero).counts = u.counts ∧ usages (c.run cfg evs).2 = 0 := by
  induction evs generalizing c fr with
  | nil => exact ⟨hacc, rfl⟩
  | cons ev evs ih =>
    obtain ⟨fr₁, h₁, hset, -⟩ := step_metadata cfg h ev
    have hu := hset.usages
    have he₁ : fr₁.emitted = true := by
      cases hfr : fr₁.emitted
      · rw [he, hfr] at hu
        simp at hu
      · rfl
    rw [reports_cons cfg c ev evs] at hrep
    have hacc₁ : (((c.step cfg ev).1.lastUsage).getD .zero).counts = u.counts := by
      rw [step_lastUsage]
      cases ev with
      | messageDelta stopReason seq usage =>
        exact (hrep _ (List.mem_append_left _ (List.mem_singleton.2 rfl))).merge hacc
      | _ => exact hacc
    obtain ⟨ihacc, ihu⟩ := ih h₁ he₁ hacc₁ fun r hr => hrep r (List.mem_append_right _ hr)
    refine ⟨ihacc, ?_⟩
    rw [he, he₁] at hu
    simp only [run, usages_append, ihu]
    omega

/-- The metadata that was sent agrees with the account, or none was sent and there is nothing in the account. -/
structure Agrees (c : Course) (sent : List Emission) : Prop where
  unsent : usages sent = 0 → (c.lastUsage.getD .zero).counts = IrUsage.zero.counts
  sent : ∀ seq u, .event (.messageDelta none seq u) ∈ sent → (c.lastUsage.getD .zero).counts = u.counts

theorem notMem_of_usages {ems : List Emission} (h : usages ems = 0) (seq : Option String) (u : IrUsage) :
    .event (.messageDelta none seq u) ∉ ems := fun hmem => by
  have := List.countP_eq_zero.1 h _ hmem
  exact this rfl

variable (cfg) in
theorem run_agrees {c : Course} {fr : BedrockStreamFraming} (h : c.Metadata fr) (he : fr.emitted = false)
    {evs : List IrStreamEvent} (hacc : (c.lastUsage.getD .zero).counts = IrUsage.zero.counts)
    (honce : ReportsOnce (reports c.startUsage evs)) : Agrees (c.run cfg evs).1 (c.run cfg evs).2 := by
  induction evs generalizing c fr with
  | nil => exact ⟨fun _ => hacc, fun _ _ hmem => by simp [run] at hmem⟩
  | cons ev evs ih =>
    obtain ⟨fr₁, h₁, hset, hsame⟩ := step_metadata cfg h ev
    have hu := hset.usages
    rw [reports_cons cfg c ev evs] at honce
    have hlast := step_lastUsage cfg c ev
    -- no metadata yet: the rest decides
    have hlater : fr₁.emitted = false → ((c.step cfg ev).1.lastUsage.getD .zero).counts = IrUsage.zero.counts →
        ReportsOnce (reports (c.step cfg ev).1.startUsage evs) → Agrees (c.run cfg (ev :: evs)).1
          (c.run cfg (ev :: evs)).2 := by
      intro he₁ hacc₁ honce₁
      obtain ⟨hun, hsent⟩ := ih h₁ he₁ hacc₁ honce₁
      have hzero : usages (c.step cfg ev).2 = 0 := by
        rw [he, he₁] at hu
        simpa using hu
      refine ⟨fun husages => hun ?_, fun seq u hmem => ?_⟩
      · simp only [run, usages_append, hzero, Nat.zero_add] at husages
        exact husages
      · rcases List.mem_append.1 hmem with hmem | hmem
        · exact absurd hmem (notMem_of_usages hzero seq u)
        · exact hsent seq u hmem
    -- the metadata goes out with this event
    have hnow : ∀ usage, fr₁.emitted = true →
        (∀ seq u, .event (.messageDelta none seq u) ∈ (c.step cfg ev).2 → u = usage) →
        ((c.step cfg ev).1.lastUsage.getD .zero).counts = usage.counts →
        (∀ r ∈ reports (c.step cfg ev).1.startUsage evs, usage.Repeats r.2) →
        Agrees (c.run cfg (ev :: evs)).1 (c.run cfg (ev :: evs)).2 := by
      intro usage he₁ honly hacc₁ hrep
      obtain ⟨hend, hzero⟩ := run_reported cfg h₁ he₁ hacc₁ hrep
      refine ⟨fun husages => ?_, fun seq u hmem => ?_⟩
      · rw [he, he₁] at hu
        simp only [run, usages_append, hzero, Bool.toNat_true, Bool.toNat_false] at husages hu
        omega
      · rcases List.mem_append.1 hmem with hmem | hmem
        · rw [honly seq u hmem]
          exact hend
        · exact absurd hmem (notMem_of_usages hzero seq u)
    cases ev with
    | messageDelta stopReason seq usage =>
      obtain ⟨u, hu'⟩ : ∃ u, u = usage.backfill c.startUsage := ⟨_, rfl⟩
      have hlast' : (c.step cfg (.messageDelta stopReason seq usage)).1.lastUsage =
          some (mergeTrailingUsage (c.lastUsage.getD .zero) u) := by
        rw [hlast, hu']
        rfl
      have hfirst : ((c.step cfg (.messageDelta stopReason seq usage)).1.lastUsage.getD .zero).counts = u.counts := by
        rw [hlast', Option.getD_some]
        exact IrUsage.merge_counts_of_zero hacc
      simp only [report, ← hu', List.singleton_append, ReportsOnce] at honce
      cases stopReason with
      | some reason =>
        obtain ⟨c₁, hstep, hm₁, -⟩ := step_stop_eq cfg h reason seq usage
        have hfr₁ : fr₁ = (fr.onCombinedStopDelta reason seq u).2 := by
          have hend := h₁.ending
          rw [hstep, (emit_metadata hm₁ _).ending, ← hu'] at hend
          exact (Ending.metadata.inj hend).symm
        cases hreal : u.isReal with
        | false =>
          rw [if_pos ⟨rfl, hreal⟩] at honce
          refine hlater ?_ ?_ honce
          · rw [hfr₁]
            simp [BedrockStreamFraming.onCombinedStopDelta, he, hreal]
          · rw [hlast', Option.getD_some]
            exact IrUsage.merge_not_real hacc hreal
        | true =>
          rw [if_neg (by simp [hreal])] at honce
          refine hnow u ?_ ?_ hfirst honce
          · rw [hfr₁]
            simp [BedrockStreamFraming.onCombinedStopDelta, he, hreal]
          · intro seq' u' hmem
            rw [hstep, ← hu'] at hmem
            rcases List.mem_append.1 hmem with hmem | hmem
            · exact absurd hmem (notMem_of_usages (close_free c).1 seq' u')
            · simp only [BedrockStreamFraming.onCombinedStopDelta, he, hreal, Bool.false_eq_true, if_false, if_true,
                List.map_cons, List.map_nil, List.mem_cons, List.not_mem_nil, or_false, Emission.event.injEq,
                IrStreamEvent.messageDelta.injEq, reduceCtorEq, false_and, true_and, false_or] at hmem
              exact hmem.2
      | none =>
        obtain ⟨c₁, hstep, hm₁⟩ := step_usage_eq cfg h seq usage
        rw [if_neg (by simp)] at honce
        refine hnow u ?_ ?_ hfirst honce
        · have hend := h₁.ending
          rw [hstep, hm₁.ending, he] at hend
          rw [← Ending.metadata.inj hend]
          rfl
        · intro seq' u' hmem
          rw [hstep, he, ← hu'] at hmem
          simp only [Bool.false_eq_true, if_false, List.mem_singleton, Emission.event.injEq,
            IrStreamEvent.messageDelta.injEq, true_and] at hmem
          exact hmem.2
    | _ =>
      have hfr := hsame rfl
      refine hlater (by rw [hfr]; exact he) ?_ honce
      rw [hlast]
      exact hacc

/-- The end sends a metadata of nothing if none was sent. -/
theorem finish_agrees {c : Course} {fr : BedrockStreamFraming} (h : c.Metadata fr) {sent : List Emission}
    (hagree : c.Agrees sent) (husages : usages sent = fr.emitted.toNat) :
    ∀ seq u, .event (.messageDelta none seq u) ∈ sent ++ c.finish.2 → (c.lastUsage.getD .zero).counts = u.counts := by
  intro seq u hmem
  rcases List.mem_append.1 hmem with hmem | hmem
  · exact hagree.sent seq u hmem
  rw [finish_emissions h] at hmem
  rcases List.mem_append.1 hmem with hmem | hmem
  · exact absurd hmem (notMem_of_usages (close_free c).1 seq u)
  obtain ⟨ev, hev, heq⟩ := List.mem_map.1 hmem
  cases heq
  unfold BedrockStreamFraming.onFinish at hev
  split at hev
  · simp at hev
  · rename_i hguard
    have hunsent : fr.emitted = false := by
      cases he : fr.emitted
      · rfl
      · simp [he] at hguard
    rw [Option.toList_some, List.mem_singleton] at hev
    cases hev
    refine hagree.unsent ?_
    rw [husages, hunsent]
    rfl

/-! ## The deferred delta -/

/-- The terminal delta is deferred with the usage of the account. -/
structure Folded (c : Course) (p : IrStopReason × Option String × IrUsage) : Prop where
  ending : c.ending = .folds
  pending : c.pendingTerminal = some p
  account : c.lastUsage = some p.2.2

theorem Folded.emit {c : Course} {p : IrStopReason × Option String × IrUsage} (h : c.Folded p)
    (evs : List IrStreamEvent) : (c.emit evs).1.Folded p := by
  obtain ⟨h₁, -, h₂⟩ := emit_account c evs
  exact ⟨(emit_ending c evs).trans h.ending, h₂.trans h.pending, h₁.trans h.account⟩

theorem answer_deferred {c : Course} (hend : c.ending = .folds) {reason : IrStopReason} {seq : Option String}
    {acc : IrUsage} (hp : c.pendingTerminal = some (reason, seq, acc)) (stopReason : Option IrStopReason)
    (seq' : Option String) (usage : IrUsage) : c.answer cfg (.messageDelta stopReason seq' usage) =
      ({ c with pendingTerminal := some (reason, seq, mergeTrailingUsage acc usage) }, []) := by
  cases stopReason <;> simp only [answer, hend, hp]

variable (cfg) in
/-- An event that is no delta, on a framing that folds. -/
theorem answer_quiet {c : Course} (hend : c.ending = .folds) {ev : IrStreamEvent}
    (hd : Translator.isDelta ev = false) : (c.answer cfg ev).1.ending = .folds ∧
      (c.answer cfg ev).1.pendingTerminal = c.pendingTerminal ∧ (c.answer cfg ev).1.lastUsage = c.lastUsage ∧
      stops (c.answer cfg ev).2 = 0 := by
  have hplain : c.answer cfg ev = c.plain cfg ev → (c.answer cfg ev).1.ending = .folds ∧
      (c.answer cfg ev).1.pendingTerminal = c.pendingTerminal ∧ (c.answer cfg ev).1.lastUsage = c.lastUsage ∧
      stops (c.answer cfg ev).2 = 0 := fun h => by
    obtain ⟨h₁, -, h₂⟩ := plain_account cfg c ev
    rw [h]
    exact ⟨(plain_ending c ev).trans hend, h₂, h₁, (plain_free cfg c hd).2⟩
  by_cases ht : Translator.isTerminal ev = true
  · cases ev with
    | messageStop =>
      cases hp : c.pendingTerminal with
      | none =>
        rw [← hp]
        refine hplain ?_
        simp only [answer, hend, hp]
      | some p =>
        obtain ⟨reason, seq, acc⟩ := p
        have hans : c.answer cfg .messageStop = ({ c with pendingStop := true }, []) := by
          simp only [answer, hend, hp]
        rw [hans]
        exact ⟨hend, hp, rfl, rfl⟩
    | messageDelta => simp [Translator.isDelta] at hd
    | _ => simp [Translator.isTerminal] at ht
  · exact hplain (answer_plain (by simpa using ht) hd)

variable (cfg) in
/-- What a step on a framing that folds does, behind the account and with the blocks closed. -/
theorem step_folds {c : Course} (hend : c.ending = .folds) {ev : IrStreamEvent}
    (hd : Translator.isDelta ev = false) : (c.step cfg ev).1.ending = .folds ∧
      (c.step cfg ev).1.pendingTerminal = c.pendingTerminal ∧ (c.step cfg ev).1.lastUsage = c.lastUsage ∧
      stops (c.step cfg ev).2 = 0 := by
  have hseen : ∀ ev, Translator.isDelta ev = false → (c.observe ev).1.ending = c.ending ∧
      (c.observe ev).1.pendingTerminal = c.pendingTerminal ∧ (c.observe ev).1.lastUsage = c.lastUsage ∧
      Translator.isDelta (c.observe ev).2 = false := fun ev hd => by
    cases ev with
    | messageDelta => simp [Translator.isDelta] at hd
    | _ => exact ⟨rfl, rfl, rfl, rfl⟩
  rw [← IrStreamEvent.isDelta_remapEvent cfg.ingress.name] at hd
  obtain ⟨h₁, h₂, h₃, h₄⟩ := hseen _ hd
  unfold step
  rw [← h₂, ← h₃]
  rw [hend] at h₁
  generalize c.observe (remapEvent cfg.ingress.name ev) = seen at h₁ h₄ ⊢
  obtain ⟨c₁, ev₁⟩ := seen
  dsimp only at h₁ h₄ ⊢
  cases exception cfg ev₁ with
  | some p => exact ⟨h₁, rfl, rfl, rfl⟩
  | none =>
    dsimp only
    cases Translator.isTerminal ev₁ with
    | true =>
      obtain ⟨ha, -, hb⟩ := emit_account ({ c₁ with openBlocks := [] } : Course) (c₁.openBlocks.map .blockStop)
      obtain ⟨g₁, g₂, g₃, g₄⟩ := answer_quiet cfg (c := c₁.close.1) ((emit_ending _ _).trans h₁) h₄
      refine ⟨g₁, g₂.trans hb, g₃.trans ha, ?_⟩
      simp only [if_true, stops_append, (close_free c₁).2, g₄]
    | false => exact answer_quiet cfg h₁ h₄

variable (cfg) in
/-- From the stop on the deferred delta and the account are merged alike, and no delta with a stop goes out. -/
theorem step_folded {c : Course} {reason : IrStopReason} {seq : Option String} {acc : IrUsage}
    (h : c.Folded (reason, seq, acc)) (ev : IrStreamEvent) :
    ∃ acc', (c.step cfg ev).1.Folded (reason, seq, acc') ∧ stops (c.step cfg ev).2 = 0 := by
  cases hd : Translator.isDelta ev with
  | false =>
    obtain ⟨h₁, h₂, h₃, h₄⟩ := step_folds cfg h.ending hd
    exact ⟨acc, ⟨h₁, h₂.trans h.pending, h₃.trans h.account⟩, h₄⟩
  | true =>
    cases ev with
    | messageDelta stopReason seq' usage =>
      set u := usage.backfill c.startUsage with hu
      set c₁ : Course := { c with lastUsage := some (mergeTrailingUsage (c.lastUsage.getD .zero) u) } with hc₁
      have haccount : mergeTrailingUsage (c.lastUsage.getD .zero) u = mergeTrailingUsage acc u := by
        rw [h.account]
        rfl
      cases stopReason with
      | none =>
        have hstep : c.step cfg (.messageDelta none seq' usage) = c₁.answer cfg (.messageDelta none seq' u) := rfl
        rw [hstep, answer_deferred (show c₁.ending = .folds from h.ending) h.pending]
        exact ⟨mergeTrailingUsage acc u, ⟨h.ending, rfl, by rw [hc₁, haccount]⟩, rfl⟩
      | some reason' =>
        have hstep : c.step cfg (.messageDelta (some reason') seq' usage) =
            ((c₁.close.1.answer cfg (.messageDelta (some reason') seq' u)).1,
              c₁.close.2 ++ (c₁.close.1.answer cfg (.messageDelta (some reason') seq' u)).2) := rfl
        obtain ⟨ha, -, hb⟩ := emit_account ({ c₁ with openBlocks := [] } : Course) (c₁.openBlocks.map .blockStop)
        have hend : c₁.close.1.ending = .folds := (emit_ending _ _).trans h.ending
        rw [hstep, answer_deferred hend (hb.trans h.pending)]
        refine ⟨mergeTrailingUsage acc u, ⟨hend, rfl, ha.trans (by rw [hc₁, haccount])⟩, ?_⟩
        rw [List.append_nil]
        exact (close_free c₁).2
    | _ => simp [Translator.isDelta] at hd

variable (cfg) in
theorem run_folded {c : Course} {reason : IrStopReason} {seq : Option String} {acc : IrUsage}
    (h : c.Folded (reason, seq, acc)) (evs : List IrStreamEvent) :
    ∃ acc', (c.run cfg evs).1.Folded (reason, seq, acc') ∧ stops (c.run cfg evs).2 = 0 := by
  induction evs generalizing c acc with
  | nil => exact ⟨acc, h, rfl⟩
  | cons ev evs ih =>
    obtain ⟨acc₁, h₁, hs₁⟩ := step_folded cfg h ev
    obtain ⟨acc₂, h₂, hs₂⟩ := ih h₁
    refine ⟨acc₂, h₂, ?_⟩
    simp only [run, stops_append, hs₁, hs₂]

variable (cfg) in
theorem run_quiet {c : Course} (hend : c.ending = .folds) {evs : List IrStreamEvent}
    (hq : ∀ ev ∈ evs, Translator.isDelta ev = false) : (c.run cfg evs).1.ending = .folds ∧
      (c.run cfg evs).1.pendingTerminal = c.pendingTerminal ∧ (c.run cfg evs).1.lastUsage = c.lastUsage ∧
      stops (c.run cfg evs).2 = 0 := by
  induction evs generalizing c with
  | nil => exact ⟨hend, rfl, rfl, rfl⟩
  | cons ev evs ih =>
    obtain ⟨h₁, h₂, h₃, h₄⟩ := step_folds cfg hend (hq ev List.mem_cons_self)
    obtain ⟨g₁, g₂, g₃, g₄⟩ := ih h₁ fun e he => hq e (List.mem_cons_of_mem _ he)
    refine ⟨g₁, g₂.trans h₂, g₃.trans h₃, ?_⟩
    simp only [run, stops_append, h₄, g₄]

variable (cfg) in
/-- The stop that is deferred first takes the account with it. -/
theorem step_first_stop {c : Course} (hend : c.ending = .folds) (hp : c.pendingTerminal = none)
    (hacc : c.lastUsage = none) (reason : IrStopReason) (seq : Option String) (usage : IrUsage) :
    (c.step cfg (.messageDelta (some reason) seq usage)).1.Folded (reason, seq, usage.backfill c.startUsage) ∧
      stops (c.step cfg (.messageDelta (some reason) seq usage)).2 = 0 := by
  set u := usage.backfill c.startUsage with hu
  set c₁ : Course := { c with lastUsage := some (mergeTrailingUsage (c.lastUsage.getD .zero) u) } with hc₁
  have hstep : c.step cfg (.messageDelta (some reason) seq usage) =
      ((c₁.close.1.answer cfg (.messageDelta (some reason) seq u)).1,
        c₁.close.2 ++ (c₁.close.1.answer cfg (.messageDelta (some reason) seq u)).2) := rfl
  obtain ⟨ha, -, hb⟩ := emit_account ({ c₁ with openBlocks := [] } : Course) (c₁.openBlocks.map .blockStop)
  have hend₁ : c₁.close.1.ending = .folds := (emit_ending _ _).trans hend
  have hpend₁ : c₁.close.1.pendingTerminal = none := hb.trans hp
  have hans : c₁.close.1.answer cfg (.messageDelta (some reason) seq u) =
      ({ c₁.close.1 with pendingTerminal := some (reason, seq, u) }, []) := by
    simp only [answer, hend₁, hpend₁]
  have hlast : c₁.close.1.lastUsage = some u := by
    refine ha.trans ?_
    rw [hc₁, hacc]
    exact congrArg some (IrUsage.merge_zero u)
  rw [hstep, hans]
  refine ⟨⟨hend₁, rfl, hlast⟩, ?_⟩
  rw [List.append_nil]
  exact (close_free c₁).2

/-- The end sends the deferred delta. -/
theorem finish_folded {c : Course} {reason : IrStopReason} {seq : Option String} {acc : IrUsage}
    (h : c.Folded (reason, seq, acc)) : stops c.finish.2 = 1 ∧
      ∀ reason' seq' u, .event (.messageDelta (some reason') seq' u) ∈ c.finish.2 → u = acc := by
  have hclose : c.close.1.Folded (reason, seq, acc) := by
    have hopen : ({ c with openBlocks := [] } : Course).Folded (reason, seq, acc) := ⟨h.ending, h.pending, h.account⟩
    exact hopen.emit _
  have howed : c.close.1.owed = (c.close.1, []) := by
    simp only [owed, hclose.ending]
  have hfinish : c.finish.2 = c.close.2 ++ .event (.messageDelta (some reason) seq acc) ::
      (if c.close.1.pendingStop then [.event .messageStop] else []) := by
    simp only [finish, howed, emit, List.foldl_nil, List.map_nil, List.append_nil, pendingEvents, hclose.pending,
      List.map_cons]
    split <;> rfl
  have hnone : ∀ r s u, .event (.messageDelta (some r) s u) ∉ c.close.2 := fun r s u hmem => by
    have := List.countP_eq_zero.1 (close_free c).2 _ hmem
    exact this rfl
  rw [hfinish]
  refine ⟨?_, fun reason' seq' u hmem => ?_⟩
  · rw [stops_append, (close_free c).2]
    split <;> rfl
  · rcases List.mem_append.1 hmem with hmem | hmem
    · exact absurd hmem (hnone _ _ _)
    rcases List.mem_cons.1 hmem with heq | hmem
    · cases heq
      rfl
    · split at hmem <;> simp at hmem

end Course

/-- The delta handed to the writer: whether it has a stop, and its usage. -/
def Emission.report : Emission → Option (Bool × IrUsage)
  | event (.messageDelta stopReason _ usage) => some (stopReason.isSome, usage)
  | _ => none

namespace StreamTranslate

variable {protocolFor : String → Option (Protocol D W)} {initDecode : D} {initWriter : W} {ingress egress : String}
  {t₀ : StreamTranslate D W}

theorem new_course (hb : new protocolFor initDecode initWriter ingress egress = some t₀) (opted : Bool) :
    let t := t₀.setClientIncludeUsage opted
    t.startUsage = none ∧ t.lastUsage = none ∧ t.pendingTerminal = none ∧
      ∀ fr, t.framing = .bedrock fr → fr = ⟨false, false⟩ := by
  unfold new at hb
  split at hb
  · cases hb
  simp only [build, Option.bind_eq_bind, Option.bind_eq_some_iff, Option.some.injEq] at hb
  obtain ⟨ingressProto, -, egressProto, -, rfl⟩ := hb
  refine ⟨rfl, rfl, rfl, fun fr hfr => ?_⟩
  simp only [setClientIncludeUsage] at hfr
  cases hk : ingressProto.writer.framingKind <;> rw [hk] at hfr <;> cases hfr
  rfl

/-- **The client sees the usage it is billed.** On a framing that folds, the one terminal delta has the usage of the
account if no usage comes ahead of the first stop; the one metadata has its counts if the reports behind the one it
was taken from are repetitions. The account is that of the stream in chunks. -/
theorem terminal_usage_is_billed (lib : WireLib) (elapsedMs : Nat)
    (hb : new protocolFor initDecode initWriter ingress egress = some t₀) (opted : Bool) :
    let t := t₀.setClientIncludeUsage opted
    (∀ evs,
      let sent := t.course.whole t.toStreamConfig evs false
      let billed := (t.course.run t.toStreamConfig evs).1.lastUsage
      (t.framing = .passthrough → ∀ before stop after, evs = before ++ stop :: after → stop.isStop = true →
        (∀ ev ∈ before, Translator.isDelta ev = false) →
        Course.stops sent = 1 ∧ ∀ reason seq usage, .event (.messageDelta (some reason) seq usage) ∈ sent →
          billed = some usage) ∧
      ∀ fr, t.framing = .bedrock fr → (∃ ev ∈ evs, ev.isStop = true) → ReportsOnce (reports none evs) →
        Course.usages sent = 1 ∧ ∀ seq usage, .event (.messageDelta none seq usage) ∈ sent →
          (billed.getD .zero).counts = usage.counts) ∧
      ∀ chunks, (t.run lib elapsedMs chunks).1.aborted = false →
        ∃ fs done, fs <+: (t.framer.drain chunks.flatten).1 ∧
          (done = [] ∨ t.emitDone = true ∧ done = sseDoneFrame) ∧
          (t.run lib elapsedMs chunks).2 = (t.clientFrames (some elapsedMs) (t.readFrames lib t.decode fs)).flatMap
            (ClientFrame.bytes lib t.toStreamConfig) ++ done ∧
          (t.run lib elapsedMs chunks).1.usage =
            (t.course.run t.toStreamConfig (t.readFrames lib t.decode fs)).1.lastUsage := by
  intro t
  obtain ⟨hstart, hlast, hpend, hfresh⟩ := new_course hb opted
  refine ⟨fun evs => ⟨?_, ?_⟩, fun chunks hlive => ?_⟩
  · rintro hfr before stop after rfl hs hq
    have hend : t.course.ending = .folds := by
      simp only [Translator.course, hfr, StreamFraming.ending]
    obtain ⟨h₁, h₂, h₃, h₄⟩ := Course.run_quiet t.toStreamConfig hend hq
    cases stop with
    | messageDelta stopReason seq usage =>
      cases stopReason with
      | none => simp [IrStreamEvent.isStop] at hs
      | some reason =>
        obtain ⟨hfirst, hs₁⟩ := Course.step_first_stop t.toStreamConfig h₁ (h₂.trans hpend) (h₃.trans hlast) reason seq
          usage
        obtain ⟨acc, hfold, hs₂⟩ := Course.run_folded t.toStreamConfig hfirst after
        obtain ⟨hone, honly⟩ := Course.finish_folded hfold
        have hrun : Course.stops (t.course.run t.toStreamConfig
            (before ++ .messageDelta (some reason) seq usage :: after)).2 = 0 := by
          simp only [Course.run_append, Course.run, Course.stops_append, h₄, hs₁, hs₂]
        have hfinal : (t.course.run t.toStreamConfig (before ++ .messageDelta (some reason) seq usage :: after)).1.Folded
            (reason, seq, acc) := by
          rw [Course.run_append]
          exact hfold
        obtain ⟨hone, honly⟩ := Course.finish_folded hfinal
        refine ⟨?_, fun reason' seq' usage' hmem => ?_⟩
        · simp only [Course.whole, Bool.false_eq_true, if_false, Course.stops_append, hrun, hone]
        · rcases List.mem_append.1 hmem with hmem | hmem
          · exact absurd rfl (List.countP_eq_zero.1 hrun _ hmem)
          · rw [honly reason' seq' usage' hmem]
            exact hfinal.account
    | _ => simp [IrStreamEvent.isStop] at hs
  · intro fr hfr hstop honce
    have hm : t.course.Metadata ⟨false, false⟩ := by
      refine ⟨?_, hpend⟩
      simp only [Translator.course, hfr, StreamFraming.ending, hfresh fr hfr]
    have hpos : 0 < evs.countP IrStreamEvent.isStop := List.countP_pos_iff.2 hstop
    obtain ⟨fr', hrun, hset, -⟩ := Course.run_metadata t.toStreamConfig hm evs
    have hacc : (t.course.lastUsage.getD .zero).counts = IrUsage.zero.counts := by
      rw [show t.course.lastUsage = none from hlast]
      rfl
    have honce : ReportsOnce (reports t.course.startUsage evs) := by
      rw [show t.course.startUsage = none from hstart]
      exact honce
    have hagree := Course.run_agrees t.toStreamConfig hm rfl hacc honce
    refine ⟨(Course.whole_metadata t.toStreamConfig hm hpos).1, ?_⟩
    exact Course.finish_agrees hrun hagree hset.usages
  · obtain ⟨hfreshT, hx⟩ := new_translates hb opted
    obtain ⟨fs, done, hpre, hdone, hout, husage⟩ := run_course lib elapsedMs hfreshT hx chunks
    rw [hlive] at hout
    exact ⟨fs, done, hpre, hdone, hout, husage⟩

section Witness

/-- A delta without a stop, and the stop without a usage. -/
def earlyUsage : List IrStreamEvent :=
  [.messageDelta none none ⟨5, 7, none, none⟩, .messageDelta (some .endTurn) none .zero]

/-- The backend's frames it is read from. -/
def earlyFrames : List Json :=
  [.object [("delta", .object []), ("usage", .object [("input_tokens", .number (.posInt 5)),
      ("output_tokens", .number (.posInt 7))])],
    .object [("delta", .object [("stop_reason", .string "end_turn")])]]

/-- A stop with its usage, and a delta that corrects it. -/
def correctedUsage : List IrStreamEvent :=
  [.messageDelta (some .endTurn) none ⟨5, 7, none, none⟩, .messageDelta none none ⟨0, 9, none, none⟩]

/-- The terminal delta leaves out what came ahead of the stop, the metadata what came behind it; the bill does not. -/
theorem terminal_usage_is_not_billed :
    (earlyFrames.flatMap (fun data => (Anthropic.readResponseEvents Anthropic.evtMessageDelta data ()).1) = earlyUsage ∧
      (foldingTranslator.course.whole foldingTranslator.toStreamConfig earlyUsage false).filterMap Emission.report =
        [(false, ⟨5, 7, none, none⟩), (true, .zero)] ∧
      (foldingTranslator.course.run foldingTranslator.toStreamConfig earlyUsage).1.lastUsage =
        some ⟨5, 7, none, none⟩) ∧
    (bedrockClient.course.whole bedrockClient.toStreamConfig correctedUsage false).filterMap Emission.report =
        [(true, .zero), (false, ⟨5, 7, none, none⟩)] ∧
      (bedrockClient.course.run bedrockClient.toStreamConfig correctedUsage).1.lastUsage =
        some ⟨5, 9, none, none⟩ := ⟨⟨rfl, rfl, rfl⟩, rfl, rfl⟩

/-- Usage behind the stop is folded into the terminal delta. -/
theorem terminal_usage_is_billed_trailing :
    Course.stops (foldingTranslator.course.whole foldingTranslator.toStreamConfig
      [.messageDelta (some .endTurn) none .zero, .messageDelta none none ⟨5, 7, none, none⟩] false) = 1 :=
  (((terminal_usage_is_billed muteLib 3 new_foldingTranslator false).1 _).1 rfl [] _ _ rfl rfl (by simp)).1

end Witness

end StreamTranslate

end Busbar
