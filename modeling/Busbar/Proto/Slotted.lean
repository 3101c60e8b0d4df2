import Busbar.Proto.Decode

/-!
# The decode state and the blocks of its stream

What a decode state says about the blocks opened so far, read against the monitor of slots. The indices of the open tool
blocks are kept differently by the readers and are a parameter.

* `Slotted`: the state and the monitor agree.
* `Keeps`: a section whose events the monitor accepts, and behind which state and monitor still agree.
* `Retakes`, `Exact`: a section that takes an index again, and one that does so exactly when a condition fails.
* `Keeps.next`, `Keeps.each`, `Exact.next`, `Exact.each`: sections one after the other.
* `keeps_closeThinking`, `exact_openThinking`, `exact_openText`, `keeps_openTool`, `keeps_closeText`, `keeps_closeTools`:
  the moves the readers share.
* `Exact.orderly`, `Exact.of_paired`: what it comes to for a stream from its start.
-/

namespace Busbar

open Slots

/-- An index that has been handed out. -/
def StreamDecodeState.Spent (s : StreamDecodeState) (k : Nat) : Prop :=
  k < s.nextIrIndex ∨ (k = 0 ∧ s.reasoningSeen = true)

/-- The open block that is thinking or text. -/
def StreamDecodeState.Solo (s : StreamDecodeState) (k : Nat) : Prop :=
  (k = 0 ∧ s.thinkingBlockOpen = true) ∨ (s.textBlockOpen = true ∧ s.textIndex = some k)

/-- **State and monitor agree**; `tools` are the indices of the open tool blocks. -/
structure Slotted (tools : List Nat) (s : StreamDecodeState) (m : Monitor Nat) : Prop where
  spent : ∀ k, k ∈ m.spent ↔ s.Spent k
  solo : ∀ k, k ∈ m.solo ↔ s.Solo k
  live : ∀ k, k ∈ m.live ↔ s.Solo k ∨ k ∈ tools
  indexed : s.textBlockOpen = true → s.textIndex.isSome = true
  claimed : ∀ i, s.textIndex = some i → i < s.nextIrIndex
  ahead : s.thinkingBlockOpen = true → s.reasoningSeen = true ∧ s.textBlockOpen = false
  nodup : tools.Nodup
  apart : ∀ k ∈ tools, ¬ s.Solo k ∧ s.Spent k

theorem Slotted.default : Slotted [] StreamDecodeState.default Monitor.start := by
  refine ⟨?_, ?_, ?_, ?_, ?_, ?_, List.nodup_nil, ?_⟩ <;>
    simp [StreamDecodeState.default, Monitor.start, StreamDecodeState.Spent, StreamDecodeState.Solo]

/-- **A section in order.** From a state with these open tool blocks its events are accepted, and state and monitor agree
behind it. -/
def Keeps (tools : StreamDecodeState → List Nat) (f : Section) (s : StreamDecodeState) : Prop :=
  ∀ m, Slotted (tools s) s m → ∃ m', m.run (acts (f s).1) = some m' ∧ Slotted (tools (f s).2) (f s).2 m'

namespace Keeps

variable {tools : StreamDecodeState → List Nat} {f g : Section} {s : StreamDecodeState}

theorem next (hf : Keeps tools f s) (hg : Keeps tools g (f s).2) : Keeps tools (f.next g) s := by
  intro m hm
  obtain ⟨m₁, h₁, ht₁⟩ := hf m hm
  obtain ⟨m₂, h₂, ht₂⟩ := hg m₁ ht₁
  refine ⟨m₂, ?_, ht₂⟩
  unfold Section.next
  rw [acts_append]
  exact Monitor.run_append.2 ⟨m₁, h₁, h₂⟩

/-- A section without block events that leaves the blocks alone. -/
theorem of_quiet (hacts : ∀ a ∈ acts (f s).1, a = .other)
    (hslotted : ∀ m, Slotted (tools s) s m → Slotted (tools (f s).2) (f s).2 m) : Keeps tools f s := by
  intro m hm
  refine ⟨m, ?_, hslotted m hm⟩
  obtain ⟨as, has⟩ : ∃ as, as = acts (f s).1 := ⟨_, rfl⟩
  rw [← has] at hacts ⊢
  clear has
  induction as with
  | nil => rfl
  | cons a as ih =>
    have ha := hacts a List.mem_cons_self
    subst ha
    exact Monitor.run_cons.2 ⟨trivial, ih (fun a' ha' => hacts a' (List.mem_cons_of_mem _ ha'))⟩

/-- An invariant of the state carries a section over a list. -/
theorem each {α : Type} {h : α → Section} {I : StreamDecodeState → Prop}
    (hstep : ∀ a s, I s → Keeps tools (h a) s ∧ I (h a s).2) (as : List α) (hs : I s) :
    Keeps tools (Section.each h as) s ∧ I (Section.each h as s).2 := by
  induction as generalizing s with
  | nil => exact ⟨fun m hm => ⟨m, rfl, hm⟩, hs⟩
  | cons a as ih =>
    obtain ⟨hkeep, hinv⟩ := hstep a s hs
    obtain ⟨hkeeps, hinvs⟩ := ih hinv
    exact ⟨hkeep.next hkeeps, hinvs⟩

end Keeps

/-- **A section that takes an index again**, behind acts that are accepted. -/
def Retakes (tools : StreamDecodeState → List Nat) (f : Section) (s : StreamDecodeState) : Prop :=
  ∀ m, Slotted (tools s) s m → ∃ bs k solo cs m', acts (f s).1 = bs ++ .take k solo :: cs ∧ m.run bs = some m' ∧
    k ∈ m'.spent

/-- A section that is in order exactly under a condition. -/
structure Exact (tools : StreamDecodeState → List Nat) (P : Prop) (f : Section) (s : StreamDecodeState) : Prop where
  keeps : P → Keeps tools f s
  retakes : ¬ P → Retakes tools f s

/-- A condition on every element, in the state its section starts from. -/
def Section.Along {α : Type} (h : α → Section) (P : α → StreamDecodeState → Prop) : List α → StreamDecodeState → Prop
  | [], _ => True
  | a :: as, s => P a s ∧ Along h P as (h a s).2

namespace Exact

variable {tools : StreamDecodeState → List Nat} {P Q : Prop} {f g : Section} {s : StreamDecodeState}

theorem of_keeps (h : Keeps tools f s) : Exact tools True f s := ⟨fun _ => h, fun hn => absurd trivial hn⟩

/-- A section that does what another does from a state with the same blocks. -/
theorem of_shift {s' : StreamDecodeState} (he : f s = g s')
    (hs : ∀ m, Slotted (tools s) s m → Slotted (tools s') s' m) (h : Exact tools P g s') : Exact tools P f s := by
  refine ⟨fun hp m hm => ?_, fun hn m hm => ?_⟩
  · rw [he]
    exact h.keeps hp m (hs m hm)
  · rw [he]
    exact h.retakes hn m (hs m hm)

theorem of_eq (he : f s = g s) (h : Exact tools P g s) : Exact tools P f s := of_shift he (fun _ hm => hm) h

/-- A section that does nothing, whatever the condition says. -/
theorem of_skip (he : f s = ([], s)) (hp : P) : Exact tools P f s :=
  of_eq (g := Section.skip) he ⟨fun _ m hm => ⟨m, rfl, hm⟩, fun hn => absurd hp hn⟩

theorem congr (h : Exact tools P f s) (hpq : P ↔ Q) : Exact tools Q f s :=
  ⟨fun hq => h.keeps (hpq.2 hq), fun hq => h.retakes (fun hp => hq (hpq.1 hp))⟩

theorem next (hf : Exact tools P f s) (hg : Exact tools Q g (f s).2) : Exact tools (P ∧ Q) (f.next g) s := by
  refine ⟨fun h => (hf.keeps h.1).next (hg.keeps h.2), fun h m hm => ?_⟩
  unfold Section.next
  rw [acts_append]
  by_cases hp : P
  · -- the first section is accepted, and the second takes an index again
    have hq : ¬ Q := fun hq => h ⟨hp, hq⟩
    obtain ⟨m₁, hrun, hm₁⟩ := hf.keeps hp m hm
    obtain ⟨bs, k, solo, cs, m', hacts, hbs, hk⟩ := hg.retakes hq m₁ hm₁
    refine ⟨acts (f s).1 ++ bs, k, solo, cs, m', ?_, Monitor.run_append.2 ⟨m₁, hrun, hbs⟩, hk⟩
    rw [hacts, List.append_assoc]
  · obtain ⟨bs, k, solo, cs, m', hacts, hbs, hk⟩ := hf.retakes hp m hm
    refine ⟨bs, k, solo, cs ++ acts (g (f s).2).1, m', ?_, hbs, hk⟩
    rw [hacts, List.append_assoc, List.cons_append]

/-- The same with the state between the two by a name. -/
theorem andThen {s' : StreamDecodeState} (hf : Exact tools P f s) (hs : s' = (f s).2) (hg : Exact tools Q g s') :
    Exact tools (P ∧ Q) (f.next g) s := by
  rw [hs] at hg
  exact hf.next hg

theorem each {α : Type} {h : α → Section} {P : α → StreamDecodeState → Prop} {I : StreamDecodeState → Prop}
    (hstep : ∀ a s, I s → Exact tools (P a s) (h a) s ∧ I (h a s).2) (as : List α) (hs : I s) :
    Exact tools (Section.Along h P as s) (Section.each h as) s ∧ I (Section.each h as s).2 := by
  induction as generalizing s with
  | nil => exact ⟨of_keeps (fun m hm => ⟨m, rfl, hm⟩), hs⟩
  | cons a as ih =>
    obtain ⟨hexact, hinv⟩ := hstep a s hs
    obtain ⟨hrest, hinvs⟩ := ih hinv
    exact ⟨hexact.next hrest, hinvs⟩

/-- Under the condition, a stream from its start is in order. -/
theorem orderly (h : Exact tools P f .default) (h0 : tools .default = []) (hp : P) :
    Orderly (acts (f .default).1) := by
  have hstart : Slotted (tools .default) .default Monitor.start := by
    rw [h0]
    exact Slotted.default
  obtain ⟨m, hrun, -⟩ := h.keeps hp Monitor.start hstart
  exact orderly_of_run hrun

/-- A stream in pairs meets the condition. -/
theorem of_paired (h : Exact tools P f .default) (h0 : tools .default = []) (hp : Paired (acts (f .default).1)) : P := by
  by_contra hn
  have hstart : Slotted (tools .default) .default Monitor.start := by
    rw [h0]
    exact Slotted.default
  obtain ⟨bs, k, solo, cs, m, hacts, hrun, hk⟩ := h.retakes hn Monitor.start hstart
  rw [hacts] at hp
  exact not_paired_of_retake hrun hk hp

end Exact

/-- The tool blocks a reader keeps do not depend on the other fields. -/
def OfTools (tools : StreamDecodeState → List Nat) : Prop :=
  ∀ s s', s'.openTools = s.openTools → s'.toolIrIndex = s.toolIrIndex → tools s' = tools s

variable {tools : StreamDecodeState → List Nat} {s : StreamDecodeState}

/-! ## Shared moves -/

theorem keeps_closeThinking (ht : OfTools tools) : Keeps tools Section.closeThinking s := by
  intro m hm
  unfold Section.closeThinking
  by_cases h : s.thinkingBlockOpen = true
  · obtain ⟨hseen, htext⟩ := hm.ahead h
    have hzero : s.Solo 0 := Or.inl ⟨rfl, h⟩
    have hsolo : ∀ k, s.Solo k ↔ k = 0 := by
      intro k
      unfold StreamDecodeState.Solo
      rw [h, htext]
      simp
    have hsolo' : ∀ k, ¬ StreamDecodeState.Solo { s with thinkingBlockOpen := false } k := by
      intro k
      unfold StreamDecodeState.Solo
      dsimp only
      rw [htext]
      simp
    rw [if_pos h]
    refine ⟨m.after (.drop 0), Monitor.run_cons.2 ⟨(hm.live 0).2 (Or.inl hzero), rfl⟩, ?_⟩
    dsimp only
    rw [ht s { s with thinkingBlockOpen := false } rfl rfl]
    refine ⟨hm.spent, ?_, ?_, hm.indexed, hm.claimed, by simp, hm.nodup, fun k hk => ⟨hsolo' k, (hm.apart k hk).2⟩⟩
    · intro k
      simp only [Monitor.after, Finset.mem_erase, hm.solo k, hsolo k, hsolo' k, iff_false]
      exact fun hk => hk.1 hk.2
    · intro k
      simp only [Monitor.after, Finset.mem_erase, hm.live k, hsolo k, hsolo' k, false_or]
      constructor
      · rintro ⟨hne, hk | hk⟩
        · exact absurd hk hne
        · exact hk
      · intro hk
        exact ⟨fun he => (hm.apart k hk).1 ((hsolo k).2 he), Or.inr hk⟩
  · rw [if_neg h]
    exact ⟨m, rfl, hm⟩

theorem closeThinking_state (s : StreamDecodeState) :
    (Section.closeThinking s).2 = { s with thinkingBlockOpen := false } := by
  unfold Section.closeThinking
  by_cases h : s.thinkingBlockOpen = true
  · rw [if_pos h]
  · rw [if_neg h]
    have hf : s.thinkingBlockOpen = false := by simpa using h
    rw [← hf]

/-- What comes behind closing the thinking block. -/
theorem next_closeThinking (g : Section) (s : StreamDecodeState) : Section.closeThinking.next g s =
    ((Section.closeThinking s).1 ++ (g { s with thinkingBlockOpen := false }).1,
      (g { s with thinkingBlockOpen := false }).2) := by
  unfold Section.next
  dsimp only
  rw [closeThinking_state]

/-- Closing it looks at nothing else. -/
theorem closeThinking_events {s s' : StreamDecodeState} (h : s'.thinkingBlockOpen = s.thinkingBlockOpen) :
    (Section.closeThinking s').1 = (Section.closeThinking s).1 := by
  unfold Section.closeThinking
  rw [h]
  by_cases hopen : s.thinkingBlockOpen = true
  · rw [if_pos hopen, if_pos hopen]
  · rw [if_neg hopen, if_neg hopen]

/-- A claimed index has not been handed out, and is handed out then. -/
theorem claim_fresh (s : StreamDecodeState) : ¬ s.Spent s.claimIrIndex.1 := by
  unfold StreamDecodeState.Spent StreamDecodeState.claimIrIndex
  dsimp only
  rintro (h | ⟨h, hseen⟩)
  · omega
  · rw [hseen, if_pos rfl] at h
    omega

theorem spent_claim (s : StreamDecodeState) (k : Nat) : s.claimIrIndex.2.Spent k ↔ k = s.claimIrIndex.1 ∨ s.Spent k := by
  unfold StreamDecodeState.Spent StreamDecodeState.claimIrIndex
  dsimp only
  by_cases hseen : s.reasoningSeen = true
  · rw [if_pos hseen, hseen]
    simp only [and_true]
    omega
  · rw [if_neg hseen]
    simp only [hseen]
    omega

/-- Deltas of an open block. -/
theorem keeps_deltas {i : Nat} {evs : List IrStreamEvent} (hi : s.Solo i ∨ i ∈ tools s)
    (hevs : ∀ a ∈ acts evs, a = .use i) : Keeps tools (Section.emit evs) s := by
  intro m hm
  have hlive : i ∈ m.live := (hm.live i).2 hi
  refine ⟨m, ?_, hm⟩
  show m.run (acts evs) = some m
  obtain ⟨as, has⟩ : ∃ as, as = acts evs := ⟨_, rfl⟩
  rw [← has] at hevs ⊢
  clear has
  induction as with
  | nil => rfl
  | cons a as ih =>
    have ha := hevs a List.mem_cons_self
    subst ha
    exact Monitor.run_cons.2 ⟨hlive, ih (fun a' ha' => hevs a' (List.mem_cons_of_mem _ ha'))⟩

theorem keeps_delta {i : Nat} (d : IrDelta) (hi : s.Solo i ∨ i ∈ tools s) :
    Keeps tools (Section.emit [.blockDelta i d]) s :=
  keeps_deltas hi (by simp [acts, IrStreamEvent.act])

theorem keeps_openThinking (ht : OfTools tools) (htext : s.textBlockOpen = false)
    (hfresh : s.thinkingBlockOpen = false → ¬ s.Spent 0) : Keeps tools Section.openThinking s := by
  intro m hm
  unfold Section.openThinking
  dsimp only
  by_cases h : s.thinkingBlockOpen = true
  · rw [if_pos h]
    have hseen := (hm.ahead h).1
    have hsame : { s with reasoningSeen := true } = s := by rw [← hseen]
    rw [hsame]
    exact ⟨m, rfl, hm⟩
  · have hclosed : s.thinkingBlockOpen = false := by simpa using h
    have hnone : ∀ k, ¬ s.Solo k := by
      intro k
      unfold StreamDecodeState.Solo
      rw [hclosed, htext]
      simp
    have hempty : m.solo = ∅ := by
      ext k
      rw [hm.solo k]
      simp [hnone k]
    have hzero : 0 ∉ m.spent := fun hk => hfresh hclosed ((hm.spent 0).1 hk)
    have hsolo : ∀ k, StreamDecodeState.Solo { s with reasoningSeen := true, thinkingBlockOpen := true } k ↔ k = 0 := by
      intro k
      unfold StreamDecodeState.Solo
      dsimp only
      rw [htext]
      simp
    have hspent : ∀ k, StreamDecodeState.Spent { s with reasoningSeen := true, thinkingBlockOpen := true } k ↔
        k = 0 ∨ s.Spent k := by
      intro k
      unfold StreamDecodeState.Spent
      simp only [and_true]
      tauto
    rw [if_neg h]
    refine ⟨m.after (.take 0 true), Monitor.run_cons.2 ⟨⟨hzero, fun _ => hempty⟩, rfl⟩, ?_⟩
    dsimp only
    rw [ht s { s with reasoningSeen := true, thinkingBlockOpen := true } rfl rfl]
    refine ⟨?_, ?_, ?_, hm.indexed, hm.claimed, fun _ => ⟨rfl, htext⟩, hm.nodup, ?_⟩
    · intro k
      simp only [Monitor.after, Finset.mem_insert, hm.spent k, hspent k]
    · intro k
      simp only [Monitor.after, if_true, Finset.mem_insert, hempty, hsolo k, Finset.notMem_empty, or_false]
    · intro k
      simp only [Monitor.after, Finset.mem_insert, hm.live k, hsolo k, hnone k, false_or]
    · intro k hk
      have hne : k ≠ 0 := by
        rintro rfl
        exact hfresh hclosed (hm.apart 0 hk).2
      exact ⟨fun h => hne ((hsolo k).1 h), (hspent k).2 (Or.inr (hm.apart k hk).2)⟩

/-- The thinking block opens at index 0, if that has not been handed out. -/
theorem exact_openThinking (ht : OfTools tools) (htext : s.textBlockOpen = false) :
    Exact tools (s.thinkingBlockOpen = false → ¬ s.Spent 0) Section.openThinking s := by
  refine ⟨keeps_openThinking ht htext, fun hn m hm => ?_⟩
  have hclosed : s.thinkingBlockOpen = false := by
    by_contra h
    exact hn (fun h' => absurd h' h)
  have hspent : s.Spent 0 := by
    by_contra h
    exact hn (fun _ => h)
  refine ⟨[], 0, true, [], m, ?_, rfl, (hm.spent 0).2 hspent⟩
  unfold Section.openThinking
  dsimp only
  rw [hclosed]
  rfl

/-- Deltas of the thinking block, which is opened if need be. -/
theorem exact_thinking (ht : OfTools tools) {evs : List IrStreamEvent} (htext : s.textBlockOpen = false)
    (hevs : ∀ a ∈ acts evs, a = .use 0) : Exact tools (s.thinkingBlockOpen = false → ¬ s.Spent 0)
      (Section.openThinking.next (Section.emit evs)) s := by
  have hopen : (Section.openThinking s).2.Solo 0 := by
    unfold Section.openThinking
    dsimp only
    split
    · rename_i h
      exact Or.inl ⟨rfl, h⟩
    · exact Or.inl ⟨rfl, rfl⟩
  have hdeltas : Keeps tools (Section.emit evs) (Section.openThinking s).2 := keeps_deltas (Or.inl hopen) hevs
  refine ((exact_openThinking ht htext).next (Exact.of_keeps hdeltas)).congr ?_
  rw [and_true]

theorem keeps_openText (ht : OfTools tools) (hthink : s.thinkingBlockOpen = false)
    (hfresh : s.textBlockOpen = false → s.textIndex = none) : Keeps tools Section.openText s := by
  intro m hm
  by_cases h : s.textBlockOpen = true
  · obtain ⟨i, hi⟩ := Option.isSome_iff_exists.1 (hm.indexed h)
    have hstay : Section.openText s = ([], s) := by
      unfold Section.openText Section.textSlot
      rw [hi]
      dsimp only
      rw [if_pos h]
    rw [hstay]
    exact ⟨m, rfl, hm⟩
  · have hclosed : s.textBlockOpen = false := by simpa using h
    have hindex := hfresh hclosed
    obtain ⟨i, hi⟩ : ∃ i, i = s.claimIrIndex.1 := ⟨_, rfl⟩
    have hopen : Section.openText s = ([.blockStart i .text],
        { s.claimIrIndex.2 with textIndex := some i, textBlockOpen := true }) := by
      unfold Section.openText Section.textSlot
      rw [hindex]
      dsimp only
      rw [hi, if_neg]
      exact h
    have hnone : ∀ k, ¬ s.Solo k := by
      intro k
      unfold StreamDecodeState.Solo
      rw [hclosed, hthink]
      simp
    have hempty : m.solo = ∅ := by
      ext k
      rw [hm.solo k]
      simp [hnone k]
    have hfree : i ∉ m.spent := by
      rw [hi]
      exact fun hk => claim_fresh s ((hm.spent _).1 hk)
    have hsolo : ∀ k, StreamDecodeState.Solo { s.claimIrIndex.2 with textIndex := some i, textBlockOpen := true } k ↔
        k = i := by
      intro k
      unfold StreamDecodeState.Solo StreamDecodeState.claimIrIndex
      dsimp only
      rw [hthink]
      simp [eq_comm]
    have hspent : ∀ k, StreamDecodeState.Spent { s.claimIrIndex.2 with textIndex := some i, textBlockOpen := true } k ↔
        k = i ∨ s.Spent k := by
      intro k
      rw [hi]
      exact spent_claim s k
    rw [hopen]
    refine ⟨m.after (.take i true), Monitor.run_cons.2 ⟨⟨hfree, fun _ => hempty⟩, rfl⟩, ?_⟩
    dsimp only
    rw [ht s { s.claimIrIndex.2 with textIndex := some i, textBlockOpen := true } rfl rfl]
    refine ⟨?_, ?_, ?_, fun _ => rfl, ?_, ?_, hm.nodup, ?_⟩
    · intro k
      simp only [Monitor.after, Finset.mem_insert, hm.spent k, hspent k]
    · intro k
      simp only [Monitor.after, if_true, Finset.mem_insert, hempty, hsolo k, Finset.notMem_empty, or_false]
    · intro k
      simp only [Monitor.after, Finset.mem_insert, hm.live k, hsolo k, hnone k, false_or]
    · intro j hj
      cases hj
      rw [hi]
      exact Nat.lt_succ_self _
    · intro hopened
      have hopened : s.thinkingBlockOpen = true := hopened
      rw [hthink] at hopened
      cases hopened
    · intro k hk
      have hne : k ≠ i := by
        rintro rfl
        exact hfree ((hm.spent k).2 (hm.apart k hk).2)
      exact ⟨fun h => hne ((hsolo k).1 h), (hspent k).2 (Or.inr (hm.apart k hk).2)⟩

/-- The text block opens at a claimed index. -/
theorem exact_openText (ht : OfTools tools) (hthink : s.thinkingBlockOpen = false) :
    Exact tools (s.textBlockOpen = false → s.textIndex = none) Section.openText s := by
  refine ⟨keeps_openText ht hthink, fun hn m hm => ?_⟩
  have hclosed : s.textBlockOpen = false := by
    by_contra h
    exact hn (fun h' => absurd h' h)
  obtain ⟨i, hi⟩ : ∃ i, s.textIndex = some i := by
    refine Option.ne_none_iff_exists'.1 (fun h => hn (fun _ => h))
  -- the index kept from before is taken again
  have hspent : s.Spent i := Or.inl (hm.claimed i hi)
  refine ⟨[], i, true, [], m, ?_, rfl, (hm.spent i).2 hspent⟩
  unfold Section.openText Section.textSlot
  rw [hi]
  dsimp only
  rw [hclosed]
  rfl

/-- Opening the thinking block leaves text and tools alone. -/
theorem openThinking_frame (s : StreamDecodeState) : (Section.openThinking s).2.textBlockOpen = s.textBlockOpen ∧
    (Section.openThinking s).2.textIndex = s.textIndex ∧ (Section.openThinking s).2.openTools = s.openTools ∧
    (Section.openThinking s).2.toolIrIndex = s.toolIrIndex := by
  unfold Section.openThinking
  dsimp only
  split <;> exact ⟨rfl, rfl, rfl, rfl⟩

/-- A delta of the text block. -/
theorem keeps_onText (d : IrDelta) (h : s.textBlockOpen = true) : Keeps tools (Section.onText d) s := by
  intro m hm
  obtain ⟨i, hi⟩ := Option.isSome_iff_exists.1 (hm.indexed h)
  have hlive : i ∈ m.live := (hm.live i).2 (Or.inl (Or.inr ⟨h, hi⟩))
  unfold Section.onText
  rw [hi]
  exact ⟨m, Monitor.run_cons.2 ⟨hlive, rfl⟩, hm⟩

theorem onText_state (d : IrDelta) (s : StreamDecodeState) : (Section.onText d s).2 = s := by
  unfold Section.onText
  cases s.textIndex <;> rfl

theorem openText_tools (s : StreamDecodeState) : (Section.openText s).2.openTools = s.openTools ∧
    (Section.openText s).2.toolIrIndex = s.toolIrIndex := by
  have hslot : (Section.textSlot s).2.openTools = s.openTools ∧ (Section.textSlot s).2.toolIrIndex = s.toolIrIndex := by
    unfold Section.textSlot
    cases s.textIndex <;> exact ⟨rfl, rfl⟩
  unfold Section.openText
  dsimp only
  split <;> exact hslot

theorem openText_open (s : StreamDecodeState) : (Section.openText s).2.textBlockOpen = true := by
  unfold Section.openText
  obtain ⟨r, hr⟩ : ∃ r, r = Section.textSlot s := ⟨_, rfl⟩
  rw [← hr]
  dsimp only
  by_cases h : r.2.textBlockOpen = true
  · rw [if_pos h]
    exact h
  · rw [if_neg h]

/-- A delta of the text block, which is opened if need be. -/
theorem exact_onOpenText (ht : OfTools tools) (d : IrDelta) :
    Exact tools (s.textBlockOpen = false → s.textIndex = none) (Section.onOpenText d) s := by
  have hclose : Keeps tools Section.closeThinking s := keeps_closeThinking ht
  obtain ⟨s', hs'⟩ : ∃ s', s' = (Section.closeThinking s).2 := ⟨_, rfl⟩
  have hstate := closeThinking_state s
  rw [← hs'] at hstate
  have hopen : Exact tools (s'.textBlockOpen = false → s'.textIndex = none) Section.openText s' :=
    exact_openText ht (by rw [hstate])
  have hdelta : Keeps tools (Section.onText d) (Section.openText s').2 := keeps_onText d (openText_open s')
  refine ((Exact.of_keeps hclose).andThen hs' (hopen.next (Exact.of_keeps hdelta))).congr ?_
  rw [hstate]
  simp

theorem onOpenText_state (d : IrDelta) (s : StreamDecodeState) :
    (Section.onOpenText d s).2 = (Section.openText { s with thinkingBlockOpen := false }).2 := by
  unfold Section.onOpenText Section.next
  dsimp only
  rw [onText_state, closeThinking_state]

/-- The text block is open behind it, and the tools are as before. -/
theorem onOpenText_frame (d : IrDelta) (s : StreamDecodeState) : (Section.onOpenText d s).2.textBlockOpen = true ∧
    (Section.onOpenText d s).2.openTools = s.openTools ∧ (Section.onOpenText d s).2.toolIrIndex = s.toolIrIndex := by
  rw [onOpenText_state]
  exact ⟨openText_open _, openText_tools _⟩

/-- The counter does not go back. -/
theorem onOpenText_nextIrIndex (d : IrDelta) (s : StreamDecodeState) :
    s.nextIrIndex ≤ (Section.onOpenText d s).2.nextIrIndex := by
  rw [onOpenText_state]
  have hslot : s.nextIrIndex ≤ (Section.textSlot { s with thinkingBlockOpen := false }).2.nextIrIndex := by
    unfold Section.textSlot StreamDecodeState.claimIrIndex
    cases s.textIndex with
    | some i => exact le_rfl
    | none =>
      have hmax := le_max_left s.nextIrIndex (if s.reasoningSeen then 1 else 0)
      dsimp only
      omega
  unfold Section.openText
  dsimp only
  split <;> exact hslot

/-- A tool block opens at a claimed index, which joins the open ones. -/
theorem keeps_openTool {f : Section} {id name : String} {openTools : List Nat} {toolIrIndex : Table Nat Nat}
    (hf : f s = ([.blockStart s.claimIrIndex.1 (.toolUse id name)],
      { s.claimIrIndex.2 with openTools := openTools, toolIrIndex := toolIrIndex }))
    (hperm : s.claimIrIndex.1 ∉ tools s → (tools (f s).2).Perm (s.claimIrIndex.1 :: tools s)) : Keeps tools f s := by
  intro m hm
  have hnew : s.claimIrIndex.1 ∉ tools s := fun hk => claim_fresh s (hm.apart _ hk).2
  have hperm := hperm hnew
  rw [hf] at hperm ⊢
  obtain ⟨i, hi⟩ : ∃ i, i = s.claimIrIndex.1 := ⟨_, rfl⟩
  obtain ⟨s', hs'⟩ : ∃ s', s' = { s.claimIrIndex.2 with openTools := openTools, toolIrIndex := toolIrIndex } := ⟨_, rfl⟩
  rw [← hi, ← hs'] at hperm ⊢
  have hsolo : ∀ k, s'.Solo k ↔ s.Solo k := by
    intro k
    rw [hs']
    rfl
  have hspent : ∀ k, s'.Spent k ↔ k = i ∨ s.Spent k := by
    intro k
    rw [hs', hi]
    exact spent_claim s k
  have hfree : ¬ s.Spent i := by
    rw [hi]
    exact claim_fresh s
  have hopen : ∀ k, k ∈ tools s' ↔ k = i ∨ k ∈ tools s := by
    intro k
    rw [hperm.mem_iff, List.mem_cons]
  refine ⟨m.after (.take i false), Monitor.run_cons.2 ⟨⟨fun hk => hfree ((hm.spent i).1 hk), nofun⟩, rfl⟩, ?_⟩
  dsimp only
  refine ⟨?_, ?_, ?_, ?_, ?_, ?_, ?_, ?_⟩
  · intro k
    simp only [Monitor.after, Finset.mem_insert, hm.spent k, hspent k]
  · intro k
    rw [hsolo k, ← hm.solo k]
    rfl
  · intro k
    simp only [Monitor.after, Finset.mem_insert, hm.live k, hsolo k, hopen k]
    tauto
  · rw [hs']
    exact hm.indexed
  · intro j hj
    have hold : j < s.nextIrIndex := hm.claimed j (by rw [hs'] at hj; exact hj)
    have hnext : s'.nextIrIndex = max s.nextIrIndex (if s.reasoningSeen then 1 else 0) + 1 := by
      rw [hs']
      rfl
    omega
  · rw [hs']
    exact hm.ahead
  · rw [hperm.nodup_iff, List.nodup_cons]
    exact ⟨fun hk => hfree (hm.apart i hk).2, hm.nodup⟩
  · intro k hk
    rw [hsolo k, hspent k]
    rcases (hopen k).1 hk with rfl | hk
    · refine ⟨fun hs => ?_, Or.inl rfl⟩
      -- an open thinking or text block has been handed out
      rcases hs with ⟨rfl, hthink⟩ | ⟨-, hindex⟩
      · exact hfree (Or.inr ⟨rfl, (hm.ahead hthink).1⟩)
      · exact hfree (Or.inl (hm.claimed k hindex))
    · exact ⟨(hm.apart k hk).1, Or.inr (hm.apart k hk).2⟩

/-- The text block is closed; a reader may forget its index. -/
theorem keeps_closeText (ht : OfTools tools) {f : Section} (textIndex : Option Nat)
    (hopen : ∀ i, s.textBlockOpen = true → s.textIndex = some i →
      f s = ([.blockStop i], { s with textBlockOpen := false, textIndex := textIndex }))
    (hshut : s.textBlockOpen = false → f s = ([], s)) (hindex : textIndex = s.textIndex ∨ textIndex = none) :
    Keeps tools f s := by
  intro m hm
  by_cases h : s.textBlockOpen = true
  · obtain ⟨i, hi⟩ := Option.isSome_iff_exists.1 (hm.indexed h)
    obtain ⟨s', hs'⟩ : ∃ s', s' = { s with textBlockOpen := false, textIndex := textIndex } := ⟨_, rfl⟩
    have htools : tools s' = tools s := ht s s' (by rw [hs']) (by rw [hs'])
    have hthink : s.thinkingBlockOpen = false := by
      by_contra hthink
      have hclosed := (hm.ahead (by simpa using hthink)).2
      rw [h] at hclosed
      cases hclosed
    have hone : ∀ k, s.Solo k ↔ k = i := by
      intro k
      unfold StreamDecodeState.Solo
      rw [hthink, h, hi]
      simp [eq_comm]
    have hnone : ∀ k, ¬ s'.Solo k := by
      intro k
      rw [hs']
      unfold StreamDecodeState.Solo
      simp [hthink]
    rw [hopen i h hi, ← hs']
    refine ⟨m.after (.drop i), Monitor.run_cons.2 ⟨(hm.live i).2 (Or.inl ((hone i).2 rfl)), rfl⟩, ?_⟩
    dsimp only
    rw [htools]
    refine ⟨?_, ?_, ?_, ?_, ?_, ?_, hm.nodup, ?_⟩
    · rw [hs']
      exact hm.spent
    · intro k
      simp only [Monitor.after, Finset.mem_erase, hm.solo k, hone k, hnone k, iff_false]
      exact fun hk => hk.1 hk.2
    · intro k
      simp only [Monitor.after, Finset.mem_erase, hm.live k, hone k, hnone k, false_or]
      constructor
      · rintro ⟨hne, hk | hk⟩
        · exact absurd hk hne
        · exact hk
      · intro hk
        exact ⟨fun he => (hm.apart k hk).1 ((hone k).2 he), Or.inr hk⟩
    · rw [hs']
      intro h
      cases h
    · intro j hj
      rw [hs'] at hj ⊢
      rcases hindex with h' | h'
      · exact hm.claimed j (h' ▸ hj)
      · rw [h'] at hj
        cases hj
    · intro hthink'
      rw [hs', hthink] at hthink'
      cases hthink'
    · intro k hk
      refine ⟨hnone k, ?_⟩
      rw [hs']
      exact (hm.apart k hk).2
  · rw [hshut (by simpa using h)]
    exact ⟨m, rfl, hm⟩

/-- The tool blocks are closed one after the other. -/
theorem keeps_closeTools {f : Section} {openTools : List Nat} {toolIrIndex : Table Nat Nat}
    (hf : f s = ((tools s).map IrStreamEvent.blockStop,
      { s with openTools := openTools, toolIrIndex := toolIrIndex }))
    (hnone : tools (f s).2 = []) : Keeps tools f s := by
  intro m hm
  rw [hf] at hnone ⊢
  obtain ⟨ks, hks⟩ : ∃ ks, ks = tools s := ⟨_, rfl⟩
  rw [← hks] at hm ⊢
  rw [hnone]
  clear hf hks
  induction ks generalizing m with
  | nil => exact ⟨m, rfl, hm.spent, hm.solo, hm.live, hm.indexed, hm.claimed, hm.ahead, hm.nodup, hm.apart⟩
  | cons k ks ih =>
    obtain ⟨hk, hnodup⟩ := List.nodup_cons.1 hm.nodup
    have hsolo := (hm.apart k List.mem_cons_self).1
    have hrest : Slotted ks s (m.after (.drop k)) := by
      refine ⟨hm.spent, ?_, ?_, hm.indexed, hm.claimed, hm.ahead, hnodup,
        fun j hj => hm.apart j (List.mem_cons_of_mem _ hj)⟩
      · intro j
        simp only [Monitor.after, Finset.mem_erase, hm.solo j]
        exact ⟨fun h => h.2, fun h => ⟨fun he => hsolo (he ▸ h), h⟩⟩
      · intro j
        simp only [Monitor.after, Finset.mem_erase, hm.live j, List.mem_cons]
        constructor
        · rintro ⟨hne, h | rfl | h⟩
          · exact Or.inl h
          · exact absurd rfl hne
          · exact Or.inr h
        · rintro (h | h)
          · exact ⟨fun he => hsolo (he ▸ h), Or.inl h⟩
          · exact ⟨fun he => hk (he ▸ h), Or.inr (Or.inr h)⟩
    obtain ⟨m', hrun, hm'⟩ := ih (m.after (.drop k)) hrest
    exact ⟨m', Monitor.run_cons.2 ⟨(hm.live k).2 (Or.inr List.mem_cons_self), hrun⟩, hm'⟩

/-- With no block open the stream may be sealed. -/
theorem keeps_seal {evs : List IrStreamEvent} (hothers : ∀ a ∈ acts evs, a = .other)
    (hthink : s.thinkingBlockOpen = false) (htext : s.textBlockOpen = false) (hnone : tools s = []) :
    Keeps tools (Section.emit (evs ++ [.messageStop])) s := by
  have hquiet : Keeps tools (Section.emit evs) s := Keeps.of_quiet hothers (fun m hm => hm)
  have hstop : Keeps tools (Section.emit [.messageStop]) s := by
    intro m hm
    have hempty : m.live = ∅ := by
      ext k
      rw [hm.live k, hnone]
      unfold StreamDecodeState.Solo
      rw [hthink, htext]
      simp
    exact ⟨m, Monitor.run_cons.2 ⟨hempty, rfl⟩, hm⟩
  exact hquiet.next hstop

/-- **The end of a message.** Thinking, text and tools are closed one after the other, and the stream is sealed. -/
theorem keeps_finish (ht : OfTools tools) {closeText closeTools : Section} {evs : List IrStreamEvent}
    (htext : ∀ s : StreamDecodeState, Keeps tools closeText s ∧ (closeText s).2.textBlockOpen = false ∧
      (closeText s).2.thinkingBlockOpen = s.thinkingBlockOpen)
    (htools : ∀ s : StreamDecodeState, Keeps tools closeTools s ∧ tools (closeTools s).2 = [] ∧
      (closeTools s).2.textBlockOpen = s.textBlockOpen ∧ (closeTools s).2.thinkingBlockOpen = s.thinkingBlockOpen)
    (hothers : ∀ a ∈ acts evs, a = .other) :
    Keeps tools (Section.closeThinking.next (closeText.next (closeTools.next (Section.emit (evs ++ [.messageStop]))))) s := by
  obtain ⟨s₁, hs₁⟩ : ∃ s₁, s₁ = (Section.closeThinking s).2 := ⟨_, rfl⟩
  obtain ⟨s₂, hs₂⟩ : ∃ s₂, s₂ = (closeText s₁).2 := ⟨_, rfl⟩
  obtain ⟨s₃, hs₃⟩ : ∃ s₃, s₃ = (closeTools s₂).2 := ⟨_, rfl⟩
  have hthink₁ : s₁.thinkingBlockOpen = false := by rw [hs₁, closeThinking_state]
  obtain ⟨hkeep₂, htext₂, hthink₂⟩ := htext s₁
  obtain ⟨hkeep₃, hnone₃, htext₃, hthink₃⟩ := htools s₂
  rw [← hs₂] at htext₂ hthink₂
  rw [← hs₃] at hnone₃ htext₃ hthink₃
  have hseal : Keeps tools (Section.emit (evs ++ [.messageStop])) s₃ :=
    keeps_seal hothers (by rw [hthink₃, hthink₂, hthink₁]) (by rw [htext₃, htext₂]) hnone₃
  rw [hs₃] at hseal
  have hrest := hkeep₃.next hseal
  rw [hs₂] at hrest
  have hrest := hkeep₂.next hrest
  rw [hs₁] at hrest
  exact (keeps_closeThinking ht).next hrest

end Busbar
