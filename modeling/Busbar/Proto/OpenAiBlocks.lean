import Busbar.Proto.Blocks
import Busbar.Proto.OpenAi
import Busbar.Proto.Slotted

/-!
# The blocks of an OpenAI chat stream

A finish closes every block, yet leaves the index of the text block behind, and thinking always goes to index 0. What
comes later in the stream can then start an index a second time.

* `openToolBlocks`: the indices of the open tool blocks, as the finish reads them back.
* `Fresh`: a chunk that starts no index from before, read off the state in front of it.
* `exact_readResponseEvents`: one chunk is in order exactly when it is fresh.
* `paired_iff`: the blocks of a stream are in pairs exactly when every chunk is fresh.
-/

namespace Busbar.OpenAi

open Slots

/-- The indices of the open tool blocks, in the order of their keys. -/
def openToolBlocks (s : StreamDecodeState) : List Nat := s.openTools.filterMap s.toolIrIndex.lookup

/-- Every key with an index is open. -/
def Filed (s : StreamDecodeState) : Prop := ∀ key index, s.toolIrIndex.lookup key = some index → key ∈ s.openTools

/-- Thinking does not go back to an index 0 that has been handed out. -/
def ThinkingFresh (data : Json) (s : StreamDecodeState) : Prop :=
  ∀ reasoning ∈ reasoningOf data, reasoning ≠ "" → s.textBlockOpen = false → s.openTools = [] →
    s.thinkingBlockOpen = false → ¬ s.Spent 0

/-- Text does not go back to the index of a text block that has been closed. -/
def TextFresh (data : Json) (s : StreamDecodeState) : Prop :=
  ((contentOf data).or (refusalOf data)).isSome = true ∨ logprobsOf data ≠ [] → s.textBlockOpen = false →
    s.textIndex = none

/-- **A fresh chunk.** -/
def Fresh (data : Json) (s : StreamDecodeState) : Prop :=
  data.asStr = some sseDoneSentinel ∨ (ThinkingFresh data s ∧ TextFresh data s)

theorem ofTools_openToolBlocks : OfTools openToolBlocks := by
  intro s s' hopen hindex
  unfold openToolBlocks
  rw [hopen, hindex]

variable {s : StreamDecodeState} {data : Json}

/-! ## Sections that keep to the blocks -/

theorem keeps_readStart : Keeps openToolBlocks (readStart data) s := by
  unfold readStart
  by_cases h : s.started = true
  · refine Keeps.of_quiet ?_ ?_ <;> rw [if_pos h]
    · simp [acts]
    · exact fun m hm => hm
  · refine Keeps.of_quiet ?_ ?_ <;> rw [if_neg h]
    · simp [acts, IrStreamEvent.act]
    · intro m hm
      exact ⟨hm.spent, hm.solo, hm.live, hm.indexed, hm.claimed, hm.ahead, hm.nodup, hm.apart⟩

/-- Only `started` changes at the start. -/
theorem readStart_state : (readStart data s).2 = { s with started := true } := by
  unfold readStart
  by_cases h : s.started = true
  · rw [if_pos h, ← h]
  · rw [if_neg h]

/-- What the reasoning of a chunk does. -/
theorem readReasoning_cases (data : Json) (s : StreamDecodeState) :
    (readReasoning data s = ([], s) ∧ (reasoningOf data = none ∨ reasoningOf data = some "" ∨ s.textBlockOpen = true ∨
      s.openTools ≠ [])) ∨
    ∃ reasoning, reasoningOf data = some reasoning ∧ reasoning ≠ "" ∧ s.textBlockOpen = false ∧ s.openTools = [] ∧
      readReasoning data s = Section.next Section.openThinking (Section.emit [.blockDelta 0 (.thinking reasoning)]) s := by
  unfold readReasoning
  cases hr : reasoningOf data with
  | none => exact Or.inl ⟨rfl, Or.inl rfl⟩
  | some reasoning =>
    by_cases hgate : (!s.textBlockOpen && s.openTools.isEmpty) = true
    · rw [Option.filter_some, if_pos hgate]
      dsimp only
      obtain ⟨htext, htools⟩ : s.textBlockOpen = false ∧ s.openTools = [] := by simpa using hgate
      by_cases he : reasoning = ""
      · rw [if_pos he]
        exact Or.inl ⟨rfl, Or.inr (Or.inl (congrArg some he))⟩
      · rw [if_neg he]
        exact Or.inr ⟨reasoning, rfl, he, htext, htools, rfl⟩
    · rw [Option.filter_some, if_neg hgate]
      refine Or.inl ⟨rfl, Or.inr (Or.inr ?_)⟩
      by_contra hn
      obtain ⟨htext, htools⟩ := not_or.1 hn
      have hshut : s.textBlockOpen = false := by simpa using htext
      exact hgate (by simpa using ⟨hshut, not_not.1 htools⟩)

theorem exact_readReasoning : Exact openToolBlocks (ThinkingFresh data s) (readReasoning data) s := by
  rcases readReasoning_cases data s with ⟨heq, hwhy⟩ | ⟨reasoning, hr, hne, htext, htools, heq⟩
  · refine Exact.of_skip heq ?_
    intro reasoning hr hne htext htools
    rcases hwhy with h | h | h | h
    · rw [h] at hr
      cases hr
    · rw [h] at hr
      cases hr
      exact absurd rfl hne
    · rw [htext] at h
      cases h
    · exact absurd htools h
  · refine Exact.of_eq heq ?_
    refine (exact_thinking ofTools_openToolBlocks htext (by simp [acts, IrStreamEvent.act])).congr ?_
    unfold ThinkingFresh
    rw [hr]
    simp [hne, htext, htools]

/-- Text and tools are as before. -/
theorem readReasoning_frame : (readReasoning data s).2.textBlockOpen = s.textBlockOpen ∧
    (readReasoning data s).2.textIndex = s.textIndex ∧ (readReasoning data s).2.openTools = s.openTools ∧
    (readReasoning data s).2.toolIrIndex = s.toolIrIndex := by
  rcases readReasoning_cases data s with ⟨heq, -⟩ | ⟨reasoning, -, -, -, -, heq⟩
  · rw [heq]
    exact ⟨rfl, rfl, rfl, rfl⟩
  · rw [heq]
    exact openThinking_frame s

/-! ## Text -/

/-- What the content or refusal of a chunk does, behind the note that there was a refusal. -/
theorem readContent_cases (data : Json) (s : StreamDecodeState) : ∃ seen,
    ((contentOf data).or (refusalOf data) = none ∧ readContent data s = ([], { s with refusalSeen := seen })) ∨
    ∃ content, (contentOf data).or (refusalOf data) = some content ∧
      readContent data s = Section.onOpenText (.text content) { s with refusalSeen := seen } := by
  obtain ⟨seen, hseen⟩ : ∃ seen, (if (refusalOf data).isSome then { s with refusalSeen := true } else s) =
      { s with refusalSeen := seen } := by
    by_cases h : (refusalOf data).isSome = true
    · exact ⟨true, if_pos h⟩
    · exact ⟨s.refusalSeen, if_neg h⟩
  refine ⟨seen, ?_⟩
  unfold readContent
  dsimp only
  rw [hseen]
  cases hc : (contentOf data).or (refusalOf data) with
  | none => exact Or.inl ⟨rfl, rfl⟩
  | some content => exact Or.inr ⟨content, rfl, rfl⟩

theorem exact_readContent : Exact openToolBlocks (((contentOf data).or (refusalOf data)).isSome = true →
    s.textBlockOpen = false → s.textIndex = none) (readContent data) s := by
  obtain ⟨seen, ⟨hc, heq⟩ | ⟨content, hc, heq⟩⟩ := readContent_cases data s
  · refine (Exact.of_shift (g := Section.skip) heq ?_ (Exact.of_keeps (fun m hm => ⟨m, rfl, hm⟩))).congr ?_
    · exact fun m hm => ⟨hm.spent, hm.solo, hm.live, hm.indexed, hm.claimed, hm.ahead, hm.nodup, hm.apart⟩
    · rw [hc]
      simp
  · refine (Exact.of_shift heq ?_ (exact_onOpenText ofTools_openToolBlocks _)).congr ?_
    · exact fun m hm => ⟨hm.spent, hm.solo, hm.live, hm.indexed, hm.claimed, hm.ahead, hm.nodup, hm.apart⟩
    · rw [hc]
      simp

theorem readContent_frame : (((contentOf data).or (refusalOf data)).isSome = true →
      (readContent data s).2.textBlockOpen = true) ∧
    (((contentOf data).or (refusalOf data)).isSome = false → (readContent data s).2.textBlockOpen = s.textBlockOpen ∧
      (readContent data s).2.textIndex = s.textIndex) ∧
    (readContent data s).2.openTools = s.openTools ∧ (readContent data s).2.toolIrIndex = s.toolIrIndex := by
  obtain ⟨seen, ⟨hc, heq⟩ | ⟨content, hc, heq⟩⟩ := readContent_cases data s
  · rw [hc, heq]
    exact ⟨nofun, fun _ => ⟨rfl, rfl⟩, rfl, rfl⟩
  · obtain ⟨hopen, htools⟩ := onOpenText_frame (.text content) { s with refusalSeen := seen }
    rw [hc, heq]
    exact ⟨fun _ => hopen, nofun, htools⟩

theorem readLogprobs_cases (data : Json) (s : StreamDecodeState) :
    (readLogprobs data s = ([], s) ∧ logprobsOf data = []) ∨
    logprobsOf data ≠ [] ∧ ((s.textBlockOpen = true ∧
        readLogprobs data s = Section.onText (.logprobs (logprobsOf data)) s) ∨
      (s.textBlockOpen = false ∧ readLogprobs data s = Section.onOpenText (.logprobs (logprobsOf data)) s)) := by
  unfold readLogprobs
  dsimp only
  by_cases hlp : logprobsOf data = []
  · rw [if_pos (List.isEmpty_iff.2 hlp)]
    exact Or.inl ⟨rfl, hlp⟩
  · rw [if_neg (fun h => hlp (List.isEmpty_iff.1 h))]
    refine Or.inr ⟨hlp, ?_⟩
    by_cases h : s.textBlockOpen = true
    · rw [if_pos h]
      exact Or.inl ⟨h, rfl⟩
    · rw [if_neg h]
      exact Or.inr ⟨by simpa using h, rfl⟩

theorem exact_readLogprobs : Exact openToolBlocks (logprobsOf data ≠ [] → s.textBlockOpen = false → s.textIndex = none)
    (readLogprobs data) s := by
  rcases readLogprobs_cases data s with ⟨heq, hlp⟩ | ⟨hlp, ⟨hopen, heq⟩ | ⟨hshut, heq⟩⟩
  · exact Exact.of_skip heq (fun h => absurd hlp h)
  · refine (Exact.of_eq heq (Exact.of_keeps (keeps_onText _ hopen))).congr ?_
    simp [hopen]
  · refine (Exact.of_eq heq (exact_onOpenText ofTools_openToolBlocks _)).congr ?_
    simp [hlp]

theorem readLogprobs_tools : (readLogprobs data s).2.openTools = s.openTools ∧
    (readLogprobs data s).2.toolIrIndex = s.toolIrIndex := by
  rcases readLogprobs_cases data s with ⟨heq, -⟩ | ⟨-, ⟨-, heq⟩ | ⟨-, heq⟩⟩
  · rw [heq]
    exact ⟨rfl, rfl⟩
  · rw [heq, onText_state]
    exact ⟨rfl, rfl⟩
  · rw [heq]
    exact (onOpenText_frame _ s).2

/-! ## Tool calls -/

theorem openTool_cases (tc : Json) (s : StreamDecodeState) :
    (openTool tc s = ([], s) ∧ (toolName tc = none ∨ toolKey tc ∈ s.openTools ∨ maxOpenTools ≤ s.openTools.length)) ∨
    ∃ name, toolName tc = some name ∧ toolKey tc ∉ s.openTools ∧
      openTool tc s = ([.blockStart s.claimIrIndex.1 (.toolUse ((tc.getStr "id").getD "") name)],
        { s.claimIrIndex.2 with
          openTools := Translator.insertSorted (toolKey tc) s.openTools
          toolIrIndex := s.toolIrIndex.insert (toolKey tc) s.claimIrIndex.1 }) := by
  unfold openTool
  cases hn : toolName tc with
  | none => exact Or.inl ⟨rfl, Or.inl rfl⟩
  | some name =>
    dsimp only
    by_cases h : (!s.openTools.contains (toolKey tc) && decide (s.openTools.length < maxOpenTools)) = true
    · rw [if_pos h]
      have hnew : toolKey tc ∉ s.openTools := by
        have h' := (Bool.and_eq_true _ _).mp h
        simpa using h'.1
      exact Or.inr ⟨name, rfl, hnew, rfl⟩
    · rw [if_neg h]
      refine Or.inl ⟨rfl, Or.inr ?_⟩
      by_contra hn
      obtain ⟨hnew, hlen⟩ := not_or.1 hn
      exact h (by simpa using ⟨hnew, Nat.lt_of_not_le hlen⟩)

theorem keeps_openTool (tc : Json) (hfiled : Filed s) : Keeps openToolBlocks (openTool tc) s ∧
    Filed (openTool tc s).2 := by
  rcases openTool_cases tc s with ⟨heq, -⟩ | ⟨name, -, hnew, heq⟩
  · rw [heq]
    exact ⟨(Exact.of_skip (P := True) heq trivial).keeps trivial, hfiled⟩
  · refine ⟨Busbar.keeps_openTool heq (fun _ => ?_), ?_⟩
    · rw [heq]
      unfold openToolBlocks
      dsimp only
      have hperm := (Translator.perm_insertSorted hnew).filterMap
        (s.toolIrIndex.insert (toolKey tc) s.claimIrIndex.1).lookup
      have hold : s.openTools.filterMap (s.toolIrIndex.insert (toolKey tc) s.claimIrIndex.1).lookup =
          s.openTools.filterMap s.toolIrIndex.lookup := by
        refine List.filterMap_congr (fun key hkey => ?_)
        rw [Table.lookup_insert, if_neg]
        exact fun he => hnew (he ▸ hkey)
      rw [List.filterMap_cons, Table.lookup_insert, if_pos rfl, hold] at hperm
      exact hperm
    · rw [heq]
      intro key index hlook
      dsimp only at hlook ⊢
      rw [Translator.mem_insertSorted]
      rw [Table.lookup_insert] at hlook
      by_cases hk : toolKey tc = key
      · exact Or.inl hk.symm
      · rw [if_neg hk] at hlook
        exact Or.inr (hfiled key index hlook)

theorem keeps_onTool (tc : Json) (hfiled : Filed s) : Keeps openToolBlocks (onTool tc) s ∧ (onTool tc s).2 = s := by
  have hskip : onTool tc s = ([], s) → Keeps openToolBlocks (onTool tc) s ∧ (onTool tc s).2 = s := fun heq =>
    ⟨(Exact.of_skip (P := True) heq trivial).keeps trivial, by rw [heq]⟩
  cases ha : toolArguments tc with
  | none =>
    refine hskip ?_
    unfold onTool
    rw [ha]
  | some args =>
    cases hi : s.toolIrIndex.lookup (toolKey tc) with
    | none =>
      refine hskip ?_
      unfold onTool
      rw [ha]
      dsimp only
      rw [hi]
    | some index =>
      have heq : onTool tc s = Section.emit [.blockDelta index (.inputJson args)] s := by
        unfold onTool
        rw [ha]
        dsimp only
        rw [hi]
        rfl
      have hopen : index ∈ openToolBlocks s := List.mem_filterMap.2 ⟨toolKey tc, hfiled _ _ hi, hi⟩
      have hdelta := keeps_delta (.inputJson args) (Or.inr hopen)
      exact ⟨(Exact.of_eq heq (Exact.of_keeps hdelta)).keeps trivial, by rw [heq]; rfl⟩

theorem keeps_readToolCall (tc : Json) (s : StreamDecodeState) (hfiled : Filed s) :
    Keeps openToolBlocks (readToolCall tc) s ∧ Filed (readToolCall tc s).2 := by
  obtain ⟨hopen, hfiled'⟩ := keeps_openTool tc hfiled
  obtain ⟨hon, hsame⟩ := keeps_onTool tc hfiled'
  refine ⟨hopen.next hon, ?_⟩
  have hstate : (readToolCall tc s).2 = (openTool tc s).2 := hsame
  rw [hstate]
  exact hfiled'

theorem keeps_readToolCalls (hfiled : Filed s) : Keeps openToolBlocks (readToolCalls data) s ∧
    Filed (readToolCalls data s).2 := by
  cases htcs : toolCallsOf data with
  | none =>
    have heq : readToolCalls data s = ([], s) := by
      unfold readToolCalls
      rw [htcs]
    rw [heq]
    exact ⟨(Exact.of_skip (P := True) heq trivial).keeps trivial, hfiled⟩
  | some tcs =>
    have heq : readToolCalls data s = Section.closeThinking.next (Section.each readToolCall tcs) s := by
      unfold readToolCalls
      rw [htcs]
    have hclose : Keeps openToolBlocks Section.closeThinking s := keeps_closeThinking ofTools_openToolBlocks
    have hfiled' : Filed (Section.closeThinking s).2 := by
      rw [closeThinking_state]
      exact hfiled
    obtain ⟨heach, hend⟩ := Keeps.each keeps_readToolCall tcs hfiled'
    rw [heq]
    exact ⟨(Exact.of_eq heq (Exact.of_keeps (hclose.next heach))).keeps trivial, hend⟩

/-! ## The finish -/

theorem keeps_closeText (s : StreamDecodeState) : Keeps openToolBlocks closeText s ∧
    (closeText s).2.textBlockOpen = false ∧ (closeText s).2.thinkingBlockOpen = s.thinkingBlockOpen := by
  unfold closeText
  by_cases h : s.textBlockOpen = true
  · refine ⟨Busbar.keeps_closeText ofTools_openToolBlocks s.textIndex ?_ ?_ (Or.inl rfl), ?_⟩
    · intro i _ hi
      rw [if_pos h, hi]
      rfl
    · intro hshut
      rw [h] at hshut
      cases hshut
    · rw [if_pos h]
      exact ⟨rfl, rfl⟩
  · refine ⟨(Exact.of_skip (P := True) ?_ trivial).keeps trivial, ?_⟩
    · exact if_neg h
    · rw [if_neg h]
      exact ⟨by simpa using h, rfl⟩

theorem keeps_closeTools (s : StreamDecodeState) : Keeps openToolBlocks closeTools s ∧
    openToolBlocks (closeTools s).2 = [] ∧ (closeTools s).2.textBlockOpen = s.textBlockOpen ∧
    (closeTools s).2.thinkingBlockOpen = s.thinkingBlockOpen := by
  have heq : closeTools s = ((openToolBlocks s).map IrStreamEvent.blockStop,
      { s with openTools := [], toolIrIndex := Registry.empty }) := by
    unfold closeTools openToolBlocks
    rw [List.map_filterMap]
  exact ⟨Busbar.keeps_closeTools heq rfl, rfl, rfl, rfl⟩

/-- Without a finish the chunk has at most its usage left to tell. -/
theorem readFinish_none (hfr : finishReasonOf data = none) :
    ∃ evs, readFinish data s = (evs, s) ∧ ∀ a ∈ acts evs, a = .other := by
  unfold readFinish
  rw [hfr]
  cases usageOf data with
  | none => exact ⟨[], rfl, nofun⟩
  | some usage =>
    dsimp only
    split
    · exact ⟨_, rfl, by simp [acts, IrStreamEvent.act]⟩
    · exact ⟨[], rfl, nofun⟩

theorem keeps_readFinish (hfiled : Filed s) : Keeps openToolBlocks (readFinish data) s ∧ Filed (readFinish data s).2 := by
  cases hfr : finishReasonOf data with
  | none =>
    obtain ⟨evs, heq, hquiet⟩ := readFinish_none (s := s) hfr
    refine ⟨Keeps.of_quiet ?_ ?_, ?_⟩ <;> rw [heq]
    · exact hquiet
    · exact fun m hm => hm
    · exact hfiled
  | some fr =>
    have heq : readFinish data s = Section.closeThinking.next (closeText.next (closeTools.next (Section.emit
        ([.messageDelta (some (stopReasonOf s fr)) none ((usageOf data).getD .zero)] ++ [.messageStop])))) s := by
      unfold readFinish
      rw [hfr]
      rfl
    have hall := @keeps_finish _ s ofTools_openToolBlocks closeText closeTools
      [.messageDelta (some (stopReasonOf s fr)) none ((usageOf data).getD .zero)] keeps_closeText keeps_closeTools (by simp [acts, IrStreamEvent.act])
    refine ⟨(Exact.of_eq heq (Exact.of_keeps hall)).keeps trivial, ?_⟩
    -- behind the finish no key has an index
    rw [heq]
    intro key index hlook
    cases hlook

/-! ## One chunk -/

/-- What a section other than the tool calls and the finish leaves of the tools. -/
theorem Filed.of_tools {s' : StreamDecodeState} (h : Filed s) (hopen : s'.openTools = s.openTools)
    (hindex : s'.toolIrIndex = s.toolIrIndex) : Filed s' := by
  intro key index hlook
  rw [hindex] at hlook
  rw [hopen]
  exact h key index hlook

/-- **One chunk is in order exactly when it is fresh.** -/
theorem exact_readResponseEvents (data : Json) (s : StreamDecodeState) (hfiled : Filed s) :
    Exact openToolBlocks (Fresh data s) (readResponseEvents data) s ∧ Filed (readResponseEvents data s).2 := by
  unfold readResponseEvents Fresh
  by_cases hdone : data.asStr = some sseDoneSentinel
  · rw [if_pos hdone]
    exact ⟨Exact.of_skip rfl (Or.inl hdone), hfiled⟩
  rw [if_neg hdone]
  -- the states between the sections
  obtain ⟨s₁, hs₁⟩ : ∃ s₁, s₁ = (readStart data s).2 := ⟨_, rfl⟩
  have hstart : s₁ = { s with started := true } := by rw [hs₁, readStart_state]
  obtain ⟨s₂, hs₂⟩ : ∃ s₂, s₂ = (readReasoning data s₁).2 := ⟨_, rfl⟩
  obtain ⟨hopen₂, hindex₂, htools₂, hir₂⟩ := @readReasoning_frame s₁ data
  rw [← hs₂] at hopen₂ hindex₂ htools₂ hir₂
  obtain ⟨s₃, hs₃⟩ : ∃ s₃, s₃ = (readContent data s₂).2 := ⟨_, rfl⟩
  obtain ⟨hsome₃, hnone₃, htools₃, hir₃⟩ := @readContent_frame s₂ data
  rw [← hs₃] at hsome₃ hnone₃ htools₃ hir₃
  obtain ⟨s₄, hs₄⟩ : ∃ s₄, s₄ = (readLogprobs data s₃).2 := ⟨_, rfl⟩
  obtain ⟨htools₄, hir₄⟩ := @readLogprobs_tools s₃ data
  rw [← hs₄] at htools₄ hir₄
  obtain ⟨s₅, hs₅⟩ : ∃ s₅, s₅ = (readToolCalls data s₄).2 := ⟨_, rfl⟩
  have hfiled₁ : Filed s₁ := hfiled.of_tools (by rw [hstart]) (by rw [hstart])
  have hfiled₄ : Filed s₄ := hfiled₁.of_tools (by rw [htools₄, htools₃, htools₂]) (by rw [hir₄, hir₃, hir₂])
  obtain ⟨hcalls, hfiled₅⟩ := @keeps_readToolCalls s₄ data hfiled₄
  rw [← hs₅] at hfiled₅
  obtain ⟨hfinish, hfiled₆⟩ := @keeps_readFinish s₅ data hfiled₅
  have h₁ : Exact openToolBlocks True (readStart data) s := Exact.of_keeps keeps_readStart
  have h₂ := @exact_readReasoning s₁ data
  have h₃ := @exact_readContent s₂ data
  have h₄ := @exact_readLogprobs s₃ data
  have h₅₆ := (Exact.of_keeps hcalls).andThen hs₅ (Exact.of_keeps hfinish)
  have hall := h₁.andThen hs₁ (h₂.andThen hs₂ (h₃.andThen hs₃ (h₄.andThen hs₄ h₅₆)))
  have hend : (((readStart data).next ((readReasoning data).next ((readContent data).next ((readLogprobs data).next
      ((readToolCalls data).next (readFinish data)))))) s).2 = (readFinish data s₅).2 := by
    rw [hs₅, hs₄, hs₃, hs₂, hs₁]
    rfl
  refine ⟨hall.congr ?_, hend ▸ hfiled₆⟩
  -- the fields the conditions read are those in front of the chunk
  have hthinking : ThinkingFresh data s₁ ↔ ThinkingFresh data s := by rw [hstart]; rfl
  have htext : s₁.textBlockOpen = s.textBlockOpen ∧ s₁.textIndex = s.textIndex := by rw [hstart]; exact ⟨rfl, rfl⟩
  have hrest : ((((contentOf data).or (refusalOf data)).isSome = true → s₂.textBlockOpen = false → s₂.textIndex = none) ∧
      (logprobsOf data ≠ [] → s₃.textBlockOpen = false → s₃.textIndex = none) ∧ True ∧ True) ↔ TextFresh data s := by
    unfold TextFresh
    rw [hopen₂, hindex₂, htext.1, htext.2]
    cases hc : ((contentOf data).or (refusalOf data)).isSome with
    | true =>
      rw [hsome₃ hc]
      simp
    | false =>
      obtain ⟨hopen₃, hindex₃⟩ := hnone₃ hc
      rw [hopen₃, hindex₃, hopen₂, hindex₂, htext.1, htext.2]
      simp
  rw [hrest, hthinking]
  simp [hdone]

/-- **The blocks of a stream are in pairs exactly when every chunk is fresh.** Whatever the chunks are and whenever the
finish comes, an index is started once, deltas go to open blocks and a finish finds every block closed, unless a chunk
goes back to the text block behind a finish, or to thinking with index 0 gone. -/
theorem paired_iff (chunks : List Json) :
    Paired (acts (readAll chunks).1) ↔ Section.Along readResponseEvents Fresh chunks .default := by
  have hfiled : Filed .default := by
    intro key index hlook
    cases hlook
  have hexact := (Exact.each exact_readResponseEvents chunks hfiled).1
  exact ⟨fun h => hexact.of_paired rfl h, fun h => (hexact.orderly rfl h).toPaired⟩

def contentChunk (text : String) : Json :=
  .object [("choices", .array [.object [("delta", .object [("content", .string text)])]])]

def stopChunk : Json := .object [("choices", .array [.object [("finish_reason", .string "stop")]])]

/-- Content behind the finish starts the index of the closed text block again. -/
theorem text_reopens : ¬ Paired (acts (readAll [contentChunk "Hi", stopChunk, contentChunk "!"]).1) := by
  intro h
  have hacts : acts (readAll [contentChunk "Hi", stopChunk, contentChunk "!"]).1 =
      [.other, .take 0 true, .use 0, .drop 0, .other, .seal] ++ .take 0 true :: [.use 0] := by decide +kernel
  exact h.fresh _ 0 true _ hacts true (by decide)

end Busbar.OpenAi
