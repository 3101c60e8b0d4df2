import Busbar.Lib.Run
import Busbar.Proto.OpenAiBlocks

/-!
# What an OpenAI chat stream delivers

What a client puts together from the events, against what the chunks held.

* `textOf_chunk`, `thinkingOf_chunk`: the text and the thinking of one chunk.
* `Silent`: a chunk that leaves the gate of the thinking block open.
* `Routed`: every tool call that has been named gathers its fragments from then on.
* `output_complete`: what the deltas of a stream come to, ahead of the finish.
-/

namespace Busbar.OpenAi

variable {s : StreamDecodeState} {data : Json} {evs : List IrStreamEvent}

/-! ## Text and thinking of one chunk -/

theorem mute_readStart {pick : IrStreamEvent → Option String} (hp : OnDeltas pick) : Mute pick (readStart data) s := by
  intro ev hev
  unfold readStart at hev
  split at hev
  · cases hev
  · cases List.mem_singleton.1 hev
    exact hp _ nofun

theorem mute_readFinish {pick : IrStreamEvent → Option String} (hp : OnDeltas pick) (hfr : finishReasonOf data = none) :
    Mute pick (readFinish data) s := by
  intro ev hev
  unfold readFinish at hev
  rw [hfr] at hev
  dsimp only at hev
  split at hev
  · split at hev
    · cases List.mem_singleton.1 hev
      exact hp _ nofun
    · cases hev
  · cases hev

theorem mute_readReasoning {pick : IrStreamEvent → Option String} (hp : OnDeltas pick)
    (hthinking : ∀ i t, pick (.blockDelta i (.thinking t)) = none) : Mute pick (readReasoning data) s := by
  rcases readReasoning_cases data s with ⟨heq, -⟩ | ⟨reasoning, -, -, -, -, heq⟩
  · exact mute_skip (by rw [heq])
  · intro ev hev
    rw [heq] at hev
    refine Mute.next (mute_openThinking hp) ?_ ev hev
    intro ev hev
    cases List.mem_singleton.1 hev
    exact hthinking _ _

theorem mute_readContent {pick : IrStreamEvent → Option String} (hp : OnDeltas pick)
    (htext : ∀ i t, pick (.blockDelta i (.text t)) = none) : joined pick (readContent data s).1 = "" := by
  obtain ⟨seen, ⟨-, heq⟩ | ⟨content, -, heq⟩⟩ := readContent_cases data s
  · rw [heq]
    rfl
  · obtain ⟨i, hi⟩ := joined_onOpenText (s := { s with refusalSeen := seen }) hp (.text content)
    rw [heq, hi, htext]
    rfl

theorem mute_readLogprobs {pick : IrStreamEvent → Option String} (hp : OnDeltas pick)
    (hlogprobs : ∀ i l, pick (.blockDelta i (.logprobs l)) = none) : joined pick (readLogprobs data s).1 = "" := by
  rcases readLogprobs_cases data s with ⟨heq, -⟩ | ⟨-, ⟨-, heq⟩ | ⟨-, heq⟩⟩
  · rw [heq]
    rfl
  · rw [heq]
    refine Mute.joined (f := Section.onText _) ?_
    intro ev hev
    unfold Section.onText at hev
    split at hev
    · cases List.mem_singleton.1 hev
      exact hlogprobs _ _
    · cases hev
  · obtain ⟨i, hi⟩ := joined_onOpenText (s := s) hp (.logprobs (logprobsOf data))
    rw [heq, hi, hlogprobs]
    rfl

theorem mute_onTool {pick : IrStreamEvent → Option String}
    (hjson : ∀ i t, pick (.blockDelta i (.inputJson t)) = none) (tc : Json) : Mute pick (onTool tc) s := by
  intro ev hev
  unfold onTool at hev
  split at hev
  · cases hev
  · split at hev
    · cases hev
    · cases List.mem_singleton.1 hev
      exact hjson _ _

theorem mute_openTool {pick : IrStreamEvent → Option String} (hp : OnDeltas pick) (tc : Json) :
    Mute pick (openTool tc) s := by
  rcases openTool_cases tc s with ⟨heq, -⟩ | ⟨name, -, -, heq⟩
  · exact mute_skip (by rw [heq])
  · intro ev hev
    rw [heq] at hev
    cases List.mem_singleton.1 hev
    exact hp _ nofun

theorem mute_readToolCalls {pick : IrStreamEvent → Option String} (hp : OnDeltas pick)
    (hjson : ∀ i t, pick (.blockDelta i (.inputJson t)) = none) : Mute pick (readToolCalls data) s := by
  intro ev hev
  unfold readToolCalls at hev
  split at hev
  · cases hev
  · rename_i tcs htcs
    refine Mute.next (mute_closeThinking hp) ?_ ev hev
    clear htcs hev
    generalize (Section.closeThinking s).2 = s'
    induction tcs generalizing s' with
    | nil => exact nofun
    | cons tc tcs ih => exact ((mute_openTool hp tc).next (mute_onTool hjson tc)).next (ih _)

theorem readResponseEvents_done (hdone : data.asStr = some sseDoneSentinel) :
    readResponseEvents data s = ([], s) := by
  unfold readResponseEvents
  rw [if_pos hdone]
  rfl

/-- The sentinel has no choice and so no field. -/
theorem choice0_done (hdone : data.asStr = some sseDoneSentinel) : choice0 data = none := by
  cases data with
  | string t => rfl
  | _ => cases hdone

/-- **The text of a chunk** is its content, or else its refusal. -/
theorem textOf_chunk (hfr : finishReasonOf data = none) :
    textOf (readResponseEvents data s).1 = ((contentOf data).or (refusalOf data)).getD "" := by
  by_cases hdone : data.asStr = some sseDoneSentinel
  · have hdelta : deltaOf data = none := by
      unfold deltaOf
      rw [choice0_done hdone]
      rfl
    have hcontent : contentOf data = none := by
      unfold contentOf
      rw [hdelta]
      rfl
    have hrefusal : refusalOf data = none := by
      unfold refusalOf
      rw [hdelta]
      rfl
    rw [readResponseEvents_done hdone, hcontent, hrefusal]
    rfl
  · unfold readResponseEvents
    rw [if_neg hdone]
    obtain ⟨s₁, hs₁⟩ : ∃ s₁, s₁ = (readReasoning data (readStart data s).2).2 := ⟨_, rfl⟩
    have hcontent : joined textDelta (readContent data s₁).1 = ((contentOf data).or (refusalOf data)).getD "" := by
      obtain ⟨seen, ⟨hc, heq⟩ | ⟨content, hc, heq⟩⟩ := readContent_cases data s₁
      · rw [heq, hc]
        rfl
      · obtain ⟨i, hi⟩ := joined_onOpenText (s := { s₁ with refusalSeen := seen }) onDeltas_textDelta (.text content)
        rw [heq, hc, hi]
        rfl
    unfold textOf
    rw [joined_next, joined_next, joined_next, joined_next, joined_next, (mute_readStart onDeltas_textDelta).joined,
      (mute_readReasoning onDeltas_textDelta (fun _ _ => rfl)).joined, ← hs₁, hcontent,
      mute_readLogprobs onDeltas_textDelta (fun _ _ => rfl),
      (mute_readToolCalls onDeltas_textDelta (fun _ _ => rfl)).joined,
      (mute_readFinish onDeltas_textDelta hfr).joined]
    simp

/-- The gate of the thinking block. -/
def Gate (s : StreamDecodeState) : Prop := s.textBlockOpen = false ∧ s.openTools = []

instance (s : StreamDecodeState) : Decidable (Gate s) := by
  unfold Gate
  infer_instance

/-- **The thinking of a chunk** is its reasoning, while the gate is open. -/
theorem thinkingOf_chunk (hfr : finishReasonOf data = none) :
    thinkingOf (readResponseEvents data s).1 = if Gate s then (reasoningOf data).getD "" else "" := by
  by_cases hdone : data.asStr = some sseDoneSentinel
  · have hreasoning : reasoningOf data = none := by
      unfold reasoningOf deltaOf
      rw [choice0_done hdone]
      rfl
    rw [readResponseEvents_done hdone, hreasoning]
    split <;> rfl
  · unfold readResponseEvents
    rw [if_neg hdone]
    obtain ⟨s₁, hs₁⟩ : ∃ s₁, s₁ = (readStart data s).2 := ⟨_, rfl⟩
    have hgate : Gate s₁ ↔ Gate s := by
      rw [hs₁, readStart_state]
      rfl
    have hreasoning : joined thinkingDelta (readReasoning data s₁).1 =
        if Gate s then (reasoningOf data).getD "" else "" := by
      rcases readReasoning_cases data s₁ with ⟨heq, hwhy⟩ | ⟨reasoning, hr, -, htext, htools, heq⟩
      · rw [heq]
        rcases hwhy with h | h | h | h
        · rw [h]
          split <;> rfl
        · rw [h]
          split <;> rfl
        · rw [if_neg (fun hg => by rw [(hgate.2 hg).1] at h; cases h)]
          rfl
        · rw [if_neg (fun hg => h (hgate.2 hg).2)]
          rfl
      · rw [heq, if_pos (hgate.1 ⟨htext, htools⟩), hr, joined_next, (mute_openThinking onDeltas_thinkingDelta).joined]
        simp [Section.emit, joined, thinkingDelta]
    unfold thinkingOf
    rw [joined_next, joined_next, joined_next, joined_next, joined_next, (mute_readStart onDeltas_thinkingDelta).joined,
      ← hs₁, hreasoning, mute_readContent onDeltas_thinkingDelta (fun _ _ => rfl),
      mute_readLogprobs onDeltas_thinkingDelta (fun _ _ => rfl),
      (mute_readToolCalls onDeltas_thinkingDelta (fun _ _ => rfl)).joined,
      (mute_readFinish onDeltas_thinkingDelta hfr).joined]
    simp

/-! ## The gate -/

/-- The tool calls of a chunk, in pieces. -/
def toolEntries (data : Json) : List Json := (toolCallsOf data).getD []

/-- A chunk that says nothing but reasoning, as the gate sees it: even an empty content string opens the text block. -/
def Silent (data : Json) : Prop :=
  contentOf data = none ∧ refusalOf data = none ∧ logprobsOf data = [] ∧ ∀ tc ∈ toolEntries data, toolName tc = none

/-- The gate and the counter over the tool calls of a chunk. -/
theorem readToolCalls_frame : (readToolCalls data s).2.textBlockOpen = s.textBlockOpen ∧
    ((readToolCalls data s).2.openTools = [] ↔ s.openTools = [] ∧ ∀ tc ∈ toolEntries data, toolName tc = none) := by
  have hcall : ∀ (tc : Json) (s : StreamDecodeState), (readToolCall tc s).2 = (openTool tc s).2 := by
    intro tc s
    unfold readToolCall Section.next onTool
    dsimp only
    split
    · rfl
    · split <;> rfl
  have heach : ∀ (tcs : List Json) (s : StreamDecodeState), (Section.each readToolCall tcs s).2.textBlockOpen = s.textBlockOpen ∧
      ((Section.each readToolCall tcs s).2.openTools = [] ↔ s.openTools = [] ∧ ∀ tc ∈ tcs, toolName tc = none) := by
    intro tcs
    induction tcs with
    | nil => exact fun s => ⟨rfl, by simp [Section.each, Section.skip]⟩
    | cons tc tcs ih =>
      intro s
      obtain ⟨htext, htools⟩ := ih (readToolCall tc s).2
      have hnext : (Section.each readToolCall (tc :: tcs) s).2 = (Section.each readToolCall tcs (readToolCall tc s).2).2 := rfl
      rw [hnext, htext, htools, hcall, List.forall_mem_cons]
      rcases openTool_cases tc s with ⟨heq, hwhy⟩ | ⟨name, hname, -, heq⟩
      · rw [heq]
        refine ⟨rfl, ⟨fun h => ⟨h.1, ?_, h.2⟩, fun h => ⟨h.1, h.2.2⟩⟩⟩
        rcases hwhy with hn | hk | hlen
        · exact hn
        · rw [h.1] at hk
          cases hk
        · rw [h.1] at hlen
          exact absurd hlen (by decide)
      · rw [heq]
        refine ⟨rfl, ⟨fun h => ?_, fun h => ?_⟩⟩
        · have hmem : toolKey tc ∈ Translator.insertSorted (toolKey tc) s.openTools :=
            Translator.mem_insertSorted.2 (Or.inl rfl)
          have hnil : Translator.insertSorted (toolKey tc) s.openTools = [] := h.1
          rw [hnil] at hmem
          cases hmem
        · rw [hname] at h
          cases h.2.1
  unfold readToolCalls toolEntries
  cases toolCallsOf data with
  | none => simp
  | some tcs =>
    obtain ⟨htext, htools⟩ := heach tcs (Section.closeThinking s).2
    rw [closeThinking_state] at htext htools
    have hnext : (Section.closeThinking.next (Section.each readToolCall tcs) s).2 =
        (Section.each readToolCall tcs (Section.closeThinking s).2).2 := rfl
    dsimp only
    rw [hnext, closeThinking_state, htext, htools]
    exact ⟨rfl, Iff.rfl⟩

theorem readContent_text : (readContent data s).2.textBlockOpen = false ↔
    s.textBlockOpen = false ∧ contentOf data = none ∧ refusalOf data = none := by
  obtain ⟨hsome, hnone, -, -⟩ := @readContent_frame s data
  cases hc : ((contentOf data).or (refusalOf data)).isSome with
  | true =>
    rw [hsome hc]
    refine ⟨nofun, fun h => ?_⟩
    rw [h.2.1, h.2.2] at hc
    cases hc
  | false =>
    rw [(hnone hc).1]
    have hnot : contentOf data = none ∧ refusalOf data = none := by simpa using hc
    exact ⟨fun h => ⟨h, hnot⟩, fun h => h.1⟩

theorem readLogprobs_text : (readLogprobs data s).2.textBlockOpen = false ↔ s.textBlockOpen = false ∧ logprobsOf data = [] := by
  rcases readLogprobs_cases data s with ⟨heq, hlp⟩ | ⟨hlp, ⟨hopen, heq⟩ | ⟨hshut, heq⟩⟩
  · rw [heq]
    simp [hlp]
  · rw [heq, onText_state]
    simp [hopen]
  · rw [heq, (onOpenText_frame _ s).1]
    simp [hlp]

theorem readFinish_state (hfr : finishReasonOf data = none) : (readFinish data s).2 = s := by
  obtain ⟨evs, heq, -⟩ := readFinish_none (s := s) hfr
  rw [heq]

/-- **A chunk leaves the gate open exactly when it is silent.** -/
theorem gate_chunk (hfr : finishReasonOf data = none) : Gate (readResponseEvents data s).2 ↔ Gate s ∧ Silent data := by
  by_cases hdone : data.asStr = some sseDoneSentinel
  · have hchoice := choice0_done hdone
    have hsilent : Silent data := by
      unfold Silent contentOf refusalOf logprobsOf toolEntries toolCallsOf deltaOf
      rw [hchoice]
      exact ⟨rfl, rfl, rfl, nofun⟩
    rw [readResponseEvents_done hdone]
    exact ⟨fun h => ⟨h, hsilent⟩, fun h => h.1⟩
  · unfold readResponseEvents
    rw [if_neg hdone]
    obtain ⟨s₁, hs₁⟩ : ∃ s₁, s₁ = (readStart data s).2 := ⟨_, rfl⟩
    have hstart : s₁ = { s with started := true } := by rw [hs₁, readStart_state]
    obtain ⟨s₂, hs₂⟩ : ∃ s₂, s₂ = (readReasoning data s₁).2 := ⟨_, rfl⟩
    obtain ⟨htext₂, -, htools₂, -⟩ := @readReasoning_frame s₁ data
    rw [← hs₂] at htext₂ htools₂
    obtain ⟨s₃, hs₃⟩ : ∃ s₃, s₃ = (readContent data s₂).2 := ⟨_, rfl⟩
    obtain ⟨-, -, htools₃, -⟩ := @readContent_frame s₂ data
    have htext₃ := @readContent_text s₂ data
    rw [← hs₃] at htext₃ htools₃
    obtain ⟨s₄, hs₄⟩ : ∃ s₄, s₄ = (readLogprobs data s₃).2 := ⟨_, rfl⟩
    have htext₄ := @readLogprobs_text s₃ data
    obtain ⟨htools₄, -⟩ := @readLogprobs_tools s₃ data
    rw [← hs₄] at htext₄ htools₄
    obtain ⟨htext₅, htools₅⟩ := @readToolCalls_frame s₄ data
    have hend : (((readStart data).next ((readReasoning data).next ((readContent data).next ((readLogprobs data).next
        ((readToolCalls data).next (readFinish data)))))) s).2 = (readToolCalls data s₄).2 := by
      rw [hs₄, hs₃, hs₂, hs₁]
      exact readFinish_state hfr
    rw [hend]
    unfold Gate Silent
    rw [htext₅, htools₅, htext₄, htools₄, htext₃, htools₃, htext₂, htools₂, hstart]
    tauto

/-! ## The arguments of the tool calls -/

/-- Some entry under this key has had a name. -/
def Named (entries : List Json) (key : Nat) : Prop := ∃ tc ∈ entries, toolKey tc = key ∧ (toolName tc).isSome = true

/-- The fragments under a key from its first name on. -/
def fragments (entries : List Json) (key : Nat) : String :=
  String.join (((entries.filter (fun tc => toolKey tc = key)).dropWhile (fun tc => (toolName tc).isNone)).filterMap
    toolArguments)

theorem named_snoc {entries : List Json} {tc : Json} {key : Nat} :
    Named (entries ++ [tc]) key ↔ Named entries key ∨ (toolKey tc = key ∧ (toolName tc).isSome = true) := by
  unfold Named
  simp only [List.mem_append, List.mem_singleton, or_and_right, exists_or, exists_eq_left]

/-- Without a name under the key every fragment of it is passed over. -/
theorem dropWhile_eq_nil {entries : List Json} {key : Nat} :
    ((entries.filter (fun tc => toolKey tc = key)).dropWhile (fun tc => (toolName tc).isNone)) = [] ↔
      ¬ Named entries key := by
  rw [List.dropWhile_eq_nil_iff]
  unfold Named
  constructor
  · rintro h ⟨e, he, hk, hn⟩
    have hnone := h e (List.mem_filter.2 ⟨he, by simpa using hk⟩)
    rw [Option.isNone_iff_eq_none.1 hnone] at hn
    cases hn
  · intro h e he
    obtain ⟨he, hk⟩ := List.mem_filter.1 he
    by_contra hn
    exact h ⟨e, he, by simpa using hk, by simpa [Option.isSome_iff_ne_none] using hn⟩

/-- A fragment counts once its key has a name. -/
theorem fragments_snoc {entries : List Json} {tc : Json} {key : Nat} (hk : toolKey tc = key)
    (hn : Named (entries ++ [tc]) key) :
    fragments (entries ++ [tc]) key = fragments entries key ++ (toolArguments tc).getD "" := by
  have hone : String.join ([tc].filterMap toolArguments) = (toolArguments tc).getD "" := by
    cases ha : toolArguments tc <;> simp [ha]
  have hfilter : [tc].filter (fun tc => toolKey tc = key) = [tc] := by simp [hk]
  unfold fragments
  rw [List.filter_append, List.dropWhile_append, hfilter]
  by_cases hold : Named entries key
  · rw [if_neg (fun he => dropWhile_eq_nil.1 (List.isEmpty_iff.1 he) hold), List.filterMap_append, String.join_append, hone]
  · rw [if_pos (List.isEmpty_iff.2 (dropWhile_eq_nil.2 hold)), dropWhile_eq_nil.2 hold]
    -- the entry has the name itself
    have hname : (toolName tc).isNone = false := by
      rcases named_snoc.1 hn with h | h
      · exact absurd h hold
      · rw [Option.isNone_eq_false_iff]
        exact h.2
    rw [List.dropWhile_cons_of_neg (p := fun tc => (toolName tc).isNone) (by rw [hname]; exact Bool.false_ne_true), hone]
    simp

theorem fragments_snoc_of_not {entries : List Json} {tc : Json} {key : Nat}
    (h : ¬ (toolKey tc = key ∧ Named (entries ++ [tc]) key)) : fragments (entries ++ [tc]) key = fragments entries key := by
  unfold fragments
  rw [List.filter_append, List.dropWhile_append]
  by_cases hk : toolKey tc = key
  · have hnone : ¬ Named (entries ++ [tc]) key := fun hn => h ⟨hk, hn⟩
    have hold : ¬ Named entries key := fun hn => hnone (named_snoc.2 (Or.inl hn))
    have hname : (toolName tc).isNone = true := by
      by_contra hn
      exact hnone (named_snoc.2 (Or.inr ⟨hk, by simpa [Option.isSome_iff_ne_none] using hn⟩))
    have hfilter : [tc].filter (fun tc => toolKey tc = key) = [tc] := by simp [hk]
    rw [if_pos (List.isEmpty_iff.2 (dropWhile_eq_nil.2 hold)), dropWhile_eq_nil.2 hold, hfilter,
      List.dropWhile_cons_of_pos (p := fun tc => (toolName tc).isNone) hname]
    rfl
  · have hfilter : [tc].filter (fun tc => toolKey tc = key) = [] := by simp [hk]
    rw [hfilter]
    split
    · rename_i hempty
      rw [List.isEmpty_iff.1 hempty]
      rfl
    · rw [List.append_nil]

/-- **Every named tool call has a block, and the block has its fragments.** -/
structure Routed (names : Nat → Prop) (gathered : Nat → String) (evs : List IrStreamEvent) (s : StreamDecodeState) :
    Prop where
  filed : ∀ key, key ∈ s.openTools ↔ ∃ index, s.toolIrIndex.lookup key = some index
  named : ∀ key, key ∈ s.openTools ↔ names key
  nodup : s.openTools.Nodup
  bounded : ∀ key ∈ s.openTools, key ≤ maxToolIndex
  apart : ∀ key key' index, s.toolIrIndex.lookup key = some index → s.toolIrIndex.lookup key' = some index → key = key'
  claimed : ∀ key index, s.toolIrIndex.lookup key = some index → index < s.nextIrIndex
  ahead : ∀ index, s.nextIrIndex ≤ index → argumentsOf index evs = ""
  routed : ∀ key index, s.toolIrIndex.lookup key = some index → argumentsOf index evs = gathered key

namespace Routed

variable {names names' : Nat → Prop} {gathered gathered' : Nat → String}

theorem argumentsOf_append (index : Nat) (evs evs' : List IrStreamEvent) :
    argumentsOf index (evs ++ evs') = argumentsOf index evs ++ argumentsOf index evs' := joined_append _ _ _

/-- Sections without arguments that leave the tools alone. -/
theorem quiet (h : Routed names gathered evs s) {evs' : List IrStreamEvent} {s' : StreamDecodeState}
    (hevs : ∀ index, argumentsOf index evs' = "") (hopen : s'.openTools = s.openTools)
    (hindex : s'.toolIrIndex = s.toolIrIndex) (hnext : s.nextIrIndex ≤ s'.nextIrIndex) :
    Routed names gathered (evs ++ evs') s' := by
  have harguments : ∀ index, argumentsOf index (evs ++ evs') = argumentsOf index evs := by
    intro index
    rw [argumentsOf_append, hevs]
    exact String.append_empty
  refine ⟨?_, ?_, ?_, ?_, ?_, ?_, ?_, ?_⟩
  · rw [hopen, hindex]
    exact h.filed
  · rw [hopen]
    exact h.named
  · rw [hopen]
    exact h.nodup
  · rw [hopen]
    exact h.bounded
  · rw [hindex]
    exact h.apart
  · intro key index hlook
    rw [hindex] at hlook
    have hold := h.claimed key index hlook
    omega
  · intro index hlt
    rw [harguments]
    exact h.ahead index (by omega)
  · intro key index hlook
    rw [hindex] at hlook
    rw [harguments]
    exact h.routed key index hlook

theorem behind (h : Routed names gathered evs s) (f : Section) (hevs : ∀ index, argumentsOf index (f s).1 = "")
    (hopen : (f s).2.openTools = s.openTools) (hindex : (f s).2.toolIrIndex = s.toolIrIndex)
    (hnext : s.nextIrIndex ≤ (f s).2.nextIrIndex) : Routed names gathered (evs ++ (f s).1) (f s).2 :=
  h.quiet hevs hopen hindex hnext

theorem congr (h : Routed names gathered evs s) (hnames : ∀ key, names key ↔ names' key)
    (hgathered : ∀ key, names key → gathered key = gathered' key) : Routed names' gathered' evs s := by
  refine ⟨h.filed, fun key => (h.named key).trans (hnames key), h.nodup, h.bounded, h.apart, h.claimed, h.ahead, ?_⟩
  intro key index hlook
  rw [h.routed key index hlook]
  exact hgathered key ((h.named key).1 ((h.filed key).2 ⟨index, hlook⟩))

theorem toolKey_le (tc : Json) : toolKey tc ≤ maxToolIndex := by
  unfold toolKey
  cases (tc.get "index").bind Json.asU64 with
  | none => exact Nat.zero_le _
  | some v => exact Nat.min_le_right v maxToolIndex

/-- There are no more keys than blocks that may be open. -/
theorem room (h : Routed names gathered evs s) {key : Nat} (hkey : key ≤ maxToolIndex) (hnew : key ∉ s.openTools) :
    s.openTools.length < maxOpenTools := by
  have hnodup : (key :: s.openTools).Nodup := List.nodup_cons.2 ⟨hnew, h.nodup⟩
  have hsub : (key :: s.openTools) ⊆ List.range maxOpenTools := by
    intro k hk
    rw [List.mem_range]
    rcases List.mem_cons.1 hk with rfl | hk
    · exact Nat.lt_succ_of_le hkey
    · exact Nat.lt_succ_of_le (h.bounded k hk)
  have hlen := (List.subperm_of_subset hnodup hsub).length_le
  rw [List.length_cons, List.length_range] at hlen
  omega

/-- A call opens its block with its name. -/
theorem openCall (h : Routed names gathered evs s) (tc : Json) (hempty : ∀ key, ¬ names key → gathered key = "") :
    Routed (fun key => names key ∨ (toolKey tc = key ∧ (toolName tc).isSome = true)) gathered (evs ++ (openTool tc s).1)
      (openTool tc s).2 := by
  rcases openTool_cases tc s with ⟨heq, hwhy⟩ | ⟨name, hname, hnew, heq⟩
  · have hold : Routed names gathered (evs ++ (openTool tc s).1) (openTool tc s).2 := by
      rw [heq]
      exact h.quiet (fun _ => rfl) rfl rfl le_rfl
    refine hold.congr (fun key => ⟨Or.inl, ?_⟩) (fun _ _ => rfl)
    rintro (hk | ⟨rfl, hn⟩)
    · exact hk
    · rcases hwhy with hnone | hmem | hfull
      · rw [hnone] at hn
        cases hn
      · exact (h.named _).1 hmem
      · by_contra hno
        have hroom := h.room (toolKey_le tc) (fun hmem => hno ((h.named _).1 hmem))
        omega
  · obtain ⟨i, hi⟩ : ∃ i, i = s.claimIrIndex.1 := ⟨_, rfl⟩
    have hle : s.nextIrIndex ≤ i := by
      rw [hi]
      exact le_max_left _ _
    have hquiet : ∀ index, argumentsOf index (openTool tc s).1 = "" := fun index => by
      have hmute : Mute (argumentsDelta index) (openTool tc) s := mute_openTool (onDeltas_argumentsDelta index) tc
      exact hmute.joined
    have harguments : ∀ index, argumentsOf index (evs ++ (openTool tc s).1) = argumentsOf index evs := by
      intro index
      rw [argumentsOf_append, hquiet]
      exact String.append_empty
    obtain ⟨s', hs'⟩ : ∃ s', s' = (openTool tc s).2 := ⟨_, rfl⟩
    have hopen : s'.openTools = Translator.insertSorted (toolKey tc) s.openTools := by rw [hs', heq]
    have hnext : s'.nextIrIndex = i + 1 := by rw [hs', heq, hi]; rfl
    have hlook : ∀ key, s'.toolIrIndex.lookup key = if toolKey tc = key then some i else s.toolIrIndex.lookup key := by
      intro key
      rw [hs', heq, hi]
      exact Table.lookup_insert _ _ _ _
    rw [← hs']
    have hunnamed : ¬ names (toolKey tc) := fun hn => hnew ((h.named _).2 hn)
    refine ⟨?_, ?_, ?_, ?_, ?_, ?_, ?_, ?_⟩
    · intro key
      rw [hopen, hlook, Translator.mem_insertSorted]
      by_cases hk : toolKey tc = key
      · rw [if_pos hk]
        exact ⟨fun _ => ⟨i, rfl⟩, fun _ => Or.inl hk.symm⟩
      · rw [if_neg hk, ← h.filed key]
        exact ⟨fun h' => h'.resolve_left (fun he => hk he.symm), Or.inr⟩
    · intro key
      rw [hopen, Translator.mem_insertSorted, h.named key, hname]
      simp only [Option.isSome_some, and_true]
      rw [or_comm, eq_comm]
    · rw [hopen, (Translator.perm_insertSorted hnew).nodup_iff, List.nodup_cons]
      exact ⟨hnew, h.nodup⟩
    · intro key hkey
      rw [hopen, Translator.mem_insertSorted] at hkey
      rcases hkey with rfl | hkey
      · exact toolKey_le tc
      · exact h.bounded key hkey
    · intro key key' index hk hk'
      rw [hlook] at hk hk'
      by_cases he : toolKey tc = key
      · by_cases he' : toolKey tc = key'
        · exact he.symm.trans he'
        · rw [if_pos he] at hk
          rw [if_neg he'] at hk'
          cases hk
          have hlt := h.claimed key' i hk'
          omega
      · rw [if_neg he] at hk
        by_cases he' : toolKey tc = key'
        · rw [if_pos he'] at hk'
          cases hk'
          have hlt := h.claimed key i hk
          omega
        · rw [if_neg he'] at hk'
          exact h.apart key key' index hk hk'
    · intro key index hk
      rw [hlook] at hk
      rw [hnext]
      by_cases he : toolKey tc = key
      · rw [if_pos he] at hk
        cases hk
        omega
      · rw [if_neg he] at hk
        have hlt := h.claimed key index hk
        omega
    · intro index hlt
      rw [harguments]
      exact h.ahead index (by omega)
    · intro key index hk
      rw [harguments]
      rw [hlook] at hk
      by_cases he : toolKey tc = key
      · rw [if_pos he] at hk
        cases hk
        rw [h.ahead _ hle, ← he, hempty _ hunnamed]
      · rw [if_neg he] at hk
        exact h.routed key index hk

/-- A fragment goes to the block of its call. -/
theorem onCall (h : Routed names gathered evs s) (tc : Json) :
    Routed names (fun key => if toolKey tc = key then gathered key ++ (toolArguments tc).getD "" else gathered key)
      (evs ++ (onTool tc s).1) (onTool tc s).2 := by
  unfold onTool
  cases ha : toolArguments tc with
  | none =>
    refine (h.behind Section.skip (fun _ => rfl) rfl rfl le_rfl).congr (fun _ => Iff.rfl) (fun key _ => ?_)
    split <;> simp
  | some args =>
    dsimp only
    cases hi : s.toolIrIndex.lookup (toolKey tc) with
    | none =>
      refine (h.behind Section.skip (fun _ => rfl) rfl rfl le_rfl).congr (fun _ => Iff.rfl) (fun key hn => ?_)
      by_cases hk : toolKey tc = key
      · obtain ⟨index, hlook⟩ := (h.filed key).1 ((h.named key).2 hn)
        rw [← hk, hi] at hlook
        cases hlook
      · rw [if_neg hk]
    | some index =>
      dsimp only
      have harguments : ∀ i, argumentsOf i (evs ++ [.blockDelta index (.inputJson args)]) =
          if index = i then argumentsOf i evs ++ args else argumentsOf i evs := by
        intro i
        rw [argumentsOf_append]
        unfold argumentsOf joined argumentsDelta
        by_cases hi : index = i
        · simp [hi]
        · simp [hi]
      refine ⟨h.filed, h.named, h.nodup, h.bounded, h.apart, h.claimed, ?_, ?_⟩
      · intro i hle
        have hlt := h.claimed _ _ hi
        rw [harguments, if_neg (by omega)]
        exact h.ahead i hle
      · intro key i hlook
        rw [harguments]
        by_cases hk : toolKey tc = key
        · rw [hk] at hi
          rw [hi] at hlook
          cases hlook
          rw [if_pos rfl, if_pos hk, h.routed key index hi]
          rfl
        · have hne : index ≠ i := by
            rintro rfl
            exact hk (h.apart _ _ _ hi hlook)
          rw [if_neg hne, if_neg hk]
          exact h.routed key i hlook

end Routed

/-- One piece of a tool call. -/
theorem routed_readToolCall {entries : List Json} (h : Routed (Named entries) (fragments entries) evs s) (tc : Json) :
    Routed (Named (entries ++ [tc])) (fragments (entries ++ [tc])) (evs ++ (readToolCall tc s).1)
      (readToolCall tc s).2 := by
  have hempty : ∀ key, ¬ Named entries key → fragments entries key = "" := by
    intro key hn
    unfold fragments
    rw [dropWhile_eq_nil.2 hn]
    rfl
  have hall := (h.openCall tc hempty).onCall tc
  rw [List.append_assoc] at hall
  refine hall.congr (fun key => named_snoc.symm) (fun key hn => ?_)
  by_cases hk : toolKey tc = key
  · rw [if_pos hk, fragments_snoc hk (named_snoc.2 hn)]
  · rw [if_neg hk, fragments_snoc_of_not (fun h => hk h.1)]

theorem routed_each {entries : List Json} (h : Routed (Named entries) (fragments entries) evs s) (tcs : List Json) :
    Routed (Named (entries ++ tcs)) (fragments (entries ++ tcs)) (evs ++ (Section.each readToolCall tcs s).1)
      (Section.each readToolCall tcs s).2 := by
  induction tcs generalizing entries evs s with
  | nil =>
    rw [List.append_nil]
    exact h.quiet (fun _ => rfl) rfl rfl le_rfl
  | cons tc tcs ih =>
    have hstep := ih (routed_readToolCall h tc)
    rw [List.append_assoc, List.append_assoc] at hstep
    exact hstep

theorem nextIrIndex_readReasoning : (readReasoning data s).2.nextIrIndex = s.nextIrIndex := by
  have hopen : (Section.openThinking s).2.nextIrIndex = s.nextIrIndex := by
    unfold Section.openThinking
    dsimp only
    split <;> rfl
  rcases readReasoning_cases data s with ⟨heq, -⟩ | ⟨reasoning, -, -, -, -, heq⟩
  · rw [heq]
  · rw [heq]
    exact hopen

theorem nextIrIndex_readContent : s.nextIrIndex ≤ (readContent data s).2.nextIrIndex := by
  obtain ⟨seen, ⟨-, heq⟩ | ⟨content, -, heq⟩⟩ := readContent_cases data s
  · rw [heq]
  · rw [heq]
    exact onOpenText_nextIrIndex (.text content) { s with refusalSeen := seen }

theorem nextIrIndex_readLogprobs : s.nextIrIndex ≤ (readLogprobs data s).2.nextIrIndex := by
  rcases readLogprobs_cases data s with ⟨heq, -⟩ | ⟨-, ⟨-, heq⟩ | ⟨-, heq⟩⟩
  · rw [heq]
  · rw [heq, onText_state]
  · rw [heq]
    exact onOpenText_nextIrIndex _ s

theorem routed_readToolCalls {entries : List Json} (h : Routed (Named entries) (fragments entries) evs s) :
    Routed (Named (entries ++ toolEntries data)) (fragments (entries ++ toolEntries data))
      (evs ++ (readToolCalls data s).1) (readToolCalls data s).2 := by
  unfold readToolCalls toolEntries
  cases toolCallsOf data with
  | none =>
    rw [Option.getD_none, List.append_nil]
    exact h.quiet (fun _ => rfl) rfl rfl le_rfl
  | some tcs =>
    have hclose : Routed (Named entries) (fragments entries) (evs ++ (Section.closeThinking s).1)
        (Section.closeThinking s).2 := by
      refine h.quiet (fun index => (mute_closeThinking (onDeltas_argumentsDelta index)).joined) ?_ ?_ ?_ <;>
        rw [closeThinking_state]
    have hall := routed_each hclose tcs
    rw [List.append_assoc] at hall
    exact hall

theorem routed_chunk {entries : List Json} (h : Routed (Named entries) (fragments entries) evs s)
    (hfr : finishReasonOf data = none) :
    Routed (Named (entries ++ toolEntries data)) (fragments (entries ++ toolEntries data))
      (evs ++ (readResponseEvents data s).1) (readResponseEvents data s).2 := by
  by_cases hdone : data.asStr = some sseDoneSentinel
  · have hentries : toolEntries data = [] := by
      unfold toolEntries toolCallsOf deltaOf
      rw [choice0_done hdone]
      rfl
    rw [readResponseEvents_done hdone, hentries, List.append_nil]
    exact h.quiet (fun _ => rfl) rfl rfl le_rfl
  · unfold readResponseEvents
    rw [if_neg hdone]
    have hp := onDeltas_argumentsDelta
    -- section by section
    have h₁ : Routed (Named entries) (fragments entries) (evs ++ (readStart data s).1) (readStart data s).2 := by
      refine h.quiet (fun index => (mute_readStart (hp index)).joined) ?_ ?_ ?_ <;> rw [readStart_state]
    obtain ⟨s₁, hs₁⟩ : ∃ s₁, s₁ = (readStart data s).2 := ⟨_, rfl⟩
    rw [← hs₁] at h₁
    obtain ⟨-, -, htools₂, hindex₂⟩ := @readReasoning_frame s₁ data
    have h₂ := h₁.behind (readReasoning data) (fun index => (mute_readReasoning (hp index) (fun _ _ => rfl)).joined) htools₂ hindex₂
      (le_of_eq nextIrIndex_readReasoning.symm)
    obtain ⟨s₂, hs₂⟩ : ∃ s₂, s₂ = (readReasoning data s₁).2 := ⟨_, rfl⟩
    rw [← hs₂] at h₂
    obtain ⟨-, -, htools₃, hindex₃⟩ := @readContent_frame s₂ data
    have h₃ := h₂.behind (readContent data) (fun index => mute_readContent (hp index) (fun _ _ => rfl)) htools₃ hindex₃
      nextIrIndex_readContent
    obtain ⟨s₃, hs₃⟩ : ∃ s₃, s₃ = (readContent data s₂).2 := ⟨_, rfl⟩
    rw [← hs₃] at h₃
    obtain ⟨htools₄, hindex₄⟩ := @readLogprobs_tools s₃ data
    have h₄ := h₃.behind (readLogprobs data) (fun index => mute_readLogprobs (hp index) (fun _ _ => rfl)) htools₄ hindex₄
      nextIrIndex_readLogprobs
    obtain ⟨s₄, hs₄⟩ : ∃ s₄, s₄ = (readLogprobs data s₃).2 := ⟨_, rfl⟩
    rw [← hs₄] at h₄
    have h₅ := @routed_readToolCalls s₄ data _ _ h₄
    obtain ⟨s₅, hs₅⟩ : ∃ s₅, s₅ = (readToolCalls data s₄).2 := ⟨_, rfl⟩
    rw [← hs₅] at h₅
    have hsame : (readFinish data s₅).2 = s₅ := readFinish_state hfr
    have h₆ := h₅.behind (readFinish data) (fun index => (mute_readFinish (hp index) hfr).joined)
      (by rw [hsame]) (by rw [hsame]) (by rw [hsame])
    simp only [List.append_assoc] at h₆
    rw [hs₅, hs₄, hs₃, hs₂, hs₁] at h₆
    exact h₆

/-! ## The stream -/

/-- A chunk with which the answer begins. -/
def Begins (data : Json) : Prop :=
  (contentOf data ≠ none ∧ contentOf data ≠ some "") ∨ refusalOf data ≠ none ∨ logprobsOf data ≠ [] ∨
    ∃ tc ∈ toolEntries data, toolName tc ≠ none

instance (data : Json) : Decidable (Begins data) := by
  unfold Begins
  infer_instance

/-- The chunks up to the one with which the answer begins, which may end the reasoning itself. -/
def beforeAnswer : List Json → List Json
  | [] => []
  | c :: cs => c :: if Begins c then [] else beforeAnswer cs

theorem beforeAnswer_snoc (cs : List Json) (c : Json) :
    beforeAnswer (cs ++ [c]) = if ∃ c' ∈ cs, Begins c' then beforeAnswer cs else beforeAnswer cs ++ [c] := by
  induction cs with
  | nil => simp [beforeAnswer]
  | cons c' cs ih =>
    rw [List.cons_append]
    unfold beforeAnswer
    by_cases h : Begins c'
    · simp [h]
    · simp only [if_neg h, ih]
      by_cases h' : ∃ c'' ∈ cs, Begins c''
      · rw [if_pos h', if_pos]
        obtain ⟨c'', hc'', hb⟩ := h'
        exact ⟨c'', List.mem_cons_of_mem _ hc'', hb⟩
      · rw [if_neg h', if_neg]
        · rfl
        · rintro ⟨c'', hc'', hb⟩
          rcases List.mem_cons.1 hc'' with rfl | hc''
          · exact h hb
          · exact h' ⟨c'', hc'', hb⟩

/-- A chunk that is not silent yet does not begin the answer has an empty content string. -/
theorem content_empty {c : Json} (hs : ¬ Silent c) (hb : ¬ Begins c) : contentOf c = some "" := by
  obtain ⟨hcontent, hrest⟩ := not_or.1 hb
  obtain ⟨hrefusal, hrest⟩ := not_or.1 hrest
  obtain ⟨hlogprobs, hnames⟩ := not_or.1 hrest
  by_contra hne
  refine hs ⟨?_, not_not.1 hrefusal, not_not.1 hlogprobs, ?_⟩
  · by_contra hnone
    exact hcontent ⟨hnone, hne⟩
  · intro tc htc
    by_contra hn
    exact hnames ⟨tc, htc, hn⟩

theorem not_silent {c : Json} (hb : Begins c) : ¬ Silent c := by
  rintro ⟨hcontent, hrefusal, hlogprobs, hnames⟩
  rcases hb with ⟨h, -⟩ | h | h | ⟨tc, htc, h⟩
  · exact h hcontent
  · exact h hrefusal
  · exact h hlogprobs
  · exact h (hnames tc htc)

theorem readAll_snoc (cs : List Json) (c : Json) : readAll (cs ++ [c]) =
    ((readAll cs).1 ++ (readResponseEvents c (readAll cs).2).1, (readResponseEvents c (readAll cs).2).2) :=
  Section.each_snoc _ _ _ _

/-- The gate is open as long as every chunk is silent. -/
theorem gate_readAll {cs : List Json} (hfr : ∀ c ∈ cs, finishReasonOf c = none) :
    Gate (readAll cs).2 ↔ ∀ c ∈ cs, Silent c := by
  induction cs using List.reverseRecOn with
  | nil => exact ⟨fun _ => nofun, fun _ => ⟨rfl, rfl⟩⟩
  | append_singleton cs c ih =>
    have hfr' : ∀ c' ∈ cs, finishReasonOf c' = none := fun c' hc' => hfr c' (List.mem_append_left _ hc')
    have hlast : finishReasonOf c = none := hfr c (by simp)
    rw [readAll_snoc, gate_chunk hlast, ih hfr']
    simp only [List.mem_append, List.mem_singleton, or_imp, forall_and, forall_eq]

theorem routed_readAll {cs : List Json} (hfr : ∀ c ∈ cs, finishReasonOf c = none) :
    Routed (Named (cs.flatMap toolEntries)) (fragments (cs.flatMap toolEntries)) (readAll cs).1 (readAll cs).2 := by
  induction cs using List.reverseRecOn with
  | nil =>
    refine ⟨?_, ?_, List.nodup_nil, nofun, nofun, nofun, fun _ _ => rfl, nofun⟩
    · exact fun key => ⟨nofun, fun ⟨_, h⟩ => by cases h⟩
    · exact fun key => ⟨nofun, fun ⟨_, h, _⟩ => by cases h⟩
  | append_singleton cs c ih =>
    have hfr' : ∀ c' ∈ cs, finishReasonOf c' = none := fun c' hc' => hfr c' (List.mem_append_left _ hc')
    have hlast : finishReasonOf c = none := hfr c (by simp)
    have hstep := routed_chunk (ih hfr') hlast
    rw [readAll_snoc, List.flatMap_append]
    simpa using hstep

theorem textOf_readAll {cs : List Json} (hfr : ∀ c ∈ cs, finishReasonOf c = none)
    (hapart : ∀ c ∈ cs, refusalOf c ≠ none → contentOf c = none) :
    textOf (readAll cs).1 = String.join (cs.flatMap (fun c => (contentOf c).toList ++ (refusalOf c).toList)) := by
  induction cs using List.reverseRecOn with
  | nil => rfl
  | append_singleton cs c ih =>
    have hlast : finishReasonOf c = none := hfr c (by simp)
    have hone : ((contentOf c).or (refusalOf c)).getD "" = String.join ((contentOf c).toList ++ (refusalOf c).toList) := by
      have hc := hapart c (by simp)
      cases hr : refusalOf c with
      | none => cases contentOf c <;> simp
      | some refusal =>
        rw [hc (by rw [hr]; nofun)]
        simp
    have hstep := ih (fun c' hc' => hfr c' (List.mem_append_left _ hc')) (fun c' hc' => hapart c' (List.mem_append_left _ hc'))
    have hchunk : joined textDelta (readResponseEvents c (readAll cs).2).1 = _ := textOf_chunk hlast
    rw [readAll_snoc, List.flatMap_append, String.join_append, ← hstep]
    unfold textOf
    rw [joined_append, hchunk, hone]
    simp

theorem thinkingOf_readAll {cs : List Json} (hfr : ∀ c ∈ cs, finishReasonOf c = none)
    (hempty : Run.Along (fun pre c => (∃ c' ∈ pre, contentOf c' = some "") → (∃ r ∈ reasoningOf c, r ≠ "") →
      ∃ c' ∈ pre, Begins c') cs) :
    thinkingOf (readAll cs).1 = String.join ((beforeAnswer cs).filterMap reasoningOf) := by
  induction cs using List.reverseRecOn with
  | nil => rfl
  | append_singleton cs c ih =>
    have hfr' : ∀ c' ∈ cs, finishReasonOf c' = none := fun c' hc' => hfr c' (List.mem_append_left _ hc')
    have hlast : finishReasonOf c = none := hfr c (by simp)
    obtain ⟨hempty', hc⟩ := Run.Along.snoc_iff.1 hempty
    have hgate := gate_readAll hfr'
    have hchunk : joined thinkingDelta (readResponseEvents c (readAll cs).2).1 = _ := thinkingOf_chunk hlast
    have hjoin : thinkingOf (readAll (cs ++ [c])).1 = thinkingOf (readAll cs).1 ++
        if Gate (readAll cs).2 then (reasoningOf c).getD "" else "" := by
      rw [readAll_snoc]
      unfold thinkingOf
      rw [joined_append, hchunk]
    rw [hjoin, ih hfr' hempty', beforeAnswer_snoc]
    by_cases hb : ∃ c' ∈ cs, Begins c'
    · -- the answer has begun, and the gate is shut
      have hshut : ¬ Gate (readAll cs).2 := by
        obtain ⟨c', hc', hbegins⟩ := hb
        exact fun hg => not_silent hbegins (hgate.1 hg c' hc')
      rw [if_pos hb, if_neg hshut]
      exact String.append_empty
    · have hreasoning : (if Gate (readAll cs).2 then (reasoningOf c).getD "" else "") = (reasoningOf c).getD "" := by
        by_cases hg : Gate (readAll cs).2
        · rw [if_pos hg]
        · -- the gate was shut by an empty content string, and the chunk has nothing to lose
          have hsome : ∃ c' ∈ cs, contentOf c' = some "" := by
            by_contra hno
            refine hg (hgate.2 (fun c' hc' => ?_))
            by_contra hs
            exact hno ⟨c', hc', content_empty hs (fun h => hb ⟨c', hc', h⟩)⟩
          rw [if_neg hg]
          cases hr : reasoningOf c with
          | none => rfl
          | some r =>
            by_contra hne
            exact hb (hc hsome ⟨r, hr, fun he => hne (by rw [he]; rfl)⟩)
      have hone : String.join ([c].filterMap reasoningOf) = (reasoningOf c).getD "" := by
        cases hr : reasoningOf c <;> simp [hr]
      rw [if_neg hb, hreasoning, List.filterMap_append, String.join_append, hone]

/-- **Nothing is lost ahead of the finish.** Where no chunk has a content string beside a refusal, and no reasoning comes
behind an empty content string before the answer has begun, the text deltas are the contents and refusals, the thinking
deltas are the reasoning up to the chunk with which the answer begins, and every tool call has the fragments of its
arguments from the first entry on that names it. -/
theorem output_complete (chunks : List Json) (hfr : ∀ c ∈ chunks, finishReasonOf c = none)
    (hapart : ∀ c ∈ chunks, refusalOf c ≠ none → contentOf c = none)
    (hempty : Run.Along (fun pre c => (∃ c' ∈ pre, contentOf c' = some "") → (∃ r ∈ reasoningOf c, r ≠ "") →
      ∃ c' ∈ pre, Begins c') chunks) :
    textOf (readAll chunks).1 = String.join (chunks.flatMap (fun c => (contentOf c).toList ++ (refusalOf c).toList)) ∧
    thinkingOf (readAll chunks).1 = String.join ((beforeAnswer chunks).filterMap reasoningOf) ∧
    ∀ key, ((readAll chunks).2.toolIrIndex.lookup key).elim "" (fun index => argumentsOf index (readAll chunks).1) =
      fragments (chunks.flatMap toolEntries) key := by
  refine ⟨textOf_readAll hfr hapart, thinkingOf_readAll hfr hempty, fun key => ?_⟩
  have hrouted := routed_readAll hfr
  cases hlook : (readAll chunks).2.toolIrIndex.lookup key with
  | some index => exact hrouted.routed key index hlook
  | none =>
    have hunnamed : ¬ Named (chunks.flatMap toolEntries) key := by
      intro hn
      obtain ⟨index, hindex⟩ := (hrouted.filed key).1 ((hrouted.named key).2 hn)
      rw [hlook] at hindex
      cases hindex
    unfold fragments
    rw [dropWhile_eq_nil.2 hunnamed]
    rfl

/-- A chunk with one piece of a tool call. -/
def callChunk (function : List (String × Json)) : Json :=
  .object [("choices", .array [.object [("delta", .object [("tool_calls", .array [.object [("function", .object function)]])])]])]

def reasoningChunk (text : String) : Json :=
  .object [("choices", .array [.object [("delta", .object [("reasoning_content", .string text)])]])]

def mixedStream : List Json := [reasoningChunk "Hm", contentChunk "Hi",
  callChunk [("arguments", .string "["), ("name", .string "f")], callChunk [("arguments", .string "]")]]

theorem output_complete_mixed :
    textOf (readAll mixedStream).1 =
        String.join (mixedStream.flatMap (fun c => (contentOf c).toList ++ (refusalOf c).toList)) ∧
      thinkingOf (readAll mixedStream).1 = String.join ((beforeAnswer mixedStream).filterMap reasoningOf) ∧
      ∀ key, ((readAll mixedStream).2.toolIrIndex.lookup key).elim "" (fun index => argumentsOf index (readAll mixedStream).1) =
        fragments (mixedStream.flatMap toolEntries) key := by
  have hfull : ∀ c ∈ mixedStream, contentOf c ≠ some "" := by decide +kernel
  refine output_complete mixedStream (by decide +kernel) (by decide +kernel) ?_
  rintro pre c post he ⟨c', hc', hcontent⟩
  exact absurd hcontent (hfull c' (by rw [he]; exact List.mem_append_left _ hc'))

/-- Fragments that come before the name open no block and are gone. -/
theorem unnamed_fragment_dropped :
    finishReasonOf (callChunk [("arguments", .string "x")]) = none ∧
    acts (readAll [callChunk [("arguments", .string "x")]]).1 = [.other] ∧
    (toolEntries (callChunk [("arguments", .string "x")])).filterMap toolArguments = ["x"] := by
  decide +kernel

end Busbar.OpenAi
