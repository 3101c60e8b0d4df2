import Busbar.Proto.Blocks
import Busbar.Proto.Gemini
import Busbar.Proto.Slotted

/-!
# The blocks of a Gemini stream

Text, calls, citations and log probabilities claim their index from a counter that is never reset, and both ways to end
a message close what is open. Thinking alone goes to index 0 whatever has been there.

* `Coupled`: the text block is open when it has an index.
* `ThoughtFresh`: a thought that does not go back to an index 0 from before, read off the state in front of it.
* `exact_readPart`, `exact_readResponseEvents`: one part and one chunk.
* `orderly_iff`: the blocks of a stream are in order exactly when every thought of every chunk is fresh.
-/

namespace Busbar.Gemini

open Slots

def Coupled (s : StreamDecodeState) : Prop := s.textBlockOpen = s.textIndex.isSome

/-- **A fresh thought**: it does not start the thinking block with index 0 gone. -/
def ThoughtFresh (part : Json) (s : StreamDecodeState) : Prop :=
  isThought part = true → (partText part).isSome = true → s.textBlockOpen = false → s.openTools = [] →
    s.thinkingBlockOpen = false → ¬ s.Spent 0

/-- The parts of a chunk the reader goes through. -/
def chunkParts (data : Json) : List Json :=
  if (errorOf data).isSome then [] else ((candidate0 data).map partsOf).getD []

/-- **A fresh chunk.** -/
def Fresh (lib : GeminiLib) (data : Json) (s : StreamDecodeState) : Prop :=
  Section.Along (readPart lib data) ThoughtFresh (chunkParts data) (readStart data s).2

theorem ofTools_openTools : OfTools StreamDecodeState.openTools := fun _ _ hopen _ => hopen

variable {lib : GeminiLib} {s : StreamDecodeState} {data part candidate : Json}

/-- An open text block has an index, and a closed one has none. -/
theorem Coupled.cases (h : Coupled s) : (s.textBlockOpen = false ∧ s.textIndex = none) ∨
    ∃ i, s.textBlockOpen = true ∧ s.textIndex = some i := by
  unfold Coupled at h
  cases hi : s.textIndex with
  | none =>
    rw [hi] at h
    exact Or.inl ⟨h, rfl⟩
  | some i =>
    rw [hi] at h
    exact Or.inr ⟨i, h, rfl⟩

theorem Coupled.closeThinking (h : Coupled s) : Coupled (Section.closeThinking s).2 := by
  rw [closeThinking_state]
  exact h

/-- With the text block open the deltas go there. -/
theorem onOpenText_some {i : Nat} (d : IrDelta) (hopen : s.textBlockOpen = true) (hi : s.textIndex = some i) :
    Section.onOpenText d s = Section.closeThinking.next (Section.emit [.blockDelta i d]) s := by
  unfold Section.onOpenText
  rw [next_closeThinking, next_closeThinking]
  unfold Section.next Section.openText Section.onText Section.textSlot
  simp [hopen, hi, Section.emit]

theorem onOpenText_none (d : IrDelta) (hshut : s.textBlockOpen = false) (hi : s.textIndex = none) :
    Section.onOpenText d s = ((Section.closeThinking s).1 ++ [.blockStart s.claimIrIndex.1 .text,
      .blockDelta s.claimIrIndex.1 d], { s.claimIrIndex.2 with
        thinkingBlockOpen := false, textBlockOpen := true, textIndex := some s.claimIrIndex.1 }) := by
  unfold Section.onOpenText
  rw [next_closeThinking]
  unfold Section.next Section.openText Section.onText Section.textSlot
  simp [hshut, hi, StreamDecodeState.claimIrIndex]

/-! ## Parts -/

/-- Text goes to the text block as it does in a stream of the other dialect. -/
theorem readText_some {text : String} (h : Coupled s) (ht : partText part = some text) :
    readText part s = Section.onOpenText (.text text) s := by
  unfold readText
  rw [ht]
  rcases h.cases with ⟨hshut, hi⟩ | ⟨i, hopen, hi⟩
  · have hshut' : s.claimIrIndex.2.textBlockOpen = false := hshut
    have hclose : (Section.closeThinking s.claimIrIndex.2).1 = (Section.closeThinking s).1 := closeThinking_events rfl
    rw [onOpenText_none _ hshut hi]
    unfold textSlot
    rw [hi]
    dsimp only
    rw [next_closeThinking, hclose]
    unfold Section.next openTextAt
    simp [hshut', Section.emit]
  · rw [onOpenText_some _ hopen hi]
    unfold textSlot
    rw [hi]
    dsimp only
    rw [next_closeThinking, next_closeThinking]
    unfold Section.next openTextAt
    simp [hopen]

theorem onOpenText_coupled (d : IrDelta) (h : Coupled s) : Coupled (Section.onOpenText d s).2 := by
  rcases h.cases with ⟨hshut, hi⟩ | ⟨i, hopen, hi⟩
  · rw [onOpenText_none d hshut hi]
    rfl
  · rw [onOpenText_some d hopen hi]
    exact h.closeThinking

/-- A coupled text block is opened at a free index. -/
theorem keeps_onOpenText (d : IrDelta) (h : Coupled s) : Keeps StreamDecodeState.openTools (Section.onOpenText d) s := by
  refine (exact_onOpenText ofTools_openTools d).keeps (fun hshut => ?_)
  rcases h.cases with ⟨-, hi⟩ | ⟨i, hopen, -⟩
  · exact hi
  · rw [hshut] at hopen
    cases hopen

theorem keeps_readText (h : Coupled s) : Keeps StreamDecodeState.openTools (readText part) s ∧
    Coupled (readText part s).2 := by
  cases ht : partText part with
  | none =>
    have heq : readText part s = ([], s) := by
      unfold readText
      rw [ht]
    rw [heq]
    exact ⟨(Exact.of_skip (P := True) heq trivial).keeps trivial, h⟩
  | some text =>
    have heq := readText_some h ht
    rw [heq]
    exact ⟨(Exact.of_eq heq (Exact.of_keeps (keeps_onOpenText _ h))).keeps trivial, onOpenText_coupled _ h⟩

/-- The block of a call opens at the next free index and takes its arguments. -/
def openCall (lib : GeminiLib) (data funcCall : Json) : Section := fun s =>
  let textBase := if s.textIndex.isSome then 1 else 0
  let irIdx := s.claimIrIndex.1
  let id := synthToolCallId lib (irIdx - textBase) (callName funcCall) ((data.getStr fieldResponseId).getD "")
  ([.blockStart irIdx (.toolUse id (callName funcCall))],
    { s.claimIrIndex.2 with openTools := Translator.insertSorted irIdx s.openTools })

theorem readCall_cases (lib : GeminiLib) (data part : Json) (s : StreamDecodeState) :
    (readCall lib data part s = ([], s) ∧ (part.get fieldFunctionCall = none ∨
      ∃ funcCall ∈ part.get fieldFunctionCall, callName funcCall = "" ∨ maxGeminiToolFrames ≤ s.openTools.length)) ∨
    ∃ funcCall, part.get fieldFunctionCall = some funcCall ∧ callName funcCall ≠ "" ∧
      s.openTools.length < maxGeminiToolFrames ∧
      readCall lib data part s = Section.closeThinking.next ((openCall lib data funcCall).next (Section.emit
        [.blockDelta s.claimIrIndex.1 (.inputJson (lib.toString (emptyObjectIfAbsent (funcCall.get "args"))))])) s := by
  unfold readCall
  cases hc : part.get fieldFunctionCall with
  | none => exact Or.inl ⟨rfl, Or.inl rfl⟩
  | some funcCall =>
    dsimp only
    by_cases h : callName funcCall ≠ "" ∧ s.openTools.length < maxGeminiToolFrames
    · rw [if_pos h]
      refine Or.inr ⟨funcCall, rfl, h.1, h.2, ?_⟩
      rw [next_closeThinking, next_closeThinking]
      refine Prod.ext ?_ rfl
      exact congrArg₂ (· ++ ·) (closeThinking_events rfl) rfl
    · rw [if_neg h]
      refine Or.inl ⟨rfl, Or.inr ⟨funcCall, rfl, ?_⟩⟩
      by_cases hn : callName funcCall = ""
      · exact Or.inl hn
      · exact Or.inr (Nat.le_of_not_lt (fun hl => h ⟨hn, hl⟩))

theorem keeps_readCall (h : Coupled s) : Keeps StreamDecodeState.openTools (readCall lib data part) s ∧
    Coupled (readCall lib data part s).2 := by
  rcases readCall_cases lib data part s with ⟨heq, -⟩ | ⟨funcCall, -, -, -, heq⟩
  · rw [heq]
    exact ⟨(Exact.of_skip (P := True) heq trivial).keeps trivial, h⟩
  · obtain ⟨s', hs'⟩ : ∃ s', s' = (Section.closeThinking s).2 := ⟨_, rfl⟩
    have hstate : s' = { s with thinkingBlockOpen := false } := by rw [hs', closeThinking_state]
    have hclaim : s.claimIrIndex.1 = s'.claimIrIndex.1 := by rw [hstate]; rfl
    have hclose : Keeps StreamDecodeState.openTools Section.closeThinking s := keeps_closeThinking ofTools_openTools
    have hopen : Keeps StreamDecodeState.openTools (openCall lib data funcCall) s' := by
      have heq : openCall lib data funcCall s' = ([.blockStart s'.claimIrIndex.1 (.toolUse (synthToolCallId lib
          (s'.claimIrIndex.1 - if s'.textIndex.isSome then 1 else 0) (callName funcCall)
          ((data.getStr fieldResponseId).getD "")) (callName funcCall))], { s'.claimIrIndex.2 with
            openTools := Translator.insertSorted s'.claimIrIndex.1 s'.openTools, toolIrIndex := s'.toolIrIndex }) := rfl
      exact keeps_openTool heq (fun hnew => Translator.perm_insertSorted hnew)
    have hmem : s.claimIrIndex.1 ∈ (openCall lib data funcCall s').2.openTools := by
      rw [hclaim]
      exact Translator.mem_insertSorted.2 (Or.inl rfl)
    have hdelta : Keeps StreamDecodeState.openTools (Section.emit [.blockDelta s.claimIrIndex.1
        (.inputJson (lib.toString (emptyObjectIfAbsent (funcCall.get "args"))))]) (openCall lib data funcCall s').2 :=
      keeps_delta _ (Or.inr hmem)
    have hrest := (Exact.of_keeps hopen).next (Exact.of_keeps hdelta)
    have hall := (Exact.of_keeps hclose).andThen hs' hrest
    refine ⟨(Exact.of_eq heq hall).keeps ⟨trivial, trivial, trivial⟩, ?_⟩
    rw [heq, next_closeThinking]
    exact h

/-- What a thought does. -/
theorem readThought_cases (part : Json) (s : StreamDecodeState) :
    (readThought part s = ([], s) ∧ (partText part = none ∨ s.textBlockOpen = true ∨ s.openTools ≠ [])) ∨
    ∃ text, partText part = some text ∧ s.textBlockOpen = false ∧ s.openTools = [] ∧
      readThought part s = Section.openThinking.next (Section.emit (.blockDelta 0 (.thinking text) ::
        ((part.getStr "thoughtSignature").map (fun sig => IrStreamEvent.blockDelta 0 (.signature sig))).toList)) s := by
  unfold readThought
  cases ht : partText part with
  | none => exact Or.inl ⟨rfl, Or.inl rfl⟩
  | some text =>
    by_cases hgate : (!s.textBlockOpen && s.openTools.isEmpty) = true
    · obtain ⟨htext, htools⟩ : s.textBlockOpen = false ∧ s.openTools = [] := by simpa using hgate
      rw [Option.filter_some, if_pos hgate]
      exact Or.inr ⟨text, rfl, htext, htools, rfl⟩
    · rw [Option.filter_some, if_neg hgate]
      refine Or.inl ⟨rfl, Or.inr ?_⟩
      by_contra hn
      obtain ⟨htext, htools⟩ := not_or.1 hn
      have hshut : s.textBlockOpen = false := by simpa using htext
      exact hgate (by simpa using ⟨hshut, not_not.1 htools⟩)

theorem exact_readThought (ht : isThought part = true) : Exact StreamDecodeState.openTools (ThoughtFresh part s)
    (readThought part) s := by
  rcases readThought_cases part s with ⟨heq, hwhy⟩ | ⟨text, htext, hshut, htools, heq⟩
  · refine Exact.of_skip heq ?_
    intro _ hsome hshut htools
    rcases hwhy with h | h | h
    · rw [h] at hsome
      cases hsome
    · rw [hshut] at h
      cases h
    · exact absurd htools h
  · have hdeltas : ∀ a ∈ acts (.blockDelta 0 (.thinking text) ::
        ((part.getStr "thoughtSignature").map (fun sig => IrStreamEvent.blockDelta 0 (.signature sig))).toList),
        a = .use 0 := by
      cases part.getStr "thoughtSignature" <;> simp [acts, IrStreamEvent.act]
    refine (Exact.of_eq heq (exact_thinking ofTools_openTools hshut hdeltas)).congr ?_
    unfold ThoughtFresh
    simp [ht, htext, hshut, htools]

/-- **One part is in order exactly when it is no stale thought.** -/
theorem exact_readPart (part : Json) (s : StreamDecodeState) (h : Coupled s) :
    Exact StreamDecodeState.openTools (ThoughtFresh part s) (readPart lib data part) s ∧
      Coupled (readPart lib data part s).2 := by
  unfold readPart
  by_cases ht : isThought part = true
  · rw [if_pos ht]
    refine ⟨exact_readThought ht, ?_⟩
    rcases readThought_cases part s with ⟨heq, -⟩ | ⟨text, -, -, -, heq⟩
    · rw [heq]
      exact h
    · obtain ⟨hopen, hindex, -, -⟩ := openThinking_frame s
      rw [heq]
      unfold Coupled
      exact hopen.trans (h.trans (congrArg Option.isSome hindex.symm))
  · rw [if_neg ht]
    obtain ⟨htext, hcoupled⟩ := @keeps_readText s part h
    obtain ⟨hcall, hcoupled'⟩ := @keeps_readCall lib _ data part hcoupled
    refine ⟨((Exact.of_keeps htext).next (Exact.of_keeps hcall)).congr ?_, hcoupled'⟩
    unfold ThoughtFresh
    simp [ht]

/-! ## The rest of the candidate -/

/-- What the candidate says goes where text goes. -/
theorem onCandidateText_cases (d : IrDelta) (h : Coupled s) :
    (s.textBlockOpen = false ∧ onCandidateText d s = Section.onOpenText d s) ∨
      (s.textBlockOpen = true ∧ onCandidateText d s = Section.onText d s) := by
  rcases h.cases with ⟨hshut, hi⟩ | ⟨i, hopen, hi⟩
  · refine Or.inl ⟨hshut, ?_⟩
    have hshut' : s.claimIrIndex.2.textBlockOpen = false := hshut
    have hclose : (Section.closeThinking s.claimIrIndex.2).1 = (Section.closeThinking s).1 := closeThinking_events rfl
    rw [onOpenText_none d hshut hi]
    unfold onCandidateText textSlot
    rw [hi]
    unfold Section.next
    simp [hshut', Section.emit, openTextAt, hclose, closeThinking_state]
  · refine Or.inr ⟨hopen, ?_⟩
    unfold onCandidateText textSlot Section.next Section.onText
    rw [hi]
    simp [hopen, Section.emit]

theorem keeps_onCandidateText (d : IrDelta) (h : Coupled s) :
    Keeps StreamDecodeState.openTools (onCandidateText d) s ∧ Coupled (onCandidateText d s).2 := by
  rcases onCandidateText_cases d h with ⟨hshut, heq⟩ | ⟨hopen, heq⟩
  · rw [heq]
    exact ⟨(Exact.of_eq heq (Exact.of_keeps (keeps_onOpenText d h))).keeps trivial, onOpenText_coupled d h⟩
  · rw [heq, onText_state]
    exact ⟨(Exact.of_eq heq (Exact.of_keeps (keeps_onText d hopen))).keeps trivial, h⟩

theorem keeps_readCitations (h : Coupled s) : Keeps StreamDecodeState.openTools (readCitations candidate) s ∧
    Coupled (readCitations candidate s).2 := by
  unfold readCitations
  dsimp only
  split
  · exact ⟨fun m hm => ⟨m, rfl, hm⟩, h⟩
  · exact keeps_onCandidateText _ h

theorem keeps_readLogprobs (h : Coupled s) : Keeps StreamDecodeState.openTools (readLogprobs candidate) s ∧
    Coupled (readLogprobs candidate s).2 := by
  unfold readLogprobs
  dsimp only
  split
  · exact ⟨fun m hm => ⟨m, rfl, hm⟩, h⟩
  · exact keeps_onCandidateText _ h

/-! ## The end of a message -/

theorem keeps_closeText (s : StreamDecodeState) : Keeps StreamDecodeState.openTools closeText s ∧
    (closeText s).2.textBlockOpen = false ∧ (closeText s).2.thinkingBlockOpen = s.thinkingBlockOpen := by
  unfold closeText
  by_cases h : s.textBlockOpen = true
  · refine ⟨Busbar.keeps_closeText ofTools_openTools none ?_ ?_ (Or.inr rfl), ?_⟩
    · intro i _ hi
      rw [if_pos h, hi]
      rfl
    · intro hshut
      rw [h] at hshut
      cases hshut
    · rw [if_pos h]
      exact ⟨rfl, rfl⟩
  · refine ⟨(Exact.of_skip (P := True) ?_ trivial).keeps trivial, ?_⟩
    · exact if_neg h
    · rw [if_neg h]
      exact ⟨by simpa using h, rfl⟩

theorem keeps_closeTools (s : StreamDecodeState) : Keeps StreamDecodeState.openTools closeTools s ∧
    (closeTools s).2.openTools = [] ∧ (closeTools s).2.textBlockOpen = s.textBlockOpen ∧
    (closeTools s).2.thinkingBlockOpen = s.thinkingBlockOpen := by
  have heq : closeTools s = (s.openTools.map IrStreamEvent.blockStop,
      { s with openTools := [], toolIrIndex := s.toolIrIndex }) := rfl
  exact ⟨Busbar.keeps_closeTools heq rfl, rfl, rfl, rfl⟩

theorem keeps_finish (stopReason : IrStopReason) (usage : IrUsage) (h : Coupled s) :
    Keeps StreamDecodeState.openTools (finish stopReason usage) s ∧ Coupled (finish stopReason usage s).2 := by
  refine ⟨@Busbar.keeps_finish _ s ofTools_openTools closeText closeTools
    [.messageDelta (some stopReason) none usage] keeps_closeText keeps_closeTools (by simp [acts, IrStreamEvent.act]), ?_⟩
  unfold finish
  rw [next_closeThinking]
  rcases h.cases with ⟨hshut, hi⟩ | ⟨i, hopen, hi⟩
  · unfold Coupled Section.next closeText closeTools
    simp [hshut, hi, Section.emit]
  · unfold Coupled Section.next closeText closeTools
    simp [hopen, Section.emit]

theorem keeps_readFinish (h : Coupled s) : Keeps StreamDecodeState.openTools (readFinish data candidate) s ∧
    Coupled (readFinish data candidate s).2 := by
  cases hfr : candidate.getStr fieldFinishReason with
  | none =>
    have heq : readFinish data candidate s = ([], s) := by
      unfold readFinish
      rw [hfr]
    rw [heq]
    exact ⟨(Exact.of_skip (P := True) heq trivial).keeps trivial, h⟩
  | some finishReason =>
    have heq : readFinish data candidate s = finish (stopReasonOf s finishReason) (geminiUsage data) s := by
      unfold readFinish
      rw [hfr]
    obtain ⟨hkeep, hcoupled⟩ := keeps_finish (stopReasonOf s finishReason) (geminiUsage data) h
    rw [heq]
    exact ⟨(Exact.of_eq heq (Exact.of_keeps hkeep)).keeps trivial, hcoupled⟩

theorem keeps_readStart (h : Coupled s) : Keeps StreamDecodeState.openTools (readStart data) s ∧
    Coupled (readStart data s).2 := by
  unfold readStart
  by_cases hs : s.started = true
  · refine ⟨Keeps.of_quiet ?_ ?_, ?_⟩ <;> rw [if_pos hs]
    · simp [acts]
    · exact fun m hm => hm
    · exact h
  · refine ⟨Keeps.of_quiet ?_ ?_, ?_⟩ <;> rw [if_neg hs]
    · simp [acts, IrStreamEvent.act]
    · exact fun m hm => ⟨hm.spent, hm.solo, hm.live, hm.indexed, hm.claimed, hm.ahead, hm.nodup, hm.apart⟩
    · exact h

/-! ## One chunk -/

/-- **A candidate is in order exactly when its thoughts are fresh.** -/
theorem exact_readCandidate (h : Coupled s) : Exact StreamDecodeState.openTools
      (Section.Along (readPart lib data) ThoughtFresh (partsOf candidate) s) (readCandidate lib data candidate) s ∧
    Coupled (readCandidate lib data candidate s).2 := by
  unfold readCandidate
  obtain ⟨hparts, h₁⟩ := Exact.each (@exact_readPart lib data)
    (partsOf candidate) h
  obtain ⟨hcite, h₂⟩ := @keeps_readCitations _ candidate h₁
  obtain ⟨hlogprobs, h₃⟩ := @keeps_readLogprobs _ candidate h₂
  obtain ⟨hfinish, h₄⟩ := @keeps_readFinish _ data candidate h₃
  have hrest := (Exact.of_keeps hlogprobs).next (Exact.of_keeps hfinish)
  refine ⟨(hparts.next ((Exact.of_keeps hcite).next hrest)).congr ?_, h₄⟩
  simp only [and_true]

theorem candidate0_of_not_object (h : data.isObject = false) : candidate0 data = none := by
  unfold candidate0 Json.get
  cases data with
  | object members => cases h
  | _ => rfl

theorem candidate0_of_absent (h : candidatesAbsent data = true) : candidate0 data = none := by
  unfold candidatesAbsent at h
  unfold candidate0
  cases hc : (data.get "candidates").bind Json.asArray with
  | none => rfl
  | some cands =>
    rw [hc] at h
    have hnil : cands = [] := by simpa using h
    rw [hnil]
    rfl

/-- A document with a candidate is an object, and the prompt was not blocked. -/
theorem isObject_of_candidate0 (hc : candidate0 data = some candidate) : ¬ data.isObject = false := by
  intro h
  rw [candidate0_of_not_object h] at hc
  cases hc

theorem unblocked_of_candidate0 (hc : candidate0 data = some candidate) :
    (promptBlockReason data).filter (fun _ => candidatesAbsent data) = none := by
  refine Option.filter_eq_none_iff.2 (fun _ _ habsent => ?_)
  rw [candidate0_of_absent (by simpa using habsent)] at hc
  cases hc

/-- **One chunk is in order exactly when it is fresh.** -/
theorem exact_readResponseEvents (data : Json) (s : StreamDecodeState) (h : Coupled s) :
    Exact StreamDecodeState.openTools (Fresh lib data s) (readResponseEvents lib data) s ∧
      Coupled (readResponseEvents lib data s).2 := by
  have hnone : chunkParts data = [] → Fresh lib data s := by
    intro hparts
    unfold Fresh
    rw [hparts]
    trivial
  obtain ⟨hstart, hcoupled⟩ := @keeps_readStart s data h
  unfold readResponseEvents
  by_cases hskip : data.asStr = some sseDoneSentinel ∨ data.isObject = false
  · rw [if_pos hskip]
    refine ⟨Exact.of_skip rfl (hnone ?_), h⟩
    have hobject : data.isObject = false := by
      rcases hskip with hdone | hobject
      · cases data with
        | string t => rfl
        | _ => cases hdone
      · exact hobject
    unfold chunkParts
    rw [candidate0_of_not_object hobject]
    split <;> rfl
  rw [if_neg hskip]
  cases herr : errorOf data with
  | some error =>
    dsimp only
    refine ⟨⟨fun _ => Keeps.of_quiet ?_ (fun m hm => hm), fun hn => absurd (hnone ?_) hn⟩, h⟩
    · simp [Section.emit, acts, IrStreamEvent.act]
    · unfold chunkParts
      rw [herr]
      rfl
  | none =>
    dsimp only
    cases hblock : (promptBlockReason data).filter (fun _ => candidatesAbsent data) with
    | some blockReason =>
      dsimp only
      obtain ⟨hend, hcoupled'⟩ := keeps_finish (promptBlockStopReason blockReason) (geminiUsage data) hcoupled
      refine ⟨⟨fun _ => hstart.next hend, fun hn => absurd (hnone ?_) hn⟩, hcoupled'⟩
      obtain ⟨-, habsent⟩ := Option.filter_eq_some_iff.1 hblock
      unfold chunkParts
      rw [candidate0_of_absent habsent]
      split <;> rfl
    | none =>
      dsimp only
      cases hc : candidate0 data with
      | none =>
        dsimp only
        refine ⟨⟨fun _ => hstart, fun hn => absurd (hnone ?_) hn⟩, hcoupled⟩
        unfold chunkParts
        rw [hc]
        split <;> rfl
      | some candidate =>
        dsimp only
        obtain ⟨hcand, hcoupled'⟩ := @exact_readCandidate lib _ data candidate hcoupled
        refine ⟨((Exact.of_keeps hstart).next hcand).congr ?_, hcoupled'⟩
        unfold Fresh chunkParts
        rw [herr, hc, true_and]
        rfl

/-- **The blocks of a stream are in order exactly when every thought is fresh.** Whatever the chunks hold and however
messages end, an index is started once, deltas go to open blocks, thinking and text are not open together and every block
is closed ahead of the end of the message, unless a thought goes back to an index 0 that has been handed out. -/
theorem orderly_iff (lib : GeminiLib) (chunks : List Json) :
    Orderly (acts (readAll lib chunks).1) ↔ Section.Along (readResponseEvents lib) (Fresh lib) chunks .default := by
  have hstart : Coupled .default := rfl
  have hexact := (Exact.each (@exact_readResponseEvents lib) chunks hstart).1
  exact ⟨fun h => hexact.of_paired rfl h.toPaired, fun h => hexact.orderly rfl h⟩

def thoughtChunk (text : String) : Json :=
  .object [("candidates", .array [.object [("content",
    .object [("parts", .array [.object [("text", .string text), ("thought", .bool true)]])])]])]

def stopChunk : Json := .object [("candidates", .array [.object [("finishReason", .string "STOP")]])]

/-- A library that parses and writes nothing. -/
def bareLib : GeminiLib where
  fromStr _ := none
  fromSlice _ := none
  toVec _ := []
  toolCallHash _ _ _ := 0

/-- A thought behind the finish starts index 0 again. -/
theorem thought_reopens : ¬ Orderly (acts (readAll bareLib [thoughtChunk "Hm", stopChunk, thoughtChunk "!"]).1) := by
  intro h
  have hacts : acts (readAll bareLib [thoughtChunk "Hm", stopChunk, thoughtChunk "!"]).1 =
      [.other, .take 0 true, .use 0, .drop 0, .other, .seal] ++ .take 0 true :: [.use 0] := by decide +kernel
  exact h.fresh _ 0 true _ hacts true (by decide)

end Busbar.Gemini
