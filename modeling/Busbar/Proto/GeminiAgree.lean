import Busbar.Proto.GeminiFold
import Mathlib.Algebra.Order.BigOperators.Group.List
import Mathlib.Algebra.Order.Group.Nat

/-!
# Streamed and whole Gemini responses

The parts of a candidate may come whole, or cut up and spread over the chunks of a stream. What a client puts together
from the stream is set against the response read from the whole body.

* `folded_body`, `folded_chunks`: chunks one after the other.
* `DropsNothing`: the stream reader passes over no piece that holds something.
* `agrees_iff`: both ways agree exactly then.
-/

namespace Busbar.Gemini

variable {lib : GeminiLib} {s : StreamDecodeState} {data part candidate : Json} {evs : List IrStreamEvent}

/-! ## Chunks -/

/-- The parts are the model's. -/
def FromModel (candidate : Json) : Prop :=
  ∀ content ∈ candidate.get "content", (content.getStr "role").getD "" = "model" ∨ (content.getStr "role").getD "" = ""

instance (candidate : Json) : Decidable (FromModel candidate) := by
  unfold FromModel
  infer_instance

theorem partsOf_eq (candidate : Json) : partsOf candidate = if FromModel candidate then bodyParts candidate else [] := by
  unfold partsOf bodyParts
  cases hc : candidate.get "content" with
  | none =>
    have hmodel : FromModel candidate := by
      intro content hcontent
      rw [hc] at hcontent
      cases hcontent
    rw [if_pos hmodel]
    rfl
  | some content =>
    have hmodel : FromModel candidate ↔
        (content.getStr "role").getD "" = "model" ∨ (content.getStr "role").getD "" = "" := by
      unfold FromModel
      rw [hc]
      simp
    by_cases hrole : (content.getStr "role").getD "" = "model" ∨ (content.getStr "role").getD "" = ""
    · rw [if_pos (hmodel.2 hrole)]
      exact if_pos hrole
    · rw [if_neg (fun h => hrole (hmodel.1 h))]
      exact if_neg hrole

/-- Citations or log probabilities, which open the text block. -/
def cites (candidate : Json) : Bool :=
  !(readGeminiCitations candidate none).isEmpty || !(readGeminiLogprobs (candidate.get "logprobsResult")).isEmpty

/-- A chunk up to its finish. -/
def readBody (lib : GeminiLib) (data candidate : Json) : Section :=
  (readStart data).next ((Section.each (readPart lib data) (partsOf candidate)).next
    ((readCitations candidate).next (readLogprobs candidate)))

theorem readResponseEvents_some (herr : errorOf data = none) (hc : candidate0 data = some candidate) :
    readResponseEvents lib data s = ((readBody lib data candidate).next (readFinish data candidate)) s := by
  have hobject : ¬ (data.asStr = some sseDoneSentinel ∨ data.isObject = false) := by
    rintro (hdone | hobject)
    · cases data with
      | string t => exact isObject_of_candidate0 hc rfl
      | _ => cases hdone
    · exact isObject_of_candidate0 hc hobject
  unfold readResponseEvents readBody readCandidate Section.next
  rw [if_neg hobject, herr, unblocked_of_candidate0 hc, hc]
  simp only [List.append_assoc]

section

variable {text thinking : String} {calls : List (String × String)}

/-- Deltas a client puts nothing together from. -/
def Aside (d : IrDelta) : Prop := ∀ i, Idle [.blockDelta i d]

theorem aside_citations (citations : List IrCitation) : Aside (.citations citations) :=
  fun _ => ⟨rfl, rfl, fun _ => rfl, rfl⟩

theorem aside_logprobs (logprobs : List IrTokenLogprob) : Aside (.logprobs logprobs) :=
  fun _ => ⟨rfl, rfl, fun _ => rfl, rfl⟩

theorem idle_onOpenText {d : IrDelta} (hd : Aside d) : Idle (Section.onOpenText d s).1 := by
  have hone : ∀ (pick : IrStreamEvent → Option String) i, joined pick [.blockDelta i d] = (pick (.blockDelta i d)).getD "" := by
    intro pick i
    unfold joined
    cases hp : pick (.blockDelta i d) <;> simp [hp]
  have hnone : ∀ pick, OnDeltas pick → (∀ i, joined pick [.blockDelta i d] = "") →
      joined pick (Section.onOpenText d s).1 = "" := by
    intro pick hp hidle
    obtain ⟨i, hi⟩ := joined_onOpenText (s := s) hp d
    rw [hi, ← hone pick i]
    exact hidle i
  exact ⟨hnone textDelta onDeltas_textDelta (fun i => (hd i).1), hnone thinkingDelta onDeltas_thinkingDelta (fun i => (hd i).2.1),
    fun j => hnone (argumentsDelta j) (onDeltas_argumentsDelta j) (fun i => (hd i).2.2.1 j), starts_onOpenText d⟩

/-- What the candidate says about its text leaves the text block open. -/
theorem folded_onCandidateText {d : IrDelta} (hd : Aside d) (h : Folded text thinking calls evs s) :
    Folded text thinking calls (evs ++ (onCandidateText d s).1) (onCandidateText d s).2 ∧
      (onCandidateText d s).2.textBlockOpen = true := by
  rcases onCandidateText_cases d h.coupled with ⟨-, heq⟩ | ⟨hopen, heq⟩
  · obtain ⟨hopened, htools, -⟩ := onOpenText_frame d s
    rw [heq]
    exact ⟨h.idle (idle_onOpenText hd) htools (onOpenText_coupled d h.coupled) (onOpenText_nextIrIndex d s), hopened⟩
  · have hidle : Idle (Section.onText d s).1 := by
      unfold Section.onText
      cases s.textIndex with
      | none => exact ⟨rfl, rfl, fun _ => rfl, rfl⟩
      | some i => exact hd i
    rw [heq, onText_state]
    exact ⟨h.idle hidle rfl h.coupled le_rfl, hopen⟩

/-- Citations and log probabilities. -/
theorem folded_asides (h : Folded text thinking calls evs s) (candidate : Json) :
    Folded text thinking calls (evs ++ (((readCitations candidate).next (readLogprobs candidate)) s).1)
        (((readCitations candidate).next (readLogprobs candidate)) s).2 ∧
      (((readCitations candidate).next (readLogprobs candidate)) s).2.textBlockOpen =
        (s.textBlockOpen || cites candidate) := by
  have hcitations : Folded text thinking calls (evs ++ (readCitations candidate s).1) (readCitations candidate s).2 ∧
      (readCitations candidate s).2.textBlockOpen =
        (s.textBlockOpen || !(readGeminiCitations candidate none).isEmpty) := by
    unfold readCitations
    by_cases hempty : (readGeminiCitations candidate none).isEmpty = true
    · simpa [hempty, Section.skip] using h
    · obtain ⟨hfold, hopen⟩ := folded_onCandidateText (aside_citations (readGeminiCitations candidate none)) h
      simp only [if_neg hempty]
      exact ⟨hfold, by simp [hopen, hempty]⟩
  obtain ⟨hfold, hopen⟩ := hcitations
  have hlogprobs : ∀ {evs s}, Folded text thinking calls evs s →
      Folded text thinking calls (evs ++ (readLogprobs candidate s).1) (readLogprobs candidate s).2 ∧
        (readLogprobs candidate s).2.textBlockOpen =
          (s.textBlockOpen || !(readGeminiLogprobs (candidate.get "logprobsResult")).isEmpty) := by
    intro evs s h
    unfold readLogprobs
    by_cases hempty : (readGeminiLogprobs (candidate.get "logprobsResult")).isEmpty = true
    · simpa [hempty, Section.skip] using h
    · obtain ⟨hfold, hopen⟩ :=
        folded_onCandidateText (aside_logprobs (readGeminiLogprobs (candidate.get "logprobsResult"))) h
      simp only [if_neg hempty]
      exact ⟨hfold, by simp [hopen, hempty]⟩
  obtain ⟨hfold', hopen'⟩ := hlogprobs hfold
  rw [List.append_assoc] at hfold'
  refine ⟨hfold', hopen'.trans ?_⟩
  unfold cites
  rw [hopen, Bool.or_assoc]

/-- **One chunk.** -/
theorem folded_body (lib : GeminiLib) (data : Json) (marked : Bool) {before : List Json} (hfirst : ThoughtsFirst (before ++ partsOf candidate))
    (h : Folded (String.join (before.map plainText)) thinking (before.filterMap (plainCall lib)) evs s)
    (hmarked : Marked marked (String.join (before.map plainText)) s)
    (hroom : ((before ++ partsOf candidate).filterMap (plainCall lib)).length < maxGeminiToolFrames)
    (hname : ∀ p ∈ partsOf candidate, ∀ funcCall ∈ p.get fieldFunctionCall, callName funcCall ≠ "") :
    Folded (String.join ((before ++ partsOf candidate).map plainText))
        (thinking ++ String.join ((if marked then [] else partsOf candidate).map thoughtText))
        ((before ++ partsOf candidate).filterMap (plainCall lib)) (evs ++ (readBody lib data candidate s).1)
        (readBody lib data candidate s).2 ∧
      Marked (marked || cites candidate) (String.join ((before ++ partsOf candidate).map plainText))
        (readBody lib data candidate s).2 := by
  obtain ⟨s₁, hs₁⟩ : ∃ s₁, s₁ = (readStart data s).2 := ⟨_, rfl⟩
  have hstart : Idle (readStart data s).1 ∧ s₁.openTools = s.openTools ∧ s₁.textBlockOpen = s.textBlockOpen ∧
      s₁.textIndex = s.textIndex ∧ s₁.nextIrIndex = s.nextIrIndex := by
    rw [hs₁]
    unfold readStart
    split <;> exact ⟨⟨rfl, rfl, fun _ => rfl, rfl⟩, rfl, rfl, rfl, rfl⟩
  obtain ⟨hidle, htools, hopen, hindex, hnext⟩ := hstart
  have hcoupled : Coupled s₁ := by
    unfold Coupled
    rw [hopen, hindex]
    exact h.coupled
  have hfold₁ := h.idle hidle htools hcoupled (le_of_eq hnext.symm)
  have hmarked₁ : Marked marked (String.join (before.map plainText)) s₁ := by
    unfold Marked
    rw [hopen]
    exact hmarked
  obtain ⟨hfold₂, hmarked₂⟩ :=
    folded_pieces lib data marked (partsOf candidate) hfirst hfold₁ hmarked₁ hroom hname
  obtain ⟨hfold₃, hopen₃⟩ := folded_asides hfold₂ candidate
  rw [List.append_assoc, List.append_assoc] at hfold₃
  rw [hs₁] at hfold₃ hopen₃ hmarked₂
  refine ⟨hfold₃, ?_⟩
  unfold Marked at hmarked₂ ⊢
  have hlast : (readBody lib data candidate s).2.textBlockOpen = _ := hopen₃
  rw [hlast]
  cases marked with
  | true =>
    rw [if_pos rfl] at hmarked₂
    simp [hmarked₂]
  | false =>
    cases hcites : cites candidate with
    | true => simp
    | false => simpa using hmarked₂

end

/-! ## Streams -/

/-- The pieces from which thinking is heard: those ahead of the first chunk that cites. -/
def heard : Bool → List Json → List Json
  | _, [] => []
  | marked, candidate :: candidates =>
    (if marked then [] else partsOf candidate) ++ heard (marked || cites candidate) candidates

section

variable {text thinking : String} {calls : List (String × String)}

/-- **Chunk after chunk**, none of which finishes. -/
theorem folded_chunks (lib : GeminiLib) (marked : Bool) (chunks before : List Json)
    (hserved : ∀ c ∈ chunks, errorOf c = none ∧ ∃ candidate, candidate0 c = some candidate ∧
      candidate.getStr fieldFinishReason = none)
    (hfirst : ThoughtsFirst (before ++ (chunks.filterMap candidate0).flatMap partsOf))
    (h : Folded (String.join (before.map plainText)) thinking (before.filterMap (plainCall lib)) evs s)
    (hmarked : Marked marked (String.join (before.map plainText)) s)
    (hroom : ((before ++ (chunks.filterMap candidate0).flatMap partsOf).filterMap (plainCall lib)).length <
      maxGeminiToolFrames)
    (hname : ∀ p ∈ (chunks.filterMap candidate0).flatMap partsOf, ∀ funcCall ∈ p.get fieldFunctionCall,
      callName funcCall ≠ "") :
    Folded (String.join ((before ++ (chunks.filterMap candidate0).flatMap partsOf).map plainText))
        (thinking ++ String.join ((heard marked (chunks.filterMap candidate0)).map thoughtText))
        ((before ++ (chunks.filterMap candidate0).flatMap partsOf).filterMap (plainCall lib))
        (evs ++ (Section.each (readResponseEvents lib) chunks s).1) (Section.each (readResponseEvents lib) chunks s).2 ∧
      Marked (marked || (chunks.filterMap candidate0).any cites)
        (String.join ((before ++ (chunks.filterMap candidate0).flatMap partsOf).map plainText))
        (Section.each (readResponseEvents lib) chunks s).2 := by
  induction chunks generalizing marked before evs s thinking with
  | nil => simpa [heard, Section.each, Section.skip] using And.intro h hmarked
  | cons c cs ih =>
    obtain ⟨herr, candidate, hc, hfinish⟩ := hserved c List.mem_cons_self
    have hchunk : readResponseEvents lib c s = readBody lib c candidate s := by
      have hnone : ∀ s, readFinish c candidate s = ([], s) := by
        intro s
        unfold readFinish
        rw [hfinish]
      rw [readResponseEvents_some herr hc]
      unfold Section.next
      dsimp only
      rw [hnone, List.append_nil]
    rw [List.filterMap_cons_some hc] at hfirst hroom hname ⊢
    rw [List.flatMap_cons, ← List.append_assoc] at hfirst hroom ⊢
    rw [List.flatMap_cons] at hname
    have hfirst' : ThoughtsFirst (before ++ partsOf candidate) := hfirst.sublist (List.sublist_append_left _ _)
    have hroom' : ((before ++ partsOf candidate).filterMap (plainCall lib)).length < maxGeminiToolFrames := by
      rw [List.filterMap_append, List.length_append] at hroom
      omega
    obtain ⟨hfold, hmarked'⟩ := folded_body lib c marked hfirst' h hmarked hroom'
      (fun p hp => hname p (List.mem_append_left _ hp))
    obtain ⟨hfold', hmarked''⟩ := ih (marked || cites candidate) _ (fun c' hc' => hserved c' (List.mem_cons_of_mem _ hc'))
      hfirst hfold hmarked' hroom (fun p hp => hname p (List.mem_append_right _ hp))
    have heach : Section.each (readResponseEvents lib) (c :: cs) s =
        ((readBody lib c candidate s).1 ++ (Section.each (readResponseEvents lib) cs (readBody lib c candidate s).2).1,
          (Section.each (readResponseEvents lib) cs (readBody lib c candidate s).2).2) := by
      rw [← hchunk]
      rfl
    have hheard : heard marked (candidate :: cs.filterMap candidate0) =
        (if marked then [] else partsOf candidate) ++ heard (marked || cites candidate) (cs.filterMap candidate0) := rfl
    have hthinking : thinking ++ String.join ((if marked then [] else partsOf candidate).map thoughtText) ++
        String.join ((heard (marked || cites candidate) (cs.filterMap candidate0)).map thoughtText) =
        thinking ++ String.join ((heard marked (candidate :: cs.filterMap candidate0)).map thoughtText) := by
      rw [hheard, List.map_append, String.join_append, String.append_assoc]
    rw [hthinking, List.append_assoc evs] at hfold'
    rw [heach, List.any_cons, ← Bool.or_assoc]
    exact ⟨hfold', hmarked''⟩

end

/-! ## The end -/

theorem mute_closeText {pick : IrStreamEvent → Option String} (hp : OnDeltas pick) : Mute pick closeText s := by
  intro ev hev
  unfold closeText at hev
  split at hev
  · cases List.mem_singleton.1 hev
    exact hp _ nofun
  · cases hev

theorem mute_closeTools {pick : IrStreamEvent → Option String} (hp : OnDeltas pick) : Mute pick closeTools s := by
  intro ev hev
  obtain ⟨i, -, rfl⟩ := List.mem_map.1 hev
  exact hp _ nofun

/-- Closing says nothing but that blocks are closed. -/
theorem finish_events (stopReason : IrStopReason) (usage : IrUsage) : ∃ indices : List Nat,
    (finish stopReason usage s).1 =
      indices.map IrStreamEvent.blockStop ++ [.messageDelta (some stopReason) none usage, .messageStop] := by
  have hthinking : ∃ indices : List Nat, (Section.closeThinking s).1 = indices.map IrStreamEvent.blockStop := by
    unfold Section.closeThinking
    split
    · exact ⟨[0], rfl⟩
    · exact ⟨[], rfl⟩
  have htext : ∀ s : StreamDecodeState, ∃ indices : List Nat, (closeText s).1 = indices.map IrStreamEvent.blockStop := by
    intro s
    unfold closeText
    split
    · exact ⟨[s.textIndex.getD 0], rfl⟩
    · exact ⟨[], rfl⟩
  obtain ⟨thinking, hthinking⟩ := hthinking
  obtain ⟨text, htext⟩ := htext (Section.closeThinking s).2
  obtain ⟨tools, htools⟩ : ∃ tools : List Nat, (closeTools (closeText (Section.closeThinking s).2).2).1 =
      tools.map IrStreamEvent.blockStop := ⟨_, rfl⟩
  refine ⟨thinking ++ text ++ tools, ?_⟩
  unfold finish Section.next Section.emit
  dsimp only
  rw [hthinking, htext, htools, List.map_append, List.map_append, List.append_assoc, List.append_assoc]

theorem idle_blockStops (indices : List Nat) (stopReason : IrStopReason) (usage : IrUsage) :
    Idle (indices.map IrStreamEvent.blockStop ++ [.messageDelta (some stopReason) none usage, .messageStop]) := by
  have hstops : Idle (indices.map IrStreamEvent.blockStop) := by
    induction indices with
    | nil => exact ⟨rfl, rfl, fun _ => rfl, rfl⟩
    | cons i is ih =>
      have hone : Idle [IrStreamEvent.blockStop i] := ⟨rfl, rfl, fun _ => rfl, rfl⟩
      exact hone.append ih
  exact hstops.append ⟨rfl, rfl, fun _ => rfl, rfl⟩

theorem endOf_finish (indices : List Nat) (stopReason : IrStopReason) (usage : IrUsage) :
    endOf (evs ++ (indices.map IrStreamEvent.blockStop ++ [.messageDelta (some stopReason) none usage, .messageStop])) =
      some (some stopReason, usage) := by
  have hlast : [IrStreamEvent.messageDelta (some stopReason) none usage, .messageStop].filterMap ending =
      [(some stopReason, usage)] := rfl
  unfold endOf
  rw [List.filterMap_append, List.filterMap_append, hlast, ← List.append_assoc, List.getLast?_concat]

theorem openTools_frame : (closeText (Section.closeThinking s).2).2.openTools = s.openTools := by
  rw [closeThinking_state]
  unfold closeText
  dsimp only
  split <;> rfl

/-! ## Nothing passed over -/

/-- **A piece the stream reader does not pass over**, unless it holds nothing: it is the model's, and a thought carries no
call and comes before what has opened the text block. -/
def Kept (marked : Bool) (candidate p : Json) : Prop :=
  (FromModel candidate ∨ textOrEmpty p = "" ∧ p.get fieldFunctionCall = none) ∧
    (isThought p = true → p.get fieldFunctionCall = none ∧ (marked = true → textOrEmpty p = ""))

/-- **Nothing is passed over.** -/
def DropsNothing : Bool → List Json → Prop
  | _, [] => True
  | marked, candidate :: candidates =>
    (∀ p ∈ bodyParts candidate, Kept marked candidate p) ∧ DropsNothing (marked || cites candidate) candidates

def callCount (p : Json) : Nat := if (p.get fieldFunctionCall).isSome then 1 else 0

/-- The size of what a piece holds. -/
def holds (p : Json) : Nat := (plainText p).length + (thoughtText p).length + callCount p

/-- The size of what the stream reader takes from it. -/
def takes (marked : Bool) (candidate p : Json) : Nat :=
  if FromModel candidate then
    (plainText p).length + (if marked then 0 else (thoughtText p).length) + (if isThought p then 0 else callCount p)
  else 0

theorem takes_le (marked : Bool) (candidate p : Json) : takes marked candidate p ≤ holds p := by
  unfold takes holds
  split
  · split <;> split <;> omega
  · omega

theorem callCount_eq_zero {p : Json} : callCount p = 0 ↔ p.get fieldFunctionCall = none := by
  unfold callCount
  cases p.get fieldFunctionCall <;> simp

theorem texts_length (p : Json) : (plainText p).length + (thoughtText p).length = (textOrEmpty p).length := by
  unfold plainText thoughtText
  cases isThought p <;> simp

theorem takes_eq_iff (marked : Bool) (candidate p : Json) : takes marked candidate p = holds p ↔ Kept marked candidate p := by
  have hlen := texts_length p
  have hempty : textOrEmpty p = "" ↔ (textOrEmpty p).length = 0 := by simp
  unfold takes holds Kept
  rw [hempty, ← callCount_eq_zero]
  by_cases hmodel : FromModel candidate
  · cases hthought : isThought p with
    | false => simp [hmodel, thoughtText, hthought]
    | true =>
      have hplain : (plainText p).length = 0 := by simp [plainText, hthought]
      cases marked with
      | false => simp [hmodel]
      | true =>
        simp only [hmodel, if_true, true_or, true_and, forall_const]
        omega
  · simp only [hmodel, if_false, false_or]
    constructor
    · intro h
      refine ⟨by omega, fun _ => ⟨by omega, fun _ => by omega⟩⟩
    · rintro ⟨⟨htext, hcall⟩, -⟩
      omega

/-- The size of what the stream reader takes from the chunks. -/
def takesAll : Bool → List Json → Nat
  | _, [] => 0
  | marked, candidate :: candidates =>
    ((bodyParts candidate).map (takes marked candidate)).sum + takesAll (marked || cites candidate) candidates

theorem eq_of_sum_eq {f g : Json → Nat} (hle : ∀ p, f p ≤ g p) {l : List Json} (h : (l.map f).sum = (l.map g).sum) :
    ∀ p ∈ l, f p = g p := by
  intro p hp
  by_contra hne
  have hlt := List.sum_lt_sum f g (fun q _ => hle q) ⟨p, hp, lt_of_le_of_ne (hle p) hne⟩
  omega

theorem takesAll_le (marked : Bool) (candidates : List Json) :
    takesAll marked candidates ≤ ((candidates.flatMap bodyParts).map holds).sum := by
  induction candidates generalizing marked with
  | nil => exact le_rfl
  | cons c cs ih =>
    have hone : ((bodyParts c).map (takes marked c)).sum ≤ ((bodyParts c).map holds).sum :=
      List.sum_le_sum (fun p _ => takes_le marked c p)
    have hrest := ih (marked || cites c)
    unfold takesAll
    rw [List.flatMap_cons, List.map_append, List.sum_append]
    omega

/-- Where everything has been taken, nothing was passed over. -/
theorem dropsNothing_of_takesAll {marked : Bool} {candidates : List Json}
    (h : takesAll marked candidates = ((candidates.flatMap bodyParts).map holds).sum) : DropsNothing marked candidates := by
  induction candidates generalizing marked with
  | nil => trivial
  | cons c cs ih =>
    have hone : ((bodyParts c).map (takes marked c)).sum ≤ ((bodyParts c).map holds).sum :=
      List.sum_le_sum (fun p _ => takes_le marked c p)
    have hrest := takesAll_le (marked || cites c) cs
    unfold takesAll at h
    rw [List.flatMap_cons, List.map_append, List.sum_append] at h
    have hparts : ∀ p ∈ bodyParts c, takes marked c p = holds p := eq_of_sum_eq (takes_le marked c) (by omega)
    exact ⟨fun p hp => (takes_eq_iff marked c p).1 (hparts p hp), ih (by omega)⟩

theorem length_join_map (f : Json → String) (l : List Json) :
    (String.join (l.map f)).length = (l.map (fun p => (f p).length)).sum := by
  induction l with
  | nil => rfl
  | cons p ps ih => simp [ih]

theorem length_filterMap_calls (l : List Json) : (l.filterMap (callOf lib)).length = (l.map callCount).sum := by
  induction l with
  | nil => rfl
  | cons p ps ih =>
    unfold callOf callCount at ih ⊢
    cases hp : p.get fieldFunctionCall <;> simp [hp, ih, Nat.add_comm]

theorem length_filterMap_plainCalls (l : List Json) :
    (l.filterMap (plainCall lib)).length = (l.map (fun p => if isThought p then 0 else callCount p)).sum := by
  induction l with
  | nil => rfl
  | cons p ps ih =>
    unfold plainCall callOf callCount at ih ⊢
    cases ht : isThought p with
    | true => simp [ht, ih]
    | false => cases hp : p.get fieldFunctionCall <;> simp [ht, hp, ih, Nat.add_comm]

/-- What the pieces hold, all in all. -/
theorem sum_holds (lib : GeminiLib) (l : List Json) : (l.map holds).sum = (String.join (l.map plainText)).length +
    (String.join (l.map thoughtText)).length + (l.filterMap (callOf lib)).length := by
  rw [length_join_map, length_join_map, length_filterMap_calls, ← List.sum_map_add, ← List.sum_map_add]
  rfl

theorem sum_takes (lib : GeminiLib) (marked : Bool) (candidate : Json) : ((bodyParts candidate).map (takes marked candidate)).sum =
    (String.join ((partsOf candidate).map plainText)).length +
      (String.join ((if marked then [] else partsOf candidate).map thoughtText)).length +
      ((partsOf candidate).filterMap (plainCall lib)).length := by
  rw [partsOf_eq]
  by_cases hmodel : FromModel candidate
  · have htakes : takes marked candidate = fun p => (plainText p).length + (if marked then 0 else (thoughtText p).length) +
        (if isThought p then 0 else callCount p) := by
      funext p
      exact if_pos hmodel
    have hheard : (String.join ((if marked then [] else bodyParts candidate).map thoughtText)).length =
        ((bodyParts candidate).map (fun p => if marked then 0 else (thoughtText p).length)).sum := by
      cases marked with
      | true => simp
      | false => exact length_join_map thoughtText _
    rw [htakes, if_pos hmodel, List.sum_map_add, List.sum_map_add, hheard, length_join_map, length_filterMap_plainCalls]
  · have htakes : takes marked candidate = fun _ => 0 := by
      funext p
      exact if_neg hmodel
    rw [htakes, if_neg hmodel]
    simp

/-- What the stream reader takes, all in all. -/
theorem sum_takesAll (lib : GeminiLib) (marked : Bool) (candidates : List Json) : takesAll marked candidates =
    (String.join ((candidates.flatMap partsOf).map plainText)).length +
      (String.join ((heard marked candidates).map thoughtText)).length +
      ((candidates.flatMap partsOf).filterMap (plainCall lib)).length := by
  induction candidates generalizing marked with
  | nil => rfl
  | cons c cs ih =>
    have hheard : heard marked (c :: cs) = (if marked then [] else partsOf c) ++ heard (marked || cites c) cs := rfl
    unfold takesAll
    rw [sum_takes lib, ih, hheard, List.flatMap_cons]
    simp only [List.map_append, List.filterMap_append, List.length_append, String.join_append, String.length_append]
    omega

/-- What is kept of one chunk is what it holds. -/
theorem kept_parts (lib : GeminiLib) {marked : Bool} (h : ∀ p ∈ bodyParts candidate, Kept marked candidate p) :
    String.join ((partsOf candidate).map plainText) = String.join ((bodyParts candidate).map plainText) ∧
    String.join ((if marked then [] else partsOf candidate).map thoughtText) =
      String.join ((bodyParts candidate).map thoughtText) ∧
    (partsOf candidate).filterMap (plainCall lib) = (bodyParts candidate).filterMap (callOf lib) := by
  rw [partsOf_eq]
  by_cases hmodel : FromModel candidate
  · rw [if_pos hmodel]
    refine ⟨rfl, ?_, List.filterMap_congr (fun p hp => ?_)⟩
    · cases marked with
      | false => rfl
      | true =>
        refine (Splits.join_map_const (fun p hp => ?_)).symm
        unfold thoughtText
        by_cases ht : isThought p = true
        · rw [if_pos ht]
          exact ((h p hp).2 ht).2 rfl
        · rw [if_neg ht]
    · unfold plainCall
      by_cases ht : isThought p = true
      · have hnone := ((h p hp).2 ht).1
        rw [if_pos ht]
        unfold callOf
        rw [hnone]
        rfl
      · rw [if_neg ht]
  · have hnothing : ∀ p ∈ bodyParts candidate, textOrEmpty p = "" ∧ p.get fieldFunctionCall = none :=
      fun p hp => (h p hp).1.resolve_left hmodel
    have hplain : String.join ((bodyParts candidate).map plainText) = "" := by
      refine Splits.join_map_const (fun p hp => ?_)
      unfold plainText
      split
      · rfl
      · exact (hnothing p hp).1
    have hthought : String.join ((bodyParts candidate).map thoughtText) = "" := by
      refine Splits.join_map_const (fun p hp => ?_)
      unfold thoughtText
      split
      · exact (hnothing p hp).1
      · rfl
    have hcalls : (bodyParts candidate).filterMap (callOf lib) = [] := by
      refine List.filterMap_eq_nil_iff.2 (fun p hp => ?_)
      unfold callOf
      rw [(hnothing p hp).2]
      rfl
    rw [if_neg hmodel, hplain, hthought, hcalls]
    exact ⟨rfl, by cases marked <;> rfl, rfl⟩

/-- Where nothing is passed over, all that the pieces hold is delivered. -/
theorem delivered_of_dropsNothing (lib : GeminiLib) {marked : Bool} {candidates : List Json} (h : DropsNothing marked candidates) :
    String.join ((candidates.flatMap partsOf).map plainText) = String.join ((candidates.flatMap bodyParts).map plainText) ∧
    String.join ((heard marked candidates).map thoughtText) =
      String.join ((candidates.flatMap bodyParts).map thoughtText) ∧
    (candidates.flatMap partsOf).filterMap (plainCall lib) = (candidates.flatMap bodyParts).filterMap (callOf lib) := by
  induction candidates generalizing marked with
  | nil => exact ⟨rfl, rfl, rfl⟩
  | cons c cs ih =>
    obtain ⟨hparts, hrest⟩ := h
    obtain ⟨hplain, hthought, hcalls⟩ := kept_parts lib hparts
    obtain ⟨hplain', hthought', hcalls'⟩ := ih hrest
    have hheard : heard marked (c :: cs) = (if marked then [] else partsOf c) ++ heard (marked || cites c) cs := rfl
    rw [hheard, List.flatMap_cons, List.flatMap_cons]
    simp only [List.map_append, List.filterMap_append, String.join_append]
    rw [hplain, hplain', hthought, hthought', hcalls, hcalls']
    exact ⟨rfl, rfl, rfl⟩

/-! ## Agreement -/

/-- What a client gets from the events is what the response says. -/
structure Agrees (lib : GeminiLib) (evs : List IrStreamEvent) (r : IrResponse) : Prop where
  text : textOf evs = String.join (r.content.filterMap blockText)
  thinking : thinkingOf evs = String.join (r.content.filterMap blockThinking)
  calls : callsOf evs = r.content.filterMap (blockCall lib)
  ends : endOf evs = some (r.stopReason, r.usage)

/-- **The chunks of a body.** Thoughts come before the other parts, every call has a name and there are not too many of
them. The chunks have the candidate's parts, cut up and spread over them, and the last one has the reason to finish and
the usage. -/
structure Streamed (body candidate : Json) (init : List Json) (last : Json) : Prop where
  whole : candidate0 body = some candidate
  first : ThoughtsFirst (bodyParts candidate)
  named : ∀ p ∈ bodyParts candidate, ∀ funcCall ∈ p.get fieldFunctionCall, callName funcCall ≠ ""
  few : ((bodyParts candidate).filterMap (Json.get fieldFunctionCall)).length < maxGeminiToolFrames
  served : ∀ c ∈ init, errorOf c = none ∧ ∃ candidate', candidate0 c = some candidate' ∧
    candidate'.getStr fieldFinishReason = none
  finished : errorOf last = none ∧ ∃ candidate' finishReason, candidate0 last = some candidate' ∧
    candidate'.getStr fieldFinishReason = some finishReason ∧ candidate.getStr fieldFinishReason = some finishReason
  usage : last.get fieldUsageMetadata = body.get fieldUsageMetadata
  parts : Splits (bodyParts candidate) (((init ++ [last]).filterMap candidate0).flatMap bodyParts)

/-- The stop reason of a turn with these calls. -/
def turnStopReason (finishReason : String) (calls : List (String × String)) : IrStopReason :=
  if mapGeminiFinishReason finishReason = .endTurn ∧ calls ≠ [] then .toolUse else mapGeminiFinishReason finishReason

theorem geminiUsage_congr {body last : Json} (h : last.get fieldUsageMetadata = body.get fieldUsageMetadata) :
    geminiUsage last = geminiUsage body := by
  unfold geminiUsage
  rw [h]

/-- The whole response has all that the parts hold. -/
theorem readResponse_some (lib : GeminiLib) {body : Json} {finishReason : String} (hc : candidate0 body = some candidate)
    (hfinish : candidate.getStr fieldFinishReason = some finishReason) :
    ∃ r, readResponse lib body = .ok r ∧
      String.join (r.content.filterMap blockText) = String.join ((bodyParts candidate).map plainText) ∧
      String.join (r.content.filterMap blockThinking) = String.join ((bodyParts candidate).map thoughtText) ∧
      r.content.filterMap (blockCall lib) = (bodyParts candidate).filterMap (callOf lib) ∧
      r.stopReason = some (turnStopReason finishReason ((bodyParts candidate).filterMap (callOf lib))) ∧
      r.usage = geminiUsage body := by
  obtain ⟨content, hcontent⟩ : ∃ content, content = attachGeminiCitationsToTextBlocks candidate
    (readParts lib ((body.getStr fieldResponseId).getD "") 0 (bodyParts candidate)) := ⟨_, rfl⟩
  have hcalls : content.filterMap (blockCall lib) = (bodyParts candidate).filterMap (callOf lib) := by
    have hkeep : ∀ c b, blockCall lib (pushCitation c b) = blockCall lib b := by
      intro c b
      cases b <;> rfl
    rw [hcontent, filterMap_attach _ hkeep, calls_readParts]
  refine ⟨{ role := .assistant
            content := content
            stopReason := responseStopReason content candidate
            usage := geminiUsage body
            model := modelOf body
            id := body.getStr fieldResponseId
            created := none
            systemFingerprint := none
            stopSequence := none
            logprobs := readGeminiLogprobs (candidate.get "logprobsResult") }, ?_, ?_, ?_, hcalls, ?_, rfl⟩
  · unfold readResponse
    dsimp only
    rw [if_neg (isObject_of_candidate0 hc), unblocked_of_candidate0 hc, hc]
    dsimp only
    rw [← hcontent]
  · have hkeep : ∀ c b, blockText (pushCitation c b) = blockText b := by
      intro c b
      cases b <;> rfl
    dsimp only
    rw [hcontent, filterMap_attach _ hkeep, text_readParts]
  · have hkeep : ∀ c b, blockThinking (pushCitation c b) = blockThinking b := by
      intro c b
      cases b <;> rfl
    dsimp only
    rw [hcontent, filterMap_attach _ hkeep, thinking_readParts]
  · have hany : content.any isToolUse = true ↔ (bodyParts candidate).filterMap (callOf lib) ≠ [] := by
      rw [← hcalls, List.any_eq_true, Ne, List.filterMap_eq_nil_iff]
      constructor
      · rintro ⟨b, hb, huse⟩ hnone
        have hb' := hnone b hb
        cases b with
        | toolUse id name input sig => exact absurd hb' (by simp [blockCall])
        | _ => cases huse
      · intro h
        push Not at h
        obtain ⟨b, hb, hcall⟩ := h
        refine ⟨b, hb, ?_⟩
        cases b with
        | toolUse id name input sig => rfl
        | _ => exact absurd rfl hcall
    unfold responseStopReason turnStopReason
    dsimp only
    rw [hfinish]
    simp only [Option.map_some, hany]

theorem heard_snoc (marked : Bool) (front : List Json) (candidate : Json) : heard marked (front ++ [candidate]) =
    heard marked front ++ if marked || front.any cites then [] else partsOf candidate := by
  induction front generalizing marked with
  | nil =>
    unfold heard heard
    simp
  | cons c cs ih =>
    have hcons : ∀ cs, heard marked (c :: cs) =
        (if marked then [] else partsOf c) ++ heard (marked || cites c) cs := fun _ => rfl
    rw [List.cons_append, hcons, hcons, ih, List.any_cons, Bool.or_assoc, List.append_assoc]

theorem sublist_flatMap (candidates : List Json) :
    (candidates.flatMap partsOf).Sublist (candidates.flatMap bodyParts) := by
  induction candidates with
  | nil => exact List.Sublist.refl _
  | cons c cs ih =>
    have hone : (partsOf c).Sublist (bodyParts c) := by
      rw [partsOf_eq]
      split
      · exact List.Sublist.refl _
      · exact List.nil_sublist _
    rw [List.flatMap_cons, List.flatMap_cons]
    exact hone.append ih

theorem plainCalls_le (l : List Json) :
    (l.filterMap (plainCall lib)).length ≤ (l.filterMap (Json.get fieldFunctionCall)).length := by
  induction l with
  | nil => exact le_rfl
  | cons p ps ih =>
    unfold plainCall callOf at ih ⊢
    cases hp : p.get fieldFunctionCall <;> cases ht : isThought p <;> simp [hp, ht, ih]
    omega

/-- The stream delivers what its pieces hold, up to those it passes over. -/
theorem readAll_streamed (lib : GeminiLib) {body : Json} {init : List Json} {last : Json} (h : Streamed body candidate init last) :
    ∃ finishReason, candidate.getStr fieldFinishReason = some finishReason ∧
      textOf (readAll lib (init ++ [last])).1 =
        String.join ((((init ++ [last]).filterMap candidate0).flatMap partsOf).map plainText) ∧
      thinkingOf (readAll lib (init ++ [last])).1 =
        String.join ((heard false ((init ++ [last]).filterMap candidate0)).map thoughtText) ∧
      callsOf (readAll lib (init ++ [last])).1 =
        (((init ++ [last]).filterMap candidate0).flatMap partsOf).filterMap (plainCall lib) ∧
      endOf (readAll lib (init ++ [last])).1 = some (some (turnStopReason finishReason
        ((((init ++ [last]).filterMap candidate0).flatMap partsOf).filterMap (plainCall lib))), geminiUsage last) := by
  obtain ⟨herr, candidate', finishReason, hc, hfinish', hfinish⟩ := h.finished
  have hlast : (init ++ [last]).filterMap candidate0 = init.filterMap candidate0 ++ [candidate'] := by
    rw [List.filterMap_append, List.filterMap_cons_some hc]
    rfl
  obtain ⟨front, hfront⟩ : ∃ front, front = init.filterMap candidate0 := ⟨_, rfl⟩
  obtain ⟨pieces, hpieces⟩ : ∃ pieces, pieces = front.flatMap partsOf := ⟨_, rfl⟩
  have hparts := h.parts
  rw [hlast, ← hfront] at hparts ⊢
  have hflat : (front ++ [candidate']).flatMap partsOf = pieces ++ partsOf candidate' := by
    rw [List.flatMap_append, ← hpieces]
    simp
  -- what is read is part of what is there
  have hsub : (pieces ++ partsOf candidate').Sublist ((front ++ [candidate']).flatMap bodyParts) := by
    rw [← hflat]
    exact sublist_flatMap _
  have hfirst : ThoughtsFirst (pieces ++ partsOf candidate') := (hparts.thoughtsFirst h.first).sublist hsub
  have hname : ∀ p ∈ pieces ++ partsOf candidate', ∀ funcCall ∈ p.get fieldFunctionCall, callName funcCall ≠ "" := by
    intro p hp funcCall hcall
    have hmem : funcCall ∈ (bodyParts candidate).filterMap (Json.get fieldFunctionCall) := by
      rw [← hparts.calls_eq]
      exact List.mem_filterMap.2 ⟨p, hsub.subset hp, hcall⟩
    obtain ⟨q, hq, hqcall⟩ := List.mem_filterMap.1 hmem
    exact h.named q hq funcCall hqcall
  have hroom : ((pieces ++ partsOf candidate').filterMap (plainCall lib)).length < maxGeminiToolFrames := by
    have hle : ((pieces ++ partsOf candidate').filterMap (plainCall lib)).length ≤
        ((pieces ++ partsOf candidate').filterMap (Json.get fieldFunctionCall)).length := plainCalls_le _
    have hle' := (hsub.filterMap (Json.get fieldFunctionCall)).length_le
    rw [hparts.calls_eq] at hle'
    have hfew := h.few
    omega
  have hroom' : (pieces.filterMap (plainCall lib)).length < maxGeminiToolFrames := by
    rw [List.filterMap_append, List.length_append] at hroom
    omega
  -- up to the last chunk
  obtain ⟨hfold, hmarked⟩ := folded_chunks lib false init [] h.served
    (by rw [← hfront, ← hpieces]; exact hfirst.sublist (List.sublist_append_left _ _)) Folded.start nofun
    (by rw [← hfront, ← hpieces]; exact hroom')
    (by rw [← hfront, ← hpieces]; exact fun p hp => hname p (List.mem_append_left _ hp))
  rw [← hfront, ← hpieces, List.nil_append, List.nil_append] at hfold
  rw [← hfront, ← hpieces, List.nil_append] at hmarked
  -- the last chunk up to its finish
  obtain ⟨s, hs⟩ : ∃ s, s = (Section.each (readResponseEvents lib) init .default).2 := ⟨_, rfl⟩
  rw [← hs] at hfold hmarked
  obtain ⟨hbody, -⟩ := folded_body lib last _ hfirst hfold hmarked hroom
    (fun p hp => hname p (List.mem_append_right _ hp))
  obtain ⟨s', hs'⟩ : ∃ s', s' = (readBody lib last candidate' s).2 := ⟨_, rfl⟩
  obtain ⟨evs, hevs⟩ : ∃ evs, evs = (Section.each (readResponseEvents lib) init .default).1 ++
    (readBody lib last candidate' s).1 := ⟨_, rfl⟩
  rw [← hevs, ← hs'] at hbody
  obtain ⟨indices, hindices⟩ := finish_events (s := s') (stopReasonOf s' finishReason) (geminiUsage last)
  have hall : (readAll lib (init ++ [last])).1 = evs ++ (indices.map IrStreamEvent.blockStop ++
      [.messageDelta (some (stopReasonOf s' finishReason)) none (geminiUsage last), .messageStop]) := by
    have hone : ∀ s, Section.each (readResponseEvents lib) [last] s = readResponseEvents lib last s := by
      intro s
      unfold Section.each Section.each Section.next Section.skip
      simp
    have hend : (readFinish last candidate' s').1 = (finish (stopReasonOf s' finishReason) (geminiUsage last) s').1 := by
      unfold readFinish
      rw [hfinish']
    unfold readAll
    rw [Section.each_append]
    unfold Section.next
    dsimp only
    rw [hone, ← hs, readResponseEvents_some herr hc]
    unfold Section.next
    dsimp only
    rw [← hs', hend, hindices, hevs]
    simp
  obtain ⟨htext, hthinking, harguments, hstarts⟩ :=
    idle_blockStops indices (stopReasonOf s' finishReason) (geminiUsage last)
  have hstop : stopReasonOf s' finishReason =
      turnStopReason finishReason ((pieces ++ partsOf candidate').filterMap (plainCall lib)) := by
    have hopen : s'.openTools ≠ [] ↔ (pieces ++ partsOf candidate').filterMap (plainCall lib) ≠ [] := by
      rw [← List.length_pos_iff, ← List.length_pos_iff, hbody.opened]
    unfold stopReasonOf turnStopReason
    simp only [hopen]
  have hheard : heard false (front ++ [candidate']) =
      heard false front ++ if false || front.any cites then [] else partsOf candidate' := heard_snoc _ _ _
  rw [hall, hflat, hheard]
  refine ⟨finishReason, hfinish, ?_, ?_, ?_, ?_⟩
  · have happ := joined_append textDelta evs (indices.map IrStreamEvent.blockStop ++
      [.messageDelta (some (stopReasonOf s' finishReason)) none (geminiUsage last), .messageStop])
    unfold textOf at htext ⊢
    rw [happ, htext, String.append_empty]
    exact hbody.text_eq
  · have happ := joined_append thinkingDelta evs (indices.map IrStreamEvent.blockStop ++
      [.messageDelta (some (stopReasonOf s' finishReason)) none (geminiUsage last), .messageStop])
    have hdelivered := hbody.thinking_eq
    unfold thinkingOf at hthinking hdelivered ⊢
    rw [happ, hthinking, String.append_empty, hdelivered, List.map_append, String.join_append]
    simp
  · rw [Folded.callsOf_append_idle harguments hstarts]
    exact hbody.calls_eq
  · rw [endOf_finish, hstop]

/-- **Streamed and whole responses agree exactly when nothing is passed over.** -/
theorem agrees_iff (lib : GeminiLib) {body candidate : Json} {init : List Json} {last : Json}
    (h : Streamed body candidate init last) :
    (∃ r, readResponse lib body = .ok r ∧ Agrees lib (readAll lib (init ++ [last])).1 r) ↔
      DropsNothing false ((init ++ [last]).filterMap candidate0) := by
  obtain ⟨finishReason, hfinish, htext, hthinking, hcalls, hend⟩ := readAll_streamed lib h
  obtain ⟨r, hr, hrtext, hrthinking, hrcalls, hrstop, hrusage⟩ := readResponse_some lib h.whole hfinish
  obtain ⟨candidates, hcandidates⟩ : ∃ candidates, candidates = (init ++ [last]).filterMap candidate0 := ⟨_, rfl⟩
  have hparts := h.parts
  rw [← hcandidates] at htext hthinking hcalls hend hparts ⊢
  rw [← hparts.plainText_eq] at hrtext
  rw [← hparts.thoughtText_eq] at hrthinking
  rw [← hparts.callOf_eq] at hrcalls hrstop
  constructor
  · rintro ⟨r', hr', hagrees⟩
    obtain rfl : r = r' := by
      rw [hr] at hr'
      exact Except.ok.inj hr'
    have htext' := hagrees.text
    have hthinking' := hagrees.thinking
    have hcalls' := hagrees.calls
    rw [htext, hrtext] at htext'
    rw [hthinking, hrthinking] at hthinking'
    rw [hcalls, hrcalls] at hcalls'
    -- what is delivered has the size of what the parts hold
    refine dropsNothing_of_takesAll ?_
    rw [sum_takesAll lib, sum_holds lib, htext', hthinking', hcalls']
  · intro hdrops
    obtain ⟨hplain, hthought, hall⟩ := delivered_of_dropsNothing lib hdrops
    refine ⟨r, hr, ?_, ?_, ?_, ?_⟩
    · rw [htext, hrtext, hplain]
    · rw [hthinking, hrthinking, hthought]
    · rw [hcalls, hrcalls, hall]
    · rw [hend, hrstop, hrusage, hall, geminiUsage_congr h.usage]

def textPart (text : String) : Json := .object [("text", .string text)]

def thoughtPart (text : String) : Json := .object [("text", .string text), ("thought", .bool true)]

def callPart (name : String) : Json := .object [(fieldFunctionCall, .object [("name", .string name)])]

def candidateOf (parts : List Json) (rest : List (String × Json)) : Json :=
  .object (("content", .object [("parts", .array parts)]) :: rest)

def chunkOf (candidate : Json) : Json := .object [("candidates", .array [candidate])]

/-- A thought, a text and a call, in whole and in three chunks. -/
def greeting : Json := candidateOf [thoughtPart "Hm!", textPart "Hi", callPart "f"] [(fieldFinishReason, .string "STOP")]

def greetingChunks : List Json := [chunkOf (candidateOf [thoughtPart "Hm"] []), chunkOf (candidateOf [thoughtPart "!", textPart "H"] [])]

def greetingEnd : Json := chunkOf (candidateOf [textPart "i", callPart "f"] [(fieldFinishReason, .string "STOP")])

theorem greeting_streamed : Streamed (chunkOf greeting) greeting greetingChunks greetingEnd where
  whole := rfl
  first := by
    unfold ThoughtsFirst
    decide +kernel
  named := by decide +kernel
  few := by decide +kernel
  served := by
    intro c hc
    rcases List.mem_cons.1 hc with rfl | hc
    · exact ⟨rfl, _, rfl, rfl⟩
    · cases List.mem_singleton.1 hc
      exact ⟨rfl, _, rfl, rfl⟩
  finished := ⟨rfl, _, "STOP", rfl, rfl, rfl⟩
  usage := rfl
  parts := by
    have hthought : Pieces (thoughtPart "Hm!") [thoughtPart "Hm", thoughtPart "!"] :=
      ⟨by decide +kernel, by decide +kernel, rfl⟩
    have htext : Pieces (textPart "Hi") [textPart "H", textPart "i"] := ⟨by decide +kernel, by decide +kernel, rfl⟩
    have hcall : Pieces (callPart "f") [callPart "f"] := ⟨by decide +kernel, by decide +kernel, rfl⟩
    have hall : Splits [thoughtPart "Hm!", textPart "Hi", callPart "f"] ([thoughtPart "Hm", thoughtPart "!"] ++
        ([textPart "H", textPart "i"] ++ ([callPart "f"] ++ []))) := .cons hthought (.cons htext (.cons hcall .nil))
    exact hall

theorem agrees_greeting : (∃ r, readResponse bareLib (chunkOf greeting) = .ok r ∧
    Agrees bareLib (readAll bareLib (greetingChunks ++ [greetingEnd])).1 r) ↔
      DropsNothing false ((greetingChunks ++ [greetingEnd]).filterMap candidate0) :=
  agrees_iff bareLib greeting_streamed

/-- A thought with a call on it. -/
def thoughtCall : Json := candidateOf
  [.object [(fieldFunctionCall, .object [("name", .string "f")]), ("thought", .bool true)]]
  [(fieldFinishReason, .string "STOP")]

/-- The call of a thought is in the whole response and not in the stream. -/
theorem thought_call_dropped : Streamed (chunkOf thoughtCall) thoughtCall [] (chunkOf thoughtCall) ∧
    ¬ ∃ r, readResponse bareLib (chunkOf thoughtCall) = .ok r ∧
      Agrees bareLib (readAll bareLib [chunkOf thoughtCall]).1 r := by
  refine ⟨⟨rfl, ?_, by decide +kernel, by decide +kernel, nofun, ⟨rfl, _, "STOP", rfl, rfl, rfl⟩, rfl, ?_⟩, ?_⟩
  · unfold ThoughtsFirst
    decide +kernel
  · exact .cons ⟨by decide +kernel, by decide +kernel, rfl⟩ .nil
  · rintro ⟨r, hr, hagrees⟩
    have hwhole : ∃ r, readResponse bareLib (chunkOf thoughtCall) = .ok r ∧
        (r.content.filterMap (blockCall bareLib)).length = 1 := ⟨_, rfl, by decide +kernel⟩
    have hstream : (callsOf (readAll bareLib [chunkOf thoughtCall]).1).length = 0 := by decide +kernel
    obtain ⟨r', hr', hone⟩ := hwhole
    obtain rfl : r = r' := by
      rw [hr] at hr'
      exact Except.ok.inj hr'
    rw [← hagrees.calls] at hone
    omega

end Busbar.Gemini
