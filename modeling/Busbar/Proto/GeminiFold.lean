import Busbar.Proto.GeminiBlocks
import Busbar.Proto.GeminiResponse

/-!
# The parts of a Gemini response, whole and in pieces

A whole response hands on what its parts hold, and a stream hands on the pieces it is made of, one after the other.

* `Splits`: the pieces of a list of parts.
* `Folded`: what has been delivered so far, and the state the reader is in.
* `folded_pieces`: pieces one after the other.
-/

namespace Busbar.Gemini

variable {lib : GeminiLib} {s : StreamDecodeState} {data part candidate : Json} {evs : List IrStreamEvent}

/-! ## What parts hold -/

def textOrEmpty (part : Json) : String := (part.getStr "text").getD ""

def plainText (part : Json) : String := if isThought part then "" else textOrEmpty part

def thoughtText (part : Json) : String := if isThought part then textOrEmpty part else ""

/-- The name and the arguments of a call, as text. -/
def callOf (lib : GeminiLib) (part : Json) : Option (String × String) :=
  (part.get fieldFunctionCall).map (fun funcCall =>
    (callName funcCall, lib.toString (emptyObjectIfAbsent (funcCall.get "args"))))

/-- The call of a part that is no thought. -/
def plainCall (lib : GeminiLib) (part : Json) : Option (String × String) :=
  if isThought part then none else callOf lib part

def blockThinking : IrBlock → Option String
  | .thinking text _ _ => some text
  | _ => none

def blockCall (lib : GeminiLib) : IrBlock → Option (String × String)
  | .toolUse _ name input _ => some (name, lib.toString input)
  | _ => none

/-! ## The whole response -/

theorem filterMap_modify {β : Type} (f : IrBlock → Option β) (g : IrBlock → IrBlock) (hf : ∀ b, f (g b) = f b)
    (content : List IrBlock) (i : Nat) : (content.modify i g).filterMap f = content.filterMap f := by
  induction content generalizing i with
  | nil => simp
  | cons b bs ih =>
    cases i with
    | zero => simp [List.filterMap_cons, hf]
    | succ i => simp [List.filterMap_cons, ih]

/-- Citations change nothing else. -/
theorem filterMap_attach {β : Type} (f : IrBlock → Option β) (hf : ∀ c b, f (pushCitation c b) = f b)
    (candidate : Json) (content : List IrBlock) :
    (attachGeminiCitationsToTextBlocks candidate content).filterMap f = content.filterMap f := by
  have hone : ∀ ranges content c, (attachCitation ranges content c).filterMap f = content.filterMap f := by
    intro ranges content c
    unfold attachCitation
    cases ownerOf ranges (c.startIndex.getD 0) with
    | none => rfl
    | some owner => exact filterMap_modify f _ (hf _) content owner.1
  have hall : ∀ (citations : List IrCitation) ranges content,
      (citations.foldl (attachCitation ranges) content).filterMap f = content.filterMap f := by
    intro citations ranges
    induction citations with
    | nil => exact fun _ => rfl
    | cons c cs ih =>
      intro content
      rw [List.foldl_cons, ih, hone]
  unfold attachGeminiCitationsToTextBlocks
  dsimp only
  split
  · rfl
  · exact hall _ _ _

theorem join_toList (t : Option String) : String.join t.toList = t.getD "" := by
  cases t <;> simp

theorem text_readParts (salt : String) (parts : List Json) (i : Nat) :
    String.join ((readParts lib salt i parts).filterMap blockText) = String.join (parts.map plainText) := by
  induction parts generalizing i with
  | nil => rfl
  | cons part parts ih =>
    have htext : String.join ((textBlocks part).filterMap blockText) = plainText part := by
      unfold textBlocks plainText textOrEmpty partText
      cases isThought part with
      | true => rfl
      | false =>
        cases part.getStr "text" with
        | none => simp
        | some text =>
          by_cases he : text = "" <;> simp [he, blockText, Option.filter_some]
    have hcall : (callBlocks lib salt i part).filterMap blockText = [] := by
      unfold callBlocks
      cases part.get fieldFunctionCall <;> simp [blockText]
    unfold readParts
    rw [List.filterMap_append, List.filterMap_append, hcall, String.join_append, String.join_append, htext, ih]
    simp

theorem thinking_readParts (salt : String) (parts : List Json) (i : Nat) :
    String.join ((readParts lib salt i parts).filterMap blockThinking) = String.join (parts.map thoughtText) := by
  induction parts generalizing i with
  | nil => rfl
  | cons part parts ih =>
    have htext : String.join ((textBlocks part).filterMap blockThinking) = thoughtText part := by
      unfold textBlocks thoughtText textOrEmpty
      cases isThought part with
      | true => simp [blockThinking]
      | false => cases partText part <;> rfl
    have hcall : (callBlocks lib salt i part).filterMap blockThinking = [] := by
      unfold callBlocks
      cases part.get fieldFunctionCall <;> simp [blockThinking]
    unfold readParts
    rw [List.filterMap_append, List.filterMap_append, hcall, String.join_append, String.join_append, htext, ih]
    simp

theorem calls_readParts (salt : String) (parts : List Json) (i : Nat) :
    (readParts lib salt i parts).filterMap (blockCall lib) = parts.filterMap (callOf lib) := by
  induction parts generalizing i with
  | nil => rfl
  | cons part parts ih =>
    have htext : (textBlocks part).filterMap (blockCall lib) = [] := by
      unfold textBlocks
      cases isThought part with
      | true => simp [blockCall]
      | false => cases partText part <;> simp [blockCall]
    have hcall : (callBlocks lib salt i part).filterMap (blockCall lib) = (callOf lib part).toList := by
      unfold callBlocks callOf
      cases part.get fieldFunctionCall <;> simp [blockCall]
    unfold readParts
    rw [List.filterMap_append, List.filterMap_append, htext, hcall, ih, List.nil_append]
    cases hc : callOf lib part <;> simp [hc]

/-! ## Pieces -/

/-- The pieces of one part: thoughts if it is one, with its text cut up and its call on one of them. -/
structure Pieces (part : Json) (pieces : List Json) : Prop where
  thought : ∀ p ∈ pieces, isThought p = isThought part
  text : String.join (pieces.map textOrEmpty) = textOrEmpty part
  calls : pieces.filterMap (Json.get fieldFunctionCall) = (part.get fieldFunctionCall).toList

/-- The pieces of the parts, in their order. -/
inductive Splits : List Json → List Json → Prop where
  | nil : Splits [] []
  | cons {part : Json} {parts pieces rest : List Json} : Pieces part pieces → Splits parts rest →
      Splits (part :: parts) (pieces ++ rest)

/-- No thought comes behind a part that is none. -/
def ThoughtsFirst (parts : List Json) : Prop := parts.Pairwise (fun p q => isThought q = true → isThought p = true)

namespace Splits

variable {parts pieces : List Json}

theorem join_map_const {pieces : List Json} {f : Json → String} (h : ∀ p ∈ pieces, f p = "") :
    String.join (pieces.map f) = "" := by
  induction pieces with
  | nil => rfl
  | cons p ps ih =>
    have hp := h p List.mem_cons_self
    have hps := ih (fun q hq => h q (List.mem_cons_of_mem _ hq))
    simp [hp, hps]

theorem plainText_eq (h : Splits parts pieces) : String.join (pieces.map plainText) = String.join (parts.map plainText) := by
  induction h with
  | nil => rfl
  | @cons part parts pieces rest hpart hrest ih =>
    have hone : String.join (pieces.map plainText) = plainText part := by
      cases ht : isThought part with
      | true =>
        have hempty : ∀ p ∈ pieces, plainText p = "" := by
          intro p hp
          unfold plainText
          rw [hpart.thought p hp, ht, if_pos rfl]
        rw [join_map_const hempty]
        unfold plainText
        rw [ht, if_pos rfl]
      | false =>
        have hsame : pieces.map plainText = pieces.map textOrEmpty := by
          refine List.map_congr_left (fun p hp => ?_)
          unfold plainText
          rw [hpart.thought p hp, ht]
          rfl
        rw [hsame, hpart.text]
        unfold plainText
        rw [ht]
        rfl
    rw [List.map_append, String.join_append, ih, hone]
    simp

theorem thoughtText_eq (h : Splits parts pieces) :
    String.join (pieces.map thoughtText) = String.join (parts.map thoughtText) := by
  induction h with
  | nil => rfl
  | @cons part parts pieces rest hpart hrest ih =>
    have hone : String.join (pieces.map thoughtText) = thoughtText part := by
      cases ht : isThought part with
      | true =>
        have hsame : pieces.map thoughtText = pieces.map textOrEmpty := by
          refine List.map_congr_left (fun p hp => ?_)
          unfold thoughtText
          rw [hpart.thought p hp, ht, if_pos rfl]
        rw [hsame, hpart.text]
        unfold thoughtText
        rw [ht, if_pos rfl]
      | false =>
        have hempty : ∀ p ∈ pieces, thoughtText p = "" := by
          intro p hp
          unfold thoughtText
          rw [hpart.thought p hp, ht]
          rfl
        rw [join_map_const hempty]
        unfold thoughtText
        rw [ht]
        rfl
    rw [List.map_append, String.join_append, ih, hone]
    simp

theorem calls_eq (h : Splits parts pieces) :
    pieces.filterMap (Json.get fieldFunctionCall) = parts.filterMap (Json.get fieldFunctionCall) := by
  induction h with
  | nil => rfl
  | @cons part parts pieces rest hpart hrest ih =>
    rw [List.filterMap_append, hpart.calls, ih]
    cases hc : part.get fieldFunctionCall <;> simp [hc]

theorem callOf_eq (h : Splits parts pieces) : pieces.filterMap (callOf lib) = parts.filterMap (callOf lib) := by
  have hmap : ∀ l : List Json, l.filterMap (callOf lib) = (l.filterMap (Json.get fieldFunctionCall)).map (fun funcCall =>
      (callName funcCall, lib.toString (emptyObjectIfAbsent (funcCall.get "args")))) := by
    intro l
    rw [List.map_filterMap]
    rfl
  rw [hmap, hmap, h.calls_eq]

theorem flag (h : Splits parts pieces) : ∀ p ∈ pieces, ∃ part ∈ parts, isThought p = isThought part := by
  induction h with
  | nil => exact nofun
  | @cons part parts pieces rest hpart hrest ih =>
    intro p hp
    rcases List.mem_append.1 hp with hp | hp
    · exact ⟨part, List.mem_cons_self, hpart.thought p hp⟩
    · obtain ⟨part', hpart', hflag⟩ := ih p hp
      exact ⟨part', List.mem_cons_of_mem _ hpart', hflag⟩

/-- Thoughts stay in front. -/
theorem thoughtsFirst (h : Splits parts pieces) (hparts : ThoughtsFirst parts) : ThoughtsFirst pieces := by
  induction h with
  | nil => exact List.Pairwise.nil
  | @cons part parts pieces rest hpart hrest ih =>
    obtain ⟨hhead, htail⟩ := List.pairwise_cons.1 hparts
    refine List.pairwise_append.2 ⟨?_, ih htail, ?_⟩
    · refine List.pairwise_of_forall_mem_list (fun p hp q hq hthought => ?_)
      rw [hpart.thought p hp, ← hpart.thought q hq]
      exact hthought
    · intro p hp q hq hthought
      obtain ⟨part', hpart', hflag⟩ := hrest.flag q hq
      rw [hpart.thought p hp]
      exact hhead part' hpart' (hflag ▸ hthought)

end Splits

/-! ## What has been delivered -/

/-- Events a client puts nothing together from. -/
def Idle (evs : List IrStreamEvent) : Prop :=
  textOf evs = "" ∧ thinkingOf evs = "" ∧ (∀ i, argumentsOf i evs = "") ∧ evs.filterMap toolStart = []

/-- **What has been delivered so far**, and the state behind it. -/
structure Folded (text thinking : String) (calls : List (String × String)) (evs : List IrStreamEvent)
    (s : StreamDecodeState) : Prop where
  text_eq : textOf evs = text
  thinking_eq : thinkingOf evs = thinking
  calls_eq : callsOf evs = calls
  opened : s.openTools.length = calls.length
  held : ∀ i ∈ s.openTools, i < s.nextIrIndex
  coupled : Coupled s
  below : ∀ start ∈ evs.filterMap toolStart, start.1 < s.nextIrIndex
  ahead : ∀ i, s.nextIrIndex ≤ i → argumentsOf i evs = ""

namespace Folded

variable {text thinking : String} {calls : List (String × String)}

theorem start : Folded "" "" [] [] .default :=
  ⟨rfl, rfl, rfl, rfl, nofun, rfl, nofun, fun _ _ => rfl⟩

/-- The calls stay as they are where no start and no arguments come. -/
theorem callsOf_append_idle {evs' : List IrStreamEvent} (harguments : ∀ i, argumentsOf i evs' = "")
    (hstarts : evs'.filterMap toolStart = []) : callsOf (evs ++ evs') = callsOf evs := by
  have hsame : ∀ i, argumentsOf i (evs ++ evs') = argumentsOf i evs := by
    intro i
    have happ : argumentsOf i (evs ++ evs') = argumentsOf i evs ++ argumentsOf i evs' := joined_append _ _ _
    rw [happ, harguments]
    exact String.append_empty
  unfold callsOf
  rw [List.filterMap_append, hstarts, List.append_nil]
  refine List.map_congr_left (fun start _ => ?_)
  dsimp only
  rw [hsame]

/-- Events without calls, and a state with the same tools. -/
theorem deltas (h : Folded text thinking calls evs s) {evs' : List IrStreamEvent} {s' : StreamDecodeState}
    (harguments : ∀ i, argumentsOf i evs' = "") (hstarts : evs'.filterMap toolStart = [])
    (hopen : s'.openTools = s.openTools) (hcoupled : Coupled s') (hnext : s.nextIrIndex ≤ s'.nextIrIndex) :
    Folded (text ++ textOf evs') (thinking ++ thinkingOf evs') calls (evs ++ evs') s' := by
  refine ⟨?_, ?_, ?_, ?_, ?_, hcoupled, ?_, ?_⟩
  · rw [← h.text_eq]
    exact joined_append _ _ _
  · rw [← h.thinking_eq]
    exact joined_append _ _ _
  · rw [callsOf_append_idle harguments hstarts]
    exact h.calls_eq
  · rw [hopen]
    exact h.opened
  · intro i hi
    rw [hopen] at hi
    have hlt := h.held i hi
    omega
  · intro start hmem
    rw [List.filterMap_append, hstarts, List.append_nil] at hmem
    have hlt := h.below start hmem
    omega
  · intro i hle
    have happ : argumentsOf i (evs ++ evs') = argumentsOf i evs ++ argumentsOf i evs' := joined_append _ _ _
    rw [happ, harguments, h.ahead i (by omega)]
    rfl

theorem idle (h : Folded text thinking calls evs s) {evs' : List IrStreamEvent} {s' : StreamDecodeState}
    (hidle : Idle evs') (hopen : s'.openTools = s.openTools) (hcoupled : Coupled s')
    (hnext : s.nextIrIndex ≤ s'.nextIrIndex) : Folded text thinking calls (evs ++ evs') s' := by
  obtain ⟨htext, hthinking, harguments, hstarts⟩ := hidle
  have hall := h.deltas harguments hstarts hopen hcoupled hnext
  rw [htext, hthinking] at hall
  simpa using hall

end Folded

/-! ## Sections -/

theorem starts_closeThinking : (Section.closeThinking s).1.filterMap toolStart = [] := by
  unfold Section.closeThinking
  split <;> rfl

theorem starts_openThinking : (Section.openThinking s).1.filterMap toolStart = [] := by
  unfold Section.openThinking
  dsimp only
  split <;> rfl

theorem nextIrIndex_closeThinking : (Section.closeThinking s).2.nextIrIndex = s.nextIrIndex := by
  rw [closeThinking_state]

theorem nextIrIndex_openThinking : (Section.openThinking s).2.nextIrIndex = s.nextIrIndex := by
  unfold Section.openThinking
  dsimp only
  split <;> rfl

theorem starts_onOpenText (d : IrDelta) : (Section.onOpenText d s).1.filterMap toolStart = [] := by
  have hopen : ∀ s : StreamDecodeState, (Section.openText s).1.filterMap toolStart = [] := by
    intro s
    unfold Section.openText
    dsimp only
    split <;> rfl
  have hdelta : ∀ s : StreamDecodeState, (Section.onText d s).1.filterMap toolStart = [] := by
    intro s
    unfold Section.onText
    split <;> rfl
  unfold Section.onOpenText Section.next
  dsimp only
  rw [List.filterMap_append, List.filterMap_append, starts_closeThinking, hopen, hdelta]
  rfl

theorem idle_closeThinking : Idle (Section.closeThinking s).1 :=
  ⟨(mute_closeThinking onDeltas_textDelta).joined, (mute_closeThinking onDeltas_thinkingDelta).joined,
    fun i => (mute_closeThinking (onDeltas_argumentsDelta i)).joined, starts_closeThinking⟩

theorem Idle.append {evs' : List IrStreamEvent} (h : Idle evs) (h' : Idle evs') : Idle (evs ++ evs') := by
  obtain ⟨htext, hthinking, harguments, hstarts⟩ := h
  obtain ⟨htext', hthinking', harguments', hstarts'⟩ := h'
  refine ⟨?_, ?_, ?_, ?_⟩
  · unfold textOf at htext htext' ⊢
    rw [joined_append, htext, htext']
    rfl
  · unfold thinkingOf at hthinking hthinking' ⊢
    rw [joined_append, hthinking, hthinking']
    rfl
  · intro i
    have happ : argumentsOf i (evs ++ evs') = argumentsOf i evs ++ argumentsOf i evs' := joined_append _ _ _
    rw [happ, harguments, harguments']
    rfl
  · rw [List.filterMap_append, hstarts, hstarts']
    rfl

/-! ## Parts -/

section

variable {text thinking : String} {calls : List (String × String)}

/-- A thought, with the gate open. -/
theorem folded_thought (part : Json) (h : Folded text thinking calls evs s) (hshut : s.textBlockOpen = false)
    (htools : s.openTools = []) :
    Folded text (thinking ++ textOrEmpty part) calls (evs ++ (readThought part s).1) (readThought part s).2 ∧
      (readThought part s).2.textBlockOpen = false := by
  obtain ⟨hopen', hindex', htools', -⟩ := openThinking_frame s
  rcases readThought_cases part s with ⟨heq, hwhy⟩ | ⟨t, ht, -, -, heq⟩
  · have hnone : textOrEmpty part = "" := by
      rcases hwhy with hnone | hopen | hopen
      · unfold partText at hnone
        unfold textOrEmpty
        cases ht : part.getStr "text" with
        | none => rfl
        | some t =>
          rw [ht] at hnone
          simpa using hnone
      · rw [hshut] at hopen
        cases hopen
      · exact absurd htools hopen
    rw [heq, hnone, String.append_empty]
    exact ⟨by simpa using h, hshut⟩
  · have htext : textOrEmpty part = t := by
      unfold partText at ht
      unfold textOrEmpty
      rw [(Option.filter_eq_some_iff.1 ht).1]
      rfl
    obtain ⟨sigs, hsigs⟩ : ∃ sigs, sigs = ((part.getStr "thoughtSignature").map
      (fun sig => IrStreamEvent.blockDelta 0 (.signature sig))).toList := ⟨_, rfl⟩
    have hidle : Idle sigs := by
      rw [hsigs]
      cases part.getStr "thoughtSignature" with
      | none => exact ⟨rfl, rfl, fun _ => rfl, rfl⟩
      | some sig => exact ⟨rfl, rfl, fun _ => rfl, rfl⟩
    rw [← hsigs] at heq
    have hevs : (readThought part s).1 = (Section.openThinking s).1 ++ (.blockDelta 0 (.thinking t) :: sigs) := by
      rw [heq]
      rfl
    have hstate : (readThought part s).2 = (Section.openThinking s).2 := by
      rw [heq]
      rfl
    have hcoupled : Coupled (Section.openThinking s).2 := by
      unfold Coupled
      rw [hopen', hindex']
      exact h.coupled
    have hopened : Folded text thinking calls (evs ++ (Section.openThinking s).1) (Section.openThinking s).2 :=
      h.idle ⟨(mute_openThinking onDeltas_textDelta).joined, (mute_openThinking onDeltas_thinkingDelta).joined,
        fun i => (mute_openThinking (onDeltas_argumentsDelta i)).joined, starts_openThinking⟩ htools' hcoupled
        (le_of_eq nextIrIndex_openThinking.symm)
    obtain ⟨htext₀, hthinking₀, harguments₀, hstarts₀⟩ := hidle
    have hdelta : Folded (text ++ textOf (.blockDelta 0 (.thinking t) :: sigs))
        (thinking ++ thinkingOf (.blockDelta 0 (.thinking t) :: sigs)) calls
        (evs ++ (Section.openThinking s).1 ++ (.blockDelta 0 (.thinking t) :: sigs)) (Section.openThinking s).2 :=
      hopened.deltas harguments₀ hstarts₀ rfl hcoupled le_rfl
    have htext₁ : textOf (.blockDelta 0 (.thinking t) :: sigs) = "" := htext₀
    have hthinking₁ : thinkingOf (.blockDelta 0 (.thinking t) :: sigs) = t := by
      have hone : joined thinkingDelta [.blockDelta 0 (.thinking t)] = t := by simp [joined, thinkingDelta]
      have hcons := joined_append thinkingDelta [.blockDelta 0 (.thinking t)] sigs
      have hrest : joined thinkingDelta sigs = "" := hthinking₀
      rw [hone, hrest, String.append_empty] at hcons
      exact hcons
    rw [htext₁, hthinking₁, List.append_assoc, ← hevs] at hdelta
    rw [hstate, htext]
    exact ⟨by simpa using hdelta, hopen'.trans hshut⟩

theorem folded_text (part : Json) (h : Folded text thinking calls evs s) :
    Folded (text ++ textOrEmpty part) thinking calls (evs ++ (readText part s).1) (readText part s).2 ∧
      ((readText part s).2.textBlockOpen = true → s.textBlockOpen = true ∨ textOrEmpty part ≠ "") ∧
      (readText part s).2.openTools = s.openTools := by
  cases ht : partText part with
  | none =>
    have hnone : textOrEmpty part = "" := by
      unfold partText at ht
      unfold textOrEmpty
      cases htext : part.getStr "text" with
      | none => rfl
      | some t =>
        rw [htext] at ht
        simpa using ht
    have heq : readText part s = ([], s) := by
      unfold readText
      rw [ht]
    rw [heq, hnone, String.append_empty]
    exact ⟨by simpa using h, Or.inl, rfl⟩
  | some t =>
    obtain ⟨hget, hne⟩ := Option.filter_eq_some_iff.1 ht
    have htext : textOrEmpty part = t := by
      unfold textOrEmpty
      rw [hget]
      rfl
    obtain ⟨-, htools, -⟩ := onOpenText_frame (.text t) s
    have harguments : ∀ i, argumentsOf i (Section.onOpenText (.text t) s).1 = "" := by
      intro i
      obtain ⟨j, hj⟩ := joined_onOpenText (s := s) (onDeltas_argumentsDelta i) (.text t)
      exact hj
    have hthinking : thinkingOf (Section.onOpenText (.text t) s).1 = "" := by
      obtain ⟨j, hj⟩ := joined_onOpenText (s := s) onDeltas_thinkingDelta (.text t)
      exact hj
    have htextOf : textOf (Section.onOpenText (.text t) s).1 = t := by
      obtain ⟨j, hj⟩ := joined_onOpenText (s := s) onDeltas_textDelta (.text t)
      exact hj
    have hall := h.deltas harguments (starts_onOpenText (.text t)) htools (onOpenText_coupled (.text t) h.coupled)
      (onOpenText_nextIrIndex (.text t) s)
    rw [htextOf, hthinking, String.append_empty] at hall
    rw [readText_some h.coupled ht, htext]
    exact ⟨hall, fun _ => Or.inr (by simpa using hne), htools⟩

theorem arguments_call (i j : Nat) (id name args : String) :
    joined (argumentsDelta j) [.blockStart i (.toolUse id name), .blockDelta i (.inputJson args)] =
      if i = j then args else "" := by
  have hstart : argumentsDelta j (.blockStart i (.toolUse id name)) = none := rfl
  have hdelta : argumentsDelta j (.blockDelta i (.inputJson args)) = if i = j then some args else none := rfl
  unfold joined
  rw [List.filterMap_cons_none hstart]
  by_cases hij : i = j
  · rw [if_pos hij] at hdelta ⊢
    rw [List.filterMap_cons_some hdelta]
    simp
  · rw [if_neg hij] at hdelta ⊢
    rw [List.filterMap_cons_none hdelta]
    rfl

/-- A call brings its start and its arguments. -/
theorem callsOf_append_call {i : Nat} {id name args : String} (hbelow : ∀ start ∈ evs.filterMap toolStart, start.1 < i)
    (hahead : argumentsOf i evs = "") :
    callsOf (evs ++ [.blockStart i (.toolUse id name), .blockDelta i (.inputJson args)]) = callsOf evs ++ [(name, args)] := by
  have harguments : ∀ j, argumentsOf j (evs ++ [.blockStart i (.toolUse id name), .blockDelta i (.inputJson args)]) =
      argumentsOf j evs ++ if i = j then args else "" := by
    intro j
    have happ := joined_append (argumentsDelta j) evs [.blockStart i (.toolUse id name), .blockDelta i (.inputJson args)]
    rw [arguments_call] at happ
    exact happ
  have hstarts : [IrStreamEvent.blockStart i (.toolUse id name), .blockDelta i (.inputJson args)].filterMap toolStart =
      [(i, name)] := rfl
  unfold callsOf
  rw [List.filterMap_append, hstarts, List.map_append]
  refine congrArg₂ (· ++ ·) (List.map_congr_left (fun start hmem => ?_)) ?_
  · have hlt := hbelow start hmem
    dsimp only
    rw [harguments, if_neg (by omega), String.append_empty]
  · simp only [List.map_cons, List.map_nil]
    rw [harguments, if_pos rfl, hahead]
    simp

theorem folded_call (lib : GeminiLib) (data : Json) (h : Folded text thinking calls evs s) (hroom : calls.length < maxGeminiToolFrames)
    (hname : ∀ funcCall ∈ part.get fieldFunctionCall, callName funcCall ≠ "") :
    Folded text thinking (calls ++ (callOf lib part).toList) (evs ++ (readCall lib data part s).1)
      (readCall lib data part s).2 ∧ (readCall lib data part s).2.textBlockOpen = s.textBlockOpen := by
  rcases readCall_cases lib data part s with ⟨heq, hwhy⟩ | ⟨funcCall, hcall, -, -, heq⟩
  · have hnone : callOf lib part = none := by
      unfold callOf
      rcases hwhy with hnone | ⟨funcCall, hcall, hempty | hfull⟩
      · rw [hnone]
        rfl
      · exact absurd hempty (hname funcCall hcall)
      · rw [h.opened] at hfull
        omega
    rw [heq, hnone]
    exact ⟨by simpa using h, rfl⟩
  · obtain ⟨args, hargs⟩ : ∃ args, args = lib.toString (emptyObjectIfAbsent (funcCall.get "args")) := ⟨_, rfl⟩
    have hsome : callOf lib part = some (callName funcCall, args) := by
      unfold callOf
      rw [hcall, hargs]
      rfl
    have hclosed : Folded text thinking calls (evs ++ (Section.closeThinking s).1) (Section.closeThinking s).2 :=
      h.idle idle_closeThinking (by rw [closeThinking_state]) h.coupled.closeThinking (le_of_eq nextIrIndex_closeThinking.symm)
    obtain ⟨s', hs'⟩ : ∃ s', s' = (Section.closeThinking s).2 := ⟨_, rfl⟩
    have hstate : s' = { s with thinkingBlockOpen := false } := by rw [hs', closeThinking_state]
    rw [← hs'] at hclosed
    obtain ⟨i, hi⟩ : ∃ i, i = s'.claimIrIndex.1 := ⟨_, rfl⟩
    have hsame : s.claimIrIndex.1 = i := by
      rw [hi, hstate]
      rfl
    have hle : s'.nextIrIndex ≤ i := by
      rw [hi]
      exact le_max_left _ _
    obtain ⟨evs₁, hevs₁⟩ : ∃ evs₁, evs₁ = evs ++ (Section.closeThinking s).1 := ⟨_, rfl⟩
    rw [← hevs₁] at hclosed
    obtain ⟨id, hid⟩ : ∃ id, (openCall lib data funcCall s').1 = [.blockStart i (.toolUse id (callName funcCall))] :=
      ⟨_, by rw [hi]; rfl⟩
    have hevs : evs ++ (readCall lib data part s).1 =
        evs₁ ++ [.blockStart i (.toolUse id (callName funcCall)), .blockDelta i (.inputJson args)] := by
      rw [heq, hevs₁, hsame, ← hargs, List.append_assoc]
      unfold Section.next Section.emit
      dsimp only
      rw [← hs', hid]
      rfl
    have hend : (readCall lib data part s).2 = (openCall lib data funcCall s').2 := by
      rw [heq, hs']
      rfl
    have htools : (readCall lib data part s).2.openTools = Translator.insertSorted i s'.openTools := by
      rw [hend, hi]
      rfl
    have hnext : (readCall lib data part s).2.nextIrIndex = i + 1 := by
      rw [hend, hi]
      rfl
    have hnew : i ∉ s'.openTools := by
      intro hmem
      have hlt := hclosed.held i hmem
      omega
    have hidle : ∀ pick, OnDeltas pick → (∀ j t, pick (.blockDelta j (.inputJson t)) = none) →
        joined pick (evs₁ ++ [.blockStart i (.toolUse id (callName funcCall)), .blockDelta i (.inputJson args)]) =
          joined pick evs₁ := by
      intro pick hp hjson
      have hstart : pick (.blockStart i (.toolUse id (callName funcCall))) = none := hp _ nofun
      rw [joined_append]
      unfold joined
      simp [hstart, hjson]
    rw [hevs, hsome]
    refine ⟨⟨?_, ?_, ?_, ?_, ?_, ?_, ?_, ?_⟩, ?_⟩
    · rw [← hclosed.text_eq]
      exact hidle textDelta onDeltas_textDelta (fun _ _ => rfl)
    · rw [← hclosed.thinking_eq]
      exact hidle thinkingDelta onDeltas_thinkingDelta (fun _ _ => rfl)
    · rw [callsOf_append_call, hclosed.calls_eq]
      · rfl
      · intro start hmem
        have hlt := hclosed.below start hmem
        omega
      · exact hclosed.ahead i hle
    · rw [htools, (Translator.perm_insertSorted hnew).length_eq, List.length_cons, hclosed.opened]
      simp
    · intro j hj
      rw [htools, Translator.mem_insertSorted] at hj
      rw [hnext]
      rcases hj with rfl | hj
      · omega
      · have hlt := hclosed.held j hj
        omega
    · rw [hend]
      exact hclosed.coupled
    · intro start hmem
      rw [List.filterMap_append] at hmem
      rw [hnext]
      rcases List.mem_append.1 hmem with hold | hnew
      · have hlt := hclosed.below start hold
        omega
      · have hstart : start = (i, callName funcCall) := List.mem_singleton.1 hnew
        rw [hstart]
        exact Nat.lt_succ_self i
    · intro j hj
      rw [hnext] at hj
      have happ := joined_append (argumentsDelta j) evs₁
        [.blockStart i (.toolUse id (callName funcCall)), .blockDelta i (.inputJson args)]
      have hold : joined (argumentsDelta j) evs₁ = "" := hclosed.ahead j (by omega)
      rw [hold, arguments_call, if_neg (by omega)] at happ
      exact happ
    · rw [hend]
      have htext : (openCall lib data funcCall s').2.textBlockOpen = s'.textBlockOpen := rfl
      rw [htext, hstate]

/-- **One piece.** A thought is heard while the text block is shut, and then finds no tool open; a call finds room. -/
theorem folded_part (lib : GeminiLib) (data : Json) (h : Folded text thinking calls evs s)
    (hthought : isThought part = true → s.textBlockOpen = false → s.openTools = [])
    (hroom : calls.length < maxGeminiToolFrames) (hname : ∀ funcCall ∈ part.get fieldFunctionCall, callName funcCall ≠ "") :
    Folded (text ++ plainText part) (thinking ++ if s.textBlockOpen then "" else thoughtText part)
        (calls ++ (plainCall lib part).toList) (evs ++ (readPart lib data part s).1) (readPart lib data part s).2 ∧
      (s.textBlockOpen = true → (readPart lib data part s).2.textBlockOpen = true) ∧
      ((readPart lib data part s).2.textBlockOpen = true → s.textBlockOpen = true ∨ plainText part ≠ "") := by
  unfold readPart plainText thoughtText plainCall
  by_cases ht : isThought part = true
  · simp only [if_pos ht]
    by_cases hopen : s.textBlockOpen = true
    · -- the thought is passed over
      have heq : readThought part s = ([], s) := by
        rcases readThought_cases part s with ⟨heq, -⟩ | ⟨t, -, hshut, -, -⟩
        · exact heq
        · rw [hopen] at hshut
          cases hshut
      rw [heq, if_pos hopen]
      exact ⟨by simpa using h, fun _ => hopen, fun _ => Or.inl hopen⟩
    · have hshut : s.textBlockOpen = false := by simpa using hopen
      obtain ⟨hfold, hstill⟩ := folded_thought part h hshut (hthought ht hshut)
      rw [hstill, if_neg hopen]
      exact ⟨by simpa using hfold, fun h' => absurd h' hopen, nofun⟩
  · obtain ⟨hfold, htext, -⟩ := folded_text part h
    obtain ⟨hfold', htext'⟩ := folded_call lib data hfold hroom hname
    have hstay : s.textBlockOpen = true → (readText part s).2.textBlockOpen = true := by
      intro hopen
      cases hp : partText part with
      | none =>
        unfold readText
        rw [hp]
        exact hopen
      | some t =>
        rw [readText_some h.coupled hp]
        exact (onOpenText_frame (.text t) s).1
    simp only [if_neg ht]
    have hall : Folded (text ++ textOrEmpty part) (thinking ++ if s.textBlockOpen then "" else "")
        (calls ++ (callOf lib part).toList) (evs ++ (((readText part).next (readCall lib data part)) s).1)
        (((readText part).next (readCall lib data part)) s).2 := by
      rw [List.append_assoc] at hfold'
      have hnothing : (if s.textBlockOpen then "" else "") = "" := by split <;> rfl
      rw [hnothing, String.append_empty]
      exact hfold'
    refine ⟨hall, fun hopen => htext'.trans (hstay hopen), fun hopen => ?_⟩
    exact htext (htext'.symm.trans hopen)

/-- Whether the candidate has opened the text block on its own account, as citations and log probabilities do. -/
def Marked (marked : Bool) (text : String) (s : StreamDecodeState) : Prop :=
  if marked then s.textBlockOpen = true else s.textBlockOpen = true → text ≠ ""

/-- **Pieces one after the other**, thoughts first. -/
theorem folded_pieces (lib : GeminiLib) (data : Json) (marked : Bool) (pieces : List Json) {before : List Json} (hfirst : ThoughtsFirst (before ++ pieces))
    (h : Folded (String.join (before.map plainText)) thinking (before.filterMap (plainCall lib)) evs s)
    (hmarked : Marked marked (String.join (before.map plainText)) s)
    (hroom : ((before ++ pieces).filterMap (plainCall lib)).length < maxGeminiToolFrames)
    (hname : ∀ p ∈ pieces, ∀ funcCall ∈ p.get fieldFunctionCall, callName funcCall ≠ "") :
    Folded (String.join ((before ++ pieces).map plainText))
        (thinking ++ String.join ((if marked then [] else pieces).map thoughtText))
        ((before ++ pieces).filterMap (plainCall lib)) (evs ++ (Section.each (readPart lib data) pieces s).1)
        (Section.each (readPart lib data) pieces s).2 ∧
      Marked marked (String.join ((before ++ pieces).map plainText)) (Section.each (readPart lib data) pieces s).2 := by
  induction pieces generalizing before evs s thinking with
  | nil =>
    have hnothing : (if marked then [] else ([] : List Json)) = [] := by split <;> rfl
    rw [List.append_nil, hnothing]
    exact ⟨by simpa [Section.each, Section.skip] using h, hmarked⟩
  | cons p ps ih =>
    -- a thought comes first, so nothing but thoughts has been before it
    have hquiet : isThought p = true → String.join (before.map plainText) = "" ∧ before.filterMap (plainCall lib) = [] := by
      intro hp
      have hall : ∀ q ∈ before, isThought q = true := fun q hq =>
        (List.pairwise_append.1 hfirst).2.2 q hq p List.mem_cons_self hp
      refine ⟨Splits.join_map_const (fun q hq => ?_), List.filterMap_eq_nil_iff.2 (fun q hq => ?_)⟩
      · unfold plainText
        rw [if_pos (hall q hq)]
      · unfold plainCall
        rw [if_pos (hall q hq)]
    have hgate : isThought p = true → s.textBlockOpen = false → s.openTools = [] := by
      intro hp _
      have hlen := h.opened
      rw [(hquiet hp).2] at hlen
      exact List.eq_nil_of_length_eq_zero hlen
    have hlen : (before.filterMap (plainCall lib)).length < maxGeminiToolFrames := by
      rw [List.filterMap_append, List.length_append] at hroom
      omega
    obtain ⟨hfold, hstay, hopened⟩ := folded_part lib data h hgate hlen (hname p List.mem_cons_self)
    have hheard : (if s.textBlockOpen then "" else thoughtText p) = if marked then "" else thoughtText p := by
      unfold Marked at hmarked
      by_cases hm : marked = true
      · rw [if_pos hm] at hmarked
        rw [if_pos hmarked, if_pos hm]
      · rw [if_neg hm] at hmarked
        rw [if_neg hm]
        by_cases ht : isThought p = true
        · rw [if_neg (fun hopen => hmarked hopen (hquiet ht).1)]
        · have hnone : thoughtText p = "" := by
            unfold thoughtText
            rw [if_neg ht]
          rw [hnone]
          split <;> rfl
    have hcalls : before.filterMap (plainCall lib) ++ (plainCall lib p).toList = (before ++ [p]).filterMap (plainCall lib) := by
      rw [List.filterMap_append]
      cases hp : plainCall lib p <;> simp [hp]
    have htext : String.join (before.map plainText) ++ plainText p = String.join ((before ++ [p]).map plainText) := by
      rw [List.map_append, String.join_append]
      simp
    have hmarked' : Marked marked (String.join ((before ++ [p]).map plainText)) (readPart lib data p s).2 := by
      unfold Marked at hmarked ⊢
      by_cases hm : marked = true
      · rw [if_pos hm] at hmarked ⊢
        exact hstay hmarked
      · rw [if_neg hm] at hmarked ⊢
        intro hopen he
        rw [← htext, String.append_eq_empty_iff] at he
        rcases hopened hopen with hold | hnew
        · exact hmarked hold he.1
        · exact hnew he.2
    rw [hcalls, htext, hheard] at hfold
    have hsplit : before ++ p :: ps = (before ++ [p]) ++ ps := by simp
    rw [hsplit] at hfirst hroom ⊢
    obtain ⟨hfold', hmarked''⟩ := ih hfirst hfold hmarked' hroom (fun q hq => hname q (List.mem_cons_of_mem _ hq))
    have hthinking : thinking ++ (if marked then "" else thoughtText p) ++
        String.join ((if marked then [] else ps).map thoughtText) =
        thinking ++ String.join ((if marked then [] else p :: ps).map thoughtText) := by
      by_cases hm : marked = true <;> simp [hm, String.append_assoc]
    rw [hthinking, List.append_assoc evs] at hfold'
    exact ⟨hfold', hmarked''⟩

end

end Busbar.Gemini
