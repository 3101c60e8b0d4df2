import Busbar.Proto.Blocks
import Busbar.Proto.Cohere

/-!
# The blocks of a Cohere stream

The text block is opened once and closed for good, and indices are never handed out twice. A tool call stays tracked behind
its end, so whether its block is still open is up to the frames: the reader stops it at every end, hands every delta on,
and does not close it with the message.

* `Calls`: the tool calls of a stream as its frames tell, and `Calls.InTurn`: a frame that comes in turn.
* `Watched`: calls, decode state and blocks agree.
* `frame_inTurn`, `frame_outOfTurn`: one frame.
* `balanced_iff`: the blocks of a stream are in balance exactly when every frame comes in turn.
-/

namespace Busbar.Cohere

open Slots

/-- The tool calls that have been started, as far as they are tracked, and those that have been ended. -/
structure Calls where
  started : List Nat
  ended : List Nat

namespace Calls

def start : Calls := ⟨[], []⟩

def after (c : Calls) (data : Json) : Calls :=
  match kindOf data with
  | .toolCallStart =>
    if clampFrameIndex data ∈ c.started ∨ maxTrackedToolFrames ≤ c.started.length then c
    else { c with started := clampFrameIndex data :: c.started }
  | .toolCallEnd =>
    if clampFrameIndex data ∈ c.started then { c with ended := clampFrameIndex data :: c.ended } else c
  | _ => c

/-- **A frame in turn**: arguments and ends of a call come before its end, and the message ends behind all of them. -/
def InTurn (c : Calls) (data : Json) : Prop :=
  match kindOf data with
  | .toolCallDelta => (toolArguments data).isSome = true → clampFrameIndex data ∈ c.started → clampFrameIndex data ∉ c.ended
  | .toolCallEnd => clampFrameIndex data ∈ c.started → clampFrameIndex data ∉ c.ended
  | .messageEnd => ∀ f ∈ c.started, f ∈ c.ended
  | _ => True

end Calls

/-- Every frame of a stream comes in turn. -/
def InTurn : Calls → List Json → Prop
  | _, [] => True
  | c, data :: frames => c.InTurn data ∧ InTurn (c.after data) frames

/-- What the text block adds to the number of indices. -/
def textShare (s : DecodeState) : Nat := if s.textIndex.isSome then 1 else 0

/-- **Calls, decode state and blocks agree.** -/
structure Watched (c : Calls) (s : DecodeState) (m : Monitor Nat) : Prop where
  nodup : c.started.Nodup
  ended : ∀ f ∈ c.ended, f ∈ c.started
  small : ∀ f ∈ c.started, f < textBlockSeenSentinel
  sorted : s.openTools.Pairwise (· < ·)
  opened : ∀ f, f ∈ s.openTools ↔ f ∈ c.started ∨ f = textBlockSeenSentinel ∧ s.textIndex.isSome = true
  filed : ∀ f, (s.toolIrIndex.lookup f).isSome = true ↔ f ∈ c.started
  apart : ∀ f g i, s.toolIrIndex.lookup f = some i → s.toolIrIndex.lookup g = some i → f = g
  offText : ∀ f i, s.toolIrIndex.lookup f = some i → s.textIndex ≠ some i
  text : s.textBlockOpen = (s.textIndex.isSome && !s.textBlockClosed)
  bound : ∀ k ∈ m.spent, k < c.started.length + textShare s
  spent : ∀ i, s.textIndex = some i ∨ (∃ f, s.toolIrIndex.lookup f = some i) → i ∈ m.spent
  solo : ∀ k ∈ m.solo, s.textIndex = some k
  live : ∀ k, k ∈ m.live ↔
    (s.textBlockOpen = true ∧ s.textIndex = some k) ∨ ∃ f, f ∉ c.ended ∧ s.toolIrIndex.lookup f = some k

theorem Watched.default : Watched .start .default Monitor.start := by
  refine ⟨List.nodup_nil, nofun, nofun, List.Pairwise.nil, ?_, ?_, nofun, nofun, rfl, nofun, ?_, nofun, ?_⟩
  · intro f
    simp [DecodeState.default, StreamDecodeState.default, Calls.start]
  · intro f
    simp [DecodeState.default, StreamDecodeState.default, Calls.start, Table.lookup]
  · rintro i (h | ⟨f, h⟩) <;> cases h
  · intro k
    simp [DecodeState.default, StreamDecodeState.default, Monitor.start, Table.lookup]

variable {c : Calls} {s : DecodeState} {m : Monitor Nat} {data : Json}

/-- The set of open tools holds the calls tracked, and the sentinel when there is text. -/
theorem Watched.counts (h : Watched c s m) :
    s.openTools.contains textBlockSeenSentinel = s.textIndex.isSome ∧ cohereTrackedToolCount s = c.started.length := by
  have hsentinel : textBlockSeenSentinel ∉ c.started := fun hmem => lt_irrefl _ (h.small _ hmem)
  have hnodup : s.openTools.Nodup := h.sorted.imp (fun hlt => Nat.ne_of_lt hlt)
  have hcontains : s.openTools.contains textBlockSeenSentinel = s.textIndex.isSome := by
    rw [Bool.eq_iff_iff, List.contains_iff_mem, h.opened]
    simp [hsentinel]
  refine ⟨hcontains, ?_⟩
  unfold cohereTrackedToolCount
  rw [hcontains]
  cases hi : s.textIndex.isSome with
  | false =>
    have hperm : s.openTools.Perm c.started := by
      refine (List.perm_ext_iff_of_nodup hnodup h.nodup).2 (fun f => ?_)
      rw [h.opened, hi]
      simp
    simpa using hperm.length_eq
  | true =>
    have hperm : s.openTools.Perm (textBlockSeenSentinel :: c.started) := by
      refine (List.perm_ext_iff_of_nodup hnodup (List.nodup_cons.2 ⟨hsentinel, h.nodup⟩)).2 (fun f => ?_)
      rw [h.opened, hi, List.mem_cons]
      tauto
    have hlen := hperm.length_eq
    rw [List.length_cons] at hlen
    simp [hlen]

/-- Any number of uses of an open block. -/
theorem run_uses {i : Nat} (h : i ∈ m.live) {α : Type} (as : List α) : m.run (as.map fun _ => .use i) = some m := by
  induction as with
  | nil => rfl
  | cons a as ih => exact Monitor.run_cons.2 ⟨h, ih⟩

/-! ## The text block -/

/-- **The text block is closed for good.** -/
theorem watched_closeText (h : Watched c s m) : ∃ m', m.run (acts (closeText s).1) = some m' ∧
    Watched c (closeText s).2 m' ∧ (closeText s).2.textBlockOpen = false := by
  unfold closeText
  by_cases hopen : s.textBlockOpen = true
  · have htext := h.text
    rw [hopen] at htext
    obtain ⟨hsome, -⟩ := (Bool.and_eq_true_iff).1 htext.symm
    obtain ⟨i, hi⟩ := Option.isSome_iff_exists.1 hsome
    have hlive : i ∈ m.live := (h.live i).2 (Or.inl ⟨hopen, hi⟩)
    have hstop : s.textIndex.getD 0 = i := by rw [hi]; rfl
    rw [if_pos hopen, hstop]
    refine ⟨m.after (.drop i), Monitor.run_cons.2 ⟨hlive, rfl⟩, ?_, rfl⟩
    refine ⟨h.nodup, h.ended, h.small, h.sorted, h.opened, h.filed, h.apart, h.offText, ?_, h.bound, h.spent, ?_, ?_⟩
    · simp
    · intro k hk
      exact h.solo k (Finset.mem_of_mem_erase hk)
    · intro k
      simp only [Monitor.after, Finset.mem_erase, h.live k, hopen, hi, Option.some.injEq, true_and,
        Bool.false_eq_true, false_and, false_or]
      constructor
      · rintro ⟨hne, rfl | htool⟩
        · exact absurd rfl hne
        · exact htool
      · rintro ⟨f, hf, hk⟩
        refine ⟨?_, Or.inr ⟨f, hf, hk⟩⟩
        rintro rfl
        exact h.offText f k hk hi
  · have hshut : s.textBlockOpen = false := by simpa using hopen
    rw [if_neg hopen]
    exact ⟨m, rfl, h, hshut⟩

/-- The sentinel joins the open tools when the text gets its index. -/
theorem opened_text (h : Watched c s m) (f : Nat) :
    f ∈ Translator.insertSorted textBlockSeenSentinel s.openTools ↔ f ∈ c.started ∨ f = textBlockSeenSentinel := by
  rw [Translator.mem_insertSorted, h.opened]
  tauto

/-- **Texts go to the text block**, which takes the next index if it has none. -/
theorem watched_onText (texts : List String) (h : Watched c s m) :
    ∃ m', m.run (acts (onText texts s).1) = some m' ∧ Watched c (onText texts s).2 m' := by
  unfold onText
  by_cases hclosed : s.textBlockClosed = true
  · rw [if_pos hclosed]
    exact ⟨m, rfl, h⟩
  rw [if_neg hclosed]
  have hclosed : s.textBlockClosed = false := by simpa using hclosed
  have htext := h.text
  rw [hclosed] at htext
  have hacts : ∀ ti, acts (texts.map fun text => IrStreamEvent.blockDelta ti (.text text)) =
      texts.map fun _ => Act.use ti := by
    intro ti
    unfold acts
    rw [List.map_map]
    rfl
  cases hi : s.textIndex with
  | some ti =>
    have hopen : s.textBlockOpen = true := by
      rw [htext, hi]
      rfl
    have hlive : ti ∈ m.live := (h.live ti).2 (Or.inl ⟨hopen, hi⟩)
    simp only [cohereTextIrIndex, hi, Option.getD_some, openText, hopen, if_true, List.nil_append]
    refine ⟨m, ?_, ?_⟩
    · rw [hacts]
      exact run_uses hlive texts
    · refine ⟨h.nodup, h.ended, h.small, Translator.sorted_insertSorted h.sorted, ?_, h.filed, h.apart, ?_, ?_, ?_, ?_, ?_, ?_⟩
      · intro f
        simpa using opened_text h f
      · intro f i hf
        exact hi ▸ h.offText f i hf
      · simp [hclosed]
      · intro k hk
        have hb := h.bound k hk
        unfold textShare at hb ⊢
        rw [hi] at hb
        exact hb
      · intro i hor
        exact h.spent i (hi.symm ▸ hor)
      · intro k hk
        exact hi ▸ h.solo k hk
      · intro k
        simpa [hopen, hi] using h.live k
  | none =>
    have hshut : s.textBlockOpen = false := by
      rw [htext, hi]
      rfl
    have hti : cohereTrackedToolCount s = c.started.length := h.counts.2
    have hshare : textShare s = 0 := by
      unfold textShare
      rw [hi]
      rfl
    have hfree : c.started.length ∉ m.spent := by
      intro hk
      have hb := h.bound _ hk
      omega
    have hsolo : m.solo = ∅ := by
      refine Finset.eq_empty_of_forall_notMem (fun k hk => ?_)
      have hk := h.solo k hk
      rw [hi] at hk
      cases hk
    simp only [cohereTextIrIndex, hi, Option.getD_none, openText, hshut, Bool.false_eq_true, if_false, hti]
    obtain ⟨ti, hlen⟩ : ∃ ti, ti = c.started.length := ⟨_, rfl⟩
    rw [← hlen] at hfree ⊢
    refine ⟨m.after (.take ti true), ?_, ?_⟩
    · rw [acts_append, hacts]
      refine Monitor.run_append.2 ⟨_, Monitor.run_cons.2 ⟨⟨hfree, fun _ => hsolo⟩, rfl⟩, ?_⟩
      exact run_uses (Finset.mem_insert_self ti m.live) texts
    · refine ⟨h.nodup, h.ended, h.small, Translator.sorted_insertSorted h.sorted, ?_, h.filed, h.apart, ?_, ?_, ?_, ?_, ?_, ?_⟩
      · intro f
        simpa using opened_text h f
      · rintro f i hf he
        cases he
        exact hfree (h.spent ti (Or.inr ⟨f, hf⟩))
      · simp [hclosed]
      · intro k hk
        unfold textShare
        rcases Finset.mem_insert.1 hk with rfl | hk
        · simp [hlen]
        · have hb := h.bound k hk
          simp only [Option.isSome_some, if_true]
          omega
      · rintro i (he | hf)
        · cases he
          exact Finset.mem_insert_self ti m.spent
        · exact Finset.mem_insert_of_mem (h.spent i (Or.inr hf))
      · intro k hk
        simp only [Monitor.after, if_true, hsolo, Finset.mem_insert, Finset.notMem_empty, or_false] at hk
        rw [hk]
      · intro k
        simp only [Monitor.after, Finset.mem_insert, h.live k, hshut, Bool.false_eq_true, false_and, false_or, true_and,
          Option.some.injEq, eq_comm]

theorem watched_readContentStart (h : Watched c s m) :
    ∃ m', m.run (acts (readContentStart s).1) = some m' ∧ Watched c (readContentStart s).2 m' := by
  by_cases hopen : s.textBlockOpen = true
  · have hskip : readContentStart s = ([], s) := by
      unfold readContentStart
      simp [hopen]
    rw [hskip]
    exact ⟨m, rfl, h⟩
  · have htext : readContentStart s = onText [] s := by
      unfold readContentStart onText
      simp [hopen]
    rw [htext]
    exact watched_onText [] h

/-! ## Tool calls -/

/-- What the start of a call does behind the text. -/
theorem assign_cases (h : Watched c s m) (f : Nat) :
    ((f ∈ c.started ∨ maxTrackedToolFrames ≤ c.started.length) ∧ cohereAssignToolIrIndex s f = (none, s)) ∨
      ¬ (f ∈ c.started ∨ maxTrackedToolFrames ≤ c.started.length) ∧
        cohereAssignToolIrIndex s f = (some (c.started.length + textShare s),
          { s with
            openTools := Translator.insertSorted f s.openTools
            toolIrIndex := s.toolIrIndex.insert f (c.started.length + textShare s) }) := by
  obtain ⟨hsentinel, hcount⟩ := h.counts
  have hfiled := h.filed f
  unfold cohereAssignToolIrIndex cohereLookupToolIrIndex
  rw [hcount, hsentinel]
  by_cases hf : f ∈ c.started
  · rw [if_pos (hfiled.2 hf)]
    exact Or.inl ⟨Or.inl hf, rfl⟩
  · rw [if_neg (fun hs => hf (hfiled.1 hs))]
    by_cases hfull : maxTrackedToolFrames ≤ c.started.length
    · exact Or.inl ⟨Or.inr hfull, by simp [hfull]⟩
    · refine Or.inr ⟨not_or.2 ⟨hf, hfull⟩, ?_⟩
      simp only [ge_iff_le, hfull, if_false]
      rw [Nat.add_comm]
      rfl

theorem clampFrameIndex_lt (data : Json) : clampFrameIndex data < textBlockSeenSentinel := by
  have hle : clampFrameIndex data ≤ maxToolFrameIndex := Nat.min_le_right _ _
  have hlt : maxToolFrameIndex < textBlockSeenSentinel := by decide
  omega

/-- A call is tracked and its block opens at the next index. -/
theorem watched_track (h : Watched c s m) {f : Nat} (hf : f ∉ c.started) (hsmall : f < textBlockSeenSentinel) :
    let i := c.started.length + textShare s
    m.allows (.take i false) ∧
      Watched { c with started := f :: c.started }
        { s with openTools := Translator.insertSorted f s.openTools, toolIrIndex := s.toolIrIndex.insert f i }
        (m.after (.take i false)) := by
  intro i
  have hfree : i ∉ m.spent := fun hk => Nat.lt_irrefl _ (h.bound i hk)
  have hunfiled : s.toolIrIndex.lookup f = none := by
    by_contra hne
    exact hf ((h.filed f).1 (Option.isSome_iff_ne_none.2 hne))
  have hother : ∀ g j, s.toolIrIndex.lookup g = some j → j ≠ i := by
    rintro g j hg rfl
    exact hfree (h.spent i (Or.inr ⟨g, hg⟩))
  -- the new call has the new index, every other one the index it had
  have hlook : ∀ g j, (s.toolIrIndex.insert f i).lookup g = some j ↔
      (g = f ∧ j = i) ∨ s.toolIrIndex.lookup g = some j := by
    intro g j
    rw [Table.lookup_insert]
    by_cases hg : f = g
    · subst hg
      simp [hunfiled, eq_comm]
    · simp [hg, Ne.symm hg]
  have htext : ∀ j, s.textIndex = some j → j ≠ i := by
    rintro j hj rfl
    exact hfree (h.spent i (Or.inl hj))
  refine ⟨⟨hfree, fun h => by cases h⟩, ?_⟩
  refine ⟨?_, ?_, ?_, Translator.sorted_insertSorted h.sorted, ?_, ?_, ?_, ?_, h.text, ?_, ?_, h.solo, ?_⟩
  · exact List.nodup_cons.2 ⟨hf, h.nodup⟩
  · exact fun g hg => List.mem_cons_of_mem f (h.ended g hg)
  · intro g hg
    rcases List.mem_cons.1 hg with rfl | hg
    · exact hsmall
    · exact h.small g hg
  · intro g
    simp only [Translator.mem_insertSorted, h.opened g, List.mem_cons, or_assoc]
  · intro g
    dsimp only
    rw [Table.lookup_insert, List.mem_cons, ← h.filed g]
    by_cases hg : f = g
    · simp [hg]
    · simp [hg, Ne.symm hg]
  · intro g g' j hg hg'
    rcases (hlook g j).1 hg with ⟨hgf, hj⟩ | hg
    · rcases (hlook g' j).1 hg' with ⟨hgf', -⟩ | hg'
      · rw [hgf, hgf']
      · exact absurd hj (hother g' j hg')
    · rcases (hlook g' j).1 hg' with ⟨-, hj⟩ | hg'
      · exact absurd hj (hother g j hg)
      · exact h.apart g g' j hg hg'
  · intro g j hg hj
    rcases (hlook g j).1 hg with ⟨-, rfl⟩ | hg
    · exact htext _ hj rfl
    · exact h.offText g j hg hj
  · intro k hk
    have hshare : textShare { s with
        openTools := Translator.insertSorted f s.openTools, toolIrIndex := s.toolIrIndex.insert f i } = textShare s := rfl
    rw [hshare, List.length_cons]
    rcases Finset.mem_insert.1 hk with rfl | hk
    · omega
    · have hb := h.bound k hk
      omega
  · rintro j (hj | ⟨g, hg⟩)
    · exact Finset.mem_insert_of_mem (h.spent j (Or.inl hj))
    · rcases (hlook g j).1 hg with ⟨-, rfl⟩ | hg
      · exact Finset.mem_insert_self _ _
      · exact Finset.mem_insert_of_mem (h.spent j (Or.inr ⟨g, hg⟩))
  · intro k
    have hrunning : f ∉ c.ended := fun he => hf (h.ended f he)
    simp only [Monitor.after, Finset.mem_insert, h.live k]
    constructor
    · rintro (hk | htext | ⟨g, hg, hk⟩)
      · exact Or.inr ⟨f, hrunning, (hlook f k).2 (Or.inl ⟨rfl, hk⟩)⟩
      · exact Or.inl htext
      · exact Or.inr ⟨g, hg, (hlook g k).2 (Or.inr hk)⟩
    · rintro (htext | ⟨g, hg, hk⟩)
      · exact Or.inr (Or.inl htext)
      · rcases (hlook g k).1 hk with ⟨-, hk⟩ | hk
        · exact Or.inl hk
        · exact Or.inr (Or.inr ⟨g, hg, hk⟩)

/-- The block of a tracked call is open as long as the call has not ended. -/
theorem live_call (h : Watched c s m) {f i : Nat} (hf : s.toolIrIndex.lookup f = some i) : i ∈ m.live ↔ f ∉ c.ended := by
  rw [h.live i]
  constructor
  · rintro (⟨-, htext⟩ | ⟨g, hg, hi⟩)
    · exact absurd htext (h.offText f i hf)
    · exact h.apart g f i hi hf ▸ hg
  · exact fun hrunning => Or.inr ⟨f, hrunning, hf⟩

theorem mem_started (h : Watched c s m) {f i : Nat} (hf : s.toolIrIndex.lookup f = some i) : f ∈ c.started :=
  (h.filed f).1 (by rw [hf]; rfl)

/-- A call ends and its block is closed. -/
theorem watched_end (h : Watched c s m) {f i : Nat} (hf : s.toolIrIndex.lookup f = some i) :
    Watched { c with ended := f :: c.ended } s (m.after (.drop i)) := by
  refine ⟨h.nodup, ?_, h.small, h.sorted, h.opened, h.filed, h.apart, h.offText, h.text, h.bound, h.spent, ?_, ?_⟩
  · intro g hg
    rcases List.mem_cons.1 hg with rfl | hg
    · exact mem_started h hf
    · exact h.ended g hg
  · exact fun k hk => h.solo k (Finset.mem_of_mem_erase hk)
  · intro k
    simp only [Monitor.after, Finset.mem_erase, h.live k, List.mem_cons, not_or]
    constructor
    · rintro ⟨hne, htext | ⟨g, hg, hk⟩⟩
      · exact Or.inl htext
      · refine Or.inr ⟨g, ⟨?_, hg⟩, hk⟩
        rintro rfl
        exact hne (Option.some.inj (hk.symm.trans hf))
    · rintro (⟨hopen, htext⟩ | ⟨g, ⟨hne, hg⟩, hk⟩)
      · refine ⟨?_, Or.inl ⟨hopen, htext⟩⟩
        rintro rfl
        exact h.offText f k hf htext
      · refine ⟨?_, Or.inr ⟨g, hg, hk⟩⟩
        rintro rfl
        exact hne (h.apart g f k hk hf)

/-! ## One frame -/

/-- A frame of another kind, or no frame at all, is of no kind the reader knows. -/
theorem readResponseEvents_eq (synthesizedId : String) (data : Json) (s : DecodeState) :
    readResponseEvents synthesizedId data s = match kindOf data with
      | .messageStart => readMessageStart synthesizedId data s
      | .contentStart => readContentStart s
      | .contentDelta => onText (contentTexts data) s
      | .toolPlanDelta => onText (toolPlan data).toList s
      | .contentEnd => closeText s
      | .messageEnd => readMessageEnd data s
      | .toolCallStart => readToolCallStart data s
      | .toolCallDelta => readToolCallDelta data s
      | .toolCallEnd => readToolCallEnd data s
      | .unknown => ([], s) := by
  unfold readResponseEvents
  by_cases hskip : data.asStr = some sseDoneSentinel ∨ data.isObject = false
  · rw [if_pos hskip]
    have hnone : data.getStr "type" = none := by
      cases data with
      | object members => simp [Json.asStr, Json.isObject] at hskip
      | _ => rfl
    have hkind : kindOf data = .unknown := by
      unfold kindOf
      rw [hnone]
      rfl
    rw [hkind]
  · exact (if_neg hskip).trans rfl

/-- **A frame in turn** is accepted. -/
theorem frame_inTurn (synthesizedId : String) (h : Watched c s m) (hturn : c.InTurn data) :
    ∃ m', m.run (acts (readResponseEvents synthesizedId data s).1) = some m' ∧
      Watched (c.after data) (readResponseEvents synthesizedId data s).2 m' := by
  rw [readResponseEvents_eq]
  unfold Calls.InTurn at hturn
  unfold Calls.after
  cases hkind : kindOf data with
  | messageStart =>
    dsimp only
    unfold readMessageStart
    by_cases hs : s.started = true
    · rw [if_pos hs]
      exact ⟨m, rfl, h⟩
    · rw [if_neg hs]
      exact ⟨m, rfl, ⟨h.nodup, h.ended, h.small, h.sorted, h.opened, h.filed, h.apart, h.offText, h.text, h.bound,
        h.spent, h.solo, h.live⟩⟩
  | contentStart => exact watched_readContentStart h
  | contentDelta => exact watched_onText _ h
  | toolPlanDelta => exact watched_onText _ h
  | contentEnd =>
    obtain ⟨m', hrun, hw, -⟩ := watched_closeText h
    exact ⟨m', hrun, hw⟩
  | messageEnd =>
    rw [hkind] at hturn
    obtain ⟨m', hrun, hw, hshut⟩ := watched_closeText h
    have hempty : m'.live = ∅ := by
      refine Finset.eq_empty_of_forall_notMem (fun k hk => ?_)
      rcases (hw.live k).1 hk with ⟨hopen, -⟩ | ⟨f, hf, hi⟩
      · rw [hshut] at hopen
        cases hopen
      · exact hf (hturn f (mem_started hw hi))
    refine ⟨m', ?_, hw⟩
    show m.run (acts ((closeText s).1 ++ _)) = some m'
    rw [acts_append]
    exact Monitor.run_append.2 ⟨m', hrun, Monitor.run_cons.2 ⟨trivial, Monitor.run_cons.2 ⟨hempty, rfl⟩⟩⟩
  | toolCallStart =>
    obtain ⟨m', hrun, hw, -⟩ := watched_closeText h
    dsimp only
    unfold readToolCallStart
    rcases assign_cases hw (clampFrameIndex data) with ⟨hnot, hassign⟩ | ⟨hnew, hassign⟩
    · simp only [hassign, if_pos hnot]
      exact ⟨m', hrun, hw⟩
    · obtain ⟨hallow, hw'⟩ := watched_track hw (fun hf => hnew (Or.inl hf)) (clampFrameIndex_lt data)
      simp only [hassign, if_neg hnew]
      refine ⟨_, ?_, hw'⟩
      rw [acts_append]
      refine Monitor.run_append.2 ⟨m', hrun, Monitor.run_cons.2 ⟨hallow, ?_⟩⟩
      have huses := run_uses (m := m'.after (.take (c.started.length + textShare (closeText s).2) false))
        (Finset.mem_insert_self _ _) (toolArguments data).toList
      rw [← huses, List.map_map]
      rfl
  | toolCallDelta =>
    rw [hkind] at hturn
    dsimp only
    unfold readToolCallDelta cohereLookupToolIrIndex
    cases hlook : s.toolIrIndex.lookup (clampFrameIndex data) with
    | none => exact ⟨m, rfl, h⟩
    | some i =>
      cases hargs : toolArguments data with
      | none => exact ⟨m, rfl, h⟩
      | some args =>
        have hrunning := hturn (by rw [hargs]; rfl) (mem_started h hlook)
        exact ⟨m, Monitor.run_cons.2 ⟨(live_call h hlook).2 hrunning, rfl⟩, h⟩
  | toolCallEnd =>
    rw [hkind] at hturn
    dsimp only
    unfold readToolCallEnd cohereLookupToolIrIndex
    cases hlook : s.toolIrIndex.lookup (clampFrameIndex data) with
    | none =>
      have hnot : clampFrameIndex data ∉ c.started := by
        intro hf
        rw [← h.filed, hlook] at hf
        cases hf
      rw [if_neg hnot]
      exact ⟨m, rfl, h⟩
    | some i =>
      have hf := mem_started h hlook
      rw [if_pos hf]
      exact ⟨m.after (.drop i), Monitor.run_cons.2 ⟨(live_call h hlook).2 (hturn hf), rfl⟩, watched_end h hlook⟩
  | unknown => exact ⟨m, rfl, h⟩

/-- **A frame out of turn** makes the reader use or close a block that is closed, or end the message with one open. -/
theorem frame_outOfTurn (synthesizedId : String) (h : Watched c s m) (hturn : ¬ c.InTurn data) :
    ∃ bs a rest m', acts (readResponseEvents synthesizedId data s).1 = bs ++ a :: rest ∧ m.run bs = some m' ∧
      ¬ m'.allows a ∧ ∀ k, a ≠ .take k true := by
  rw [readResponseEvents_eq]
  unfold Calls.InTurn at hturn
  cases hkind : kindOf data with
  | messageEnd =>
    rw [hkind] at hturn
    obtain ⟨f, hf⟩ := not_forall.1 hturn
    obtain ⟨hf, hrunning⟩ := not_forall.1 hf
    obtain ⟨m', hrun, hw, -⟩ := watched_closeText h
    obtain ⟨i, hi⟩ := Option.isSome_iff_exists.1 ((hw.filed f).2 hf)
    have hlive : i ∈ m'.live := (live_call hw hi).2 hrunning
    refine ⟨acts (closeText s).1 ++ [.other], .seal, [], m', ?_, ?_, ?_, nofun⟩
    · dsimp only
      unfold readMessageEnd
      rw [acts_append, List.append_assoc]
      rfl
    · exact Monitor.run_append.2 ⟨m', hrun, Monitor.run_cons.2 ⟨trivial, rfl⟩⟩
    · intro hempty
      have hempty : m'.live = ∅ := hempty
      rw [hempty] at hlive
      cases hlive
  | toolCallDelta =>
    rw [hkind] at hturn
    obtain ⟨hargs, hturn⟩ := Classical.not_imp.1 hturn
    obtain ⟨hf, hended⟩ := Classical.not_imp.1 hturn
    obtain ⟨args, hargs⟩ := Option.isSome_iff_exists.1 hargs
    obtain ⟨i, hi⟩ := Option.isSome_iff_exists.1 ((h.filed _).2 hf)
    refine ⟨[], .use i, [], m, ?_, rfl, fun hlive => hended ((live_call h hi).1 hlive), nofun⟩
    dsimp only
    unfold readToolCallDelta cohereLookupToolIrIndex
    rw [hi, hargs]
    rfl
  | toolCallEnd =>
    rw [hkind] at hturn
    obtain ⟨hf, hended⟩ := Classical.not_imp.1 hturn
    obtain ⟨i, hi⟩ := Option.isSome_iff_exists.1 ((h.filed _).2 hf)
    refine ⟨[], .drop i, [], m, ?_, rfl, fun hlive => hended ((live_call h hi).1 hlive), nofun⟩
    dsimp only
    unfold readToolCallEnd cohereLookupToolIrIndex
    rw [hi]
    rfl
  | _ =>
    rw [hkind] at hturn
    exact absurd trivial hturn

/-! ## A stream -/

theorem readFrames_cons (synthesizedId : String) (data : Json) (frames : List Json) (s : DecodeState) :
    (readFrames synthesizedId (data :: frames) s).1 = (readResponseEvents synthesizedId data s).1 ++
      (readFrames synthesizedId frames (readResponseEvents synthesizedId data s).2).1 := rfl

/-- Frames in turn are accepted. -/
theorem frames_inTurn (synthesizedId : String) {frames : List Json} (h : Watched c s m) (hturn : InTurn c frames) :
    ∃ m', m.run (acts (readFrames synthesizedId frames s).1) = some m' := by
  induction frames generalizing c s m with
  | nil => exact ⟨m, rfl⟩
  | cons data frames ih =>
    obtain ⟨hfirst, hrest⟩ := hturn
    obtain ⟨m₁, hrun₁, hw⟩ := frame_inTurn synthesizedId h hfirst
    obtain ⟨m', hrun⟩ := ih hw hrest
    refine ⟨m', ?_⟩
    rw [readFrames_cons, acts_append]
    exact Monitor.run_append.2 ⟨m₁, hrun₁, hrun⟩

/-- The first frame out of turn brings an act that is refused. -/
theorem frames_outOfTurn (synthesizedId : String) {frames : List Json} (h : Watched c s m)
    (hturn : ¬ InTurn c frames) : ∃ bs a rest m', acts (readFrames synthesizedId frames s).1 = bs ++ a :: rest ∧
      m.run bs = some m' ∧ ¬ m'.allows a ∧ ∀ k, a ≠ .take k true := by
  induction frames generalizing c s m with
  | nil => exact absurd trivial hturn
  | cons data frames ih =>
    rw [readFrames_cons, acts_append]
    by_cases hfirst : c.InTurn data
    · have hrest : ¬ InTurn (c.after data) frames := fun hrest => hturn ⟨hfirst, hrest⟩
      obtain ⟨m₁, hrun₁, hw⟩ := frame_inTurn synthesizedId h hfirst
      obtain ⟨bs, a, rest, m', hacts, hrun, hrefused, hsolo⟩ := ih hw hrest
      refine ⟨acts (readResponseEvents synthesizedId data s).1 ++ bs, a, rest, m', ?_, ?_, hrefused, hsolo⟩
      · rw [hacts, List.append_assoc]
      · exact Monitor.run_append.2 ⟨m₁, hrun₁, hrun⟩
    · obtain ⟨bs, a, rest, m', hacts, hrun, hrefused, hsolo⟩ := frame_outOfTurn synthesizedId h hfirst
      refine ⟨bs, a, rest ++ acts (readFrames synthesizedId frames (readResponseEvents synthesizedId data s).2).1, m', ?_,
        hrun, hrefused, hsolo⟩
      rw [hacts, List.append_assoc, List.cons_append]

/-- **The blocks of a stream are in balance exactly when every frame comes in turn**: no index is started twice, deltas and
stops go to open blocks, and a message ends with every block closed, unless a call that has ended gets arguments or another
end, or the message ends with a call under way. -/
theorem balanced_iff (synthesizedId : String) (frames : List Json) :
    Balanced (acts (readAll synthesizedId frames)) ↔ InTurn .start frames := by
  constructor
  · intro hb
    by_contra hturn
    obtain ⟨bs, a, rest, m', hacts, hrun, hrefused, hsolo⟩ := frames_outOfTurn synthesizedId Watched.default hturn
    unfold readAll at hb
    rw [hacts] at hb
    exact not_balanced_of_refused hrun hrefused hsolo hb
  · intro hturn
    obtain ⟨m', hrun⟩ := frames_inTurn synthesizedId Watched.default hturn
    exact balanced_of_run hrun

def frame (ty : String) : Json := .object [("index", .number (.posInt 0)), ("type", .string ty)]

/-- A message that ends with a call under way. -/
theorem call_left_open : ¬ Balanced (acts (readAll "id" [frame "tool-call-start", frame "message-end"])) := by
  intro h
  have hacts : acts (readAll "id" [frame "tool-call-start", frame "message-end"]) =
      [.take 0 false, .other] ++ .seal :: [] := by decide +kernel
  have hdrop := h.closed _ _ hacts [] 0 false [.other] rfl
  revert hdrop
  decide

end Busbar.Cohere
