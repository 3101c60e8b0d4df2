import Busbar.Proto.GeminiResponse
import Busbar.Proto.GeminiWriter
import Mathlib.Data.List.Perm.Basic

/-!
# Tool calls written whole and in a stream

The blocks of several calls may be open at a time, their events in any order. What the writer keeps of a block is decided
by the block's own events, and it writes the call when the block stops.

* `entryOf_after`: what is kept of a block, from the block's own events.
* `calls_written`: the calls of a stream, in the order in which their blocks stop.
* `sameCalls_iff`: they are the calls of the whole response exactly when the arguments are objects.
-/

namespace Busbar.Gemini

variable {lib : JsonLib} {cap : Nat} {synthId : String} {tools : OpenTools} {ev : IrStreamEvent}
  {evs pre post : List IrStreamEvent}

/-! ## What is kept of a block -/

def eventIndex : IrStreamEvent → Option Nat
  | .blockStart index _ => some index
  | .blockDelta index _ => some index
  | .blockStop index => some index
  | _ => none

/-- The name and the arguments kept for an index. -/
def entryOf (index : Nat) (tools : OpenTools) : Option (String × String) :=
  (tools.find? (fun entry => entry.1 = index)).map Prod.snd

/-- What an event does to what is kept for an index. -/
def slotStep (cap index : Nat) (slot : Option (String × String)) : IrStreamEvent → Option (String × String)
  | .blockStart i (.toolUse _ name) => if i = index then some (name, "") else slot
  | .blockDelta i (.inputJson fragment) =>
    if i = index then slot.map (fun (name, args) =>
      (name, if args.utf8ByteSize + fragment.utf8ByteSize ≤ cap then args ++ fragment else args)) else slot
  | .blockStop i => if i = index then none else slot
  | _ => slot

theorem slotStep_other {index : Nat} (slot : Option (String × String)) (h : eventIndex ev ≠ some index) :
    slotStep cap index slot ev = slot := by
  have hne : ∀ {i}, eventIndex ev = some i → i ≠ index := fun hi he => h (he ▸ hi)
  cases ev with
  | blockStart i block =>
    cases block with
    | toolUse id name => exact if_neg (hne rfl)
    | _ => rfl
  | blockDelta i delta =>
    cases delta with
    | inputJson fragment => exact if_neg (hne rfl)
    | _ => rfl
  | blockStop i => exact if_neg (hne rfl)
  | _ => rfl

/-- The entries of the open tools have different indices. -/
def Keyed (tools : OpenTools) : Prop := (tools.map Prod.fst).Nodup

theorem mem_find {index : Nat} {entry : Nat × String × String}
    (h : tools.find? (fun entry => entry.1 = index) = some entry) : entry.1 = index := by
  simpa using List.find?_some h

/-- A change that keeps the indices, seen at one of them. -/
theorem entryOf_map (tools : OpenTools) (change : Nat × String × String → Nat × String × String)
    (hkeys : ∀ entry, (change entry).1 = entry.1) (index : Nat) : (Keyed tools → Keyed (tools.map change)) ∧ entryOf index (tools.map change) =
      ((tools.find? (fun entry => entry.1 = index)).map change).map Prod.snd := by
  have hfst : (tools.map change).map Prod.fst = tools.map Prod.fst := by
    rw [List.map_map]
    exact List.map_congr_left (fun entry _ => hkeys entry)
  have hpick : ((fun entry : Nat × String × String => decide (entry.1 = index)) ∘ change) =
      fun entry => decide (entry.1 = index) := by
    funext entry
    simp [hkeys]
  refine ⟨fun h => ?_, ?_⟩
  · unfold Keyed
    rw [hfst]
    exact h
  · unfold entryOf
    rw [List.find?_map, hpick]

theorem entryOf_openTool (index i : Nat) (name : String) (h : Keyed tools) :
    Keyed (openTool i name tools) ∧
      entryOf index (openTool i name tools) = if i = index then some (name, "") else entryOf index tools := by
  unfold openTool
  by_cases hany : tools.any (fun entry => entry.1 = i) = true
  · obtain ⟨hkeyed, hentry⟩ := entryOf_map tools
      (fun entry => if entry.1 = i then (i, name, "") else entry)
      (fun entry => by by_cases he : entry.1 = i <;> simp [he]) index
    rw [if_pos hany, hentry]
    refine ⟨hkeyed h, ?_⟩
    by_cases hi : i = index
    · subst hi
      have hsome : (tools.find? (fun entry => entry.1 = i)).isSome = true := by
        rw [List.find?_isSome]
        simpa using hany
      obtain ⟨entry, hentry⟩ := Option.isSome_iff_exists.1 hsome
      rw [hentry, if_pos rfl, Option.map_some, if_pos (mem_find hentry)]
      rfl
    · rw [if_neg hi]
      unfold entryOf
      cases hfind : tools.find? (fun entry => entry.1 = index) with
      | none => rfl
      | some entry =>
        have hne : ¬ entry.1 = i := fun he => hi (he.symm.trans (mem_find hfind))
        rw [Option.map_some, if_neg hne]
  · have hnot : ∀ entry ∈ tools, entry.1 ≠ i := fun entry hentry he =>
      hany (List.any_eq_true.2 ⟨entry, hentry, by simpa using he⟩)
    rw [if_neg hany]
    constructor
    · unfold Keyed
      rw [List.map_append]
      refine List.nodup_append.2 ⟨h, List.nodup_singleton _, fun a ha b hb => ?_⟩
      obtain ⟨entry, hentry, rfl⟩ := List.mem_map.1 ha
      rw [List.mem_singleton.1 hb]
      exact hnot entry hentry
    · unfold entryOf
      rw [List.find?_append]
      by_cases hi : i = index
      · subst hi
        have hnone : tools.find? (fun entry => entry.1 = i) = none :=
          List.find?_eq_none.2 (fun entry hentry => by simpa using hnot entry hentry)
        simp [hnone]
      · simp [hi]

theorem entryOf_pushArgs (index i : Nat) (fragment : String) (h : Keyed tools) : Keyed (pushArgs cap i fragment tools) ∧
    entryOf index (pushArgs cap i fragment tools) = if i = index then (entryOf index tools).map (fun (name, args) =>
      (name, if args.utf8ByteSize + fragment.utf8ByteSize ≤ cap then args ++ fragment else args))
      else entryOf index tools := by
  obtain ⟨hkeyed, hentry⟩ := entryOf_map tools
    (fun entry => if entry.1 = i ∧ entry.2.2.utf8ByteSize + fragment.utf8ByteSize ≤ cap
      then (i, entry.2.1, entry.2.2 ++ fragment) else entry) (fun entry => by
        by_cases he : entry.1 = i ∧ entry.2.2.utf8ByteSize + fragment.utf8ByteSize ≤ cap
        · rw [if_pos he]
          exact he.1.symm
        · rw [if_neg he]) index
  unfold pushArgs
  rw [hentry]
  refine ⟨hkeyed h, ?_⟩
  unfold entryOf
  cases hfind : tools.find? (fun entry => entry.1 = index) with
  | none => split <;> rfl
  | some entry =>
    have hkey := mem_find hfind
    by_cases hi : i = index
    · have hsame : entry.1 = i := hkey.trans hi.symm
      by_cases hfit : entry.2.2.utf8ByteSize + fragment.utf8ByteSize ≤ cap <;> simp [hi, hkey, hfit]
    · have hne : ¬ entry.1 = i := fun he => hi (he.symm.trans hkey)
      simp [hi, hne]

theorem entryOf_eraseP (index i : Nat) (h : Keyed tools) : Keyed (tools.eraseP (fun entry => entry.1 = i)) ∧
    entryOf index (tools.eraseP (fun entry => entry.1 = i)) = if i = index then none else entryOf index tools := by
  refine ⟨h.sublist (List.Sublist.map _ List.eraseP_sublist), ?_⟩
  induction tools with
  | nil => split <;> rfl
  | cons entry rest ih =>
    obtain ⟨hnew, hrest⟩ := List.nodup_cons.1 h
    have ih := ih hrest
    unfold entryOf at ih ⊢
    by_cases he : entry.1 = i
    · rw [List.eraseP_cons_of_pos (by simpa using he)]
      by_cases hi : i = index
      · have hnone : rest.find? (fun entry => entry.1 = index) = none := by
          refine List.find?_eq_none.2 (fun entry' hentry' => ?_)
          have hne : entry'.1 ≠ entry.1 := fun h' => hnew (List.mem_map.2 ⟨entry', hentry', h'⟩)
          rw [he, hi] at hne
          simpa using hne
        rw [if_pos hi, hnone]
        rfl
      · have hne : ¬ entry.1 = index := fun h' => hi (he.symm.trans h')
        rw [if_neg hi, List.find?_cons_of_neg (by simpa using hne)]
    · rw [List.eraseP_cons_of_neg (by simpa using he)]
      by_cases hk : entry.1 = index
      · have hi : ¬ i = index := fun h' => he (hk.trans h'.symm)
        rw [if_neg hi, List.find?_cons_of_pos (by simpa using hk), List.find?_cons_of_pos (by simpa using hk)]
      · rw [List.find?_cons_of_neg (by simpa using hk), List.find?_cons_of_neg (by simpa using hk)]
        exact ih

/-- **One event**, seen at one index. -/
theorem entryOf_writeResponseEvent (index : Nat) (h : Keyed tools) :
    Keyed (writeResponseEvent lib cap synthId ev tools).2 ∧
      entryOf index (writeResponseEvent lib cap synthId ev tools).2 = slotStep cap index (entryOf index tools) ev := by
  cases ev with
  | blockStart i block =>
    cases block with
    | toolUse id name => exact entryOf_openTool index i name h
    | _ => exact ⟨h, rfl⟩
  | blockDelta i delta =>
    cases delta with
    | inputJson fragment => exact entryOf_pushArgs index i fragment h
    | _ => exact ⟨h, rfl⟩
  | blockStop i =>
    have hstop : (writeResponseEvent lib cap synthId (.blockStop i) tools).2 = tools.eraseP (fun entry => entry.1 = i) := by
      unfold writeResponseEvent
      dsimp only
      cases hfind : tools.find? (fun entry => entry.1 = i) with
      | none =>
        have hnone := List.find?_eq_none.1 hfind
        rw [List.eraseP_of_forall_not hnone]
      | some entry => rfl
    rw [hstop]
    exact entryOf_eraseP index i h
  | _ => exact ⟨h, rfl⟩

def slotAfter (cap index : Nat) (evs : List IrStreamEvent) : Option (String × String) :=
  evs.foldl (slotStep cap index) none

/-- **Only a block's own events count** for what is kept of it. -/
theorem slotAfter_filter (index : Nat) :
    slotAfter cap index (evs.filter (fun ev => eventIndex ev = some index)) = slotAfter cap index evs := by
  have hall : ∀ slot, (evs.filter (fun ev => eventIndex ev = some index)).foldl (slotStep cap index) slot =
      evs.foldl (slotStep cap index) slot := by
    induction evs with
    | nil => exact fun _ => rfl
    | cons ev evs ih =>
      intro slot
      by_cases he : eventIndex ev = some index
      · rw [List.filter_cons_of_pos (by simpa using he), List.foldl_cons, List.foldl_cons, ih]
      · rw [List.filter_cons_of_neg (by simpa using he), List.foldl_cons, slotStep_other slot he, ih]
  exact hall none

/-! ## Calls in a stream -/

/-- A tool-use block and its index in the stream. -/
structure ToolCall where
  index : Nat
  id : String
  name : String
  input : Json
  thoughtSignature : Option String

def ToolCall.block (b : ToolCall) : IrBlock := .toolUse b.id b.name b.input b.thoughtSignature

/-- The events of a block. -/
def script (b : ToolCall) (fragments : List String) : List IrStreamEvent :=
  (.blockStart b.index (.toolUse b.id b.name) :: fragments.map (fun f => .blockDelta b.index (.inputJson f))) ++
    [.blockStop b.index]

/-- A text of the arguments; none at all stands for no arguments. -/
def Carries (lib : JsonLib) (text : String) (input : Json) : Prop :=
  (text = "" ∧ input = .object []) ∨ (text ≠ "" ∧ lib.fromStr text = some input)

/-- **Blocks in a stream**: each has its own index and its own events in order, the fragments of its arguments cut anywhere
and no longer than the cap. What else is in the stream opens no tool block. -/
structure Delivery (lib : JsonLib) (cap : Nat) (blocks : List ToolCall) (evs : List IrStreamEvent) : Prop where
  distinct : (blocks.map ToolCall.index).Nodup
  own : ∀ b ∈ blocks, ∃ fragments, evs.filter (fun ev => eventIndex ev = some b.index) = script b fragments ∧
    Carries lib (String.join fragments) b.input ∧ (String.join fragments).utf8ByteSize ≤ cap
  noOther : ∀ index id name, .blockStart index (.toolUse id name) ∈ evs → index ∈ blocks.map ToolCall.index

/-- The blocks in the order in which they stop. -/
def stopOrder (blocks : List ToolCall) (evs : List IrStreamEvent) : List ToolCall :=
  evs.filterMap (fun ev => match ev with
    | .blockStop index => blocks.find? (fun b => b.index = index)
    | _ => none)

/-- The calls of a chunk. -/
def callsIn (chunk : String × Json) : List Json :=
  (((candidate0 chunk.2).map bodyParts).getD []).filter (fun part => (part.get fieldFunctionCall).isSome)

/-- What a stream makes of a block. -/
def streamPart (lib : JsonLib) (evs : List IrStreamEvent) (b : ToolCall) : Json :=
  functionCallPart b.name (flushArgs lib (argumentsOf b.index evs))

/-- The fragments of a script, as far as they fit. -/
theorem slotAfter_fragments {index : Nat} (name : String) (fragments : List String) (start : String)
    (hfit : (start ++ String.join fragments).utf8ByteSize ≤ cap) :
    (fragments.map (fun f => IrStreamEvent.blockDelta index (.inputJson f))).foldl (slotStep cap index)
      (some (name, start)) = some (name, start ++ String.join fragments) := by
  induction fragments generalizing start with
  | nil => simp
  | cons f fs ih =>
    rw [String.join_cons, ← String.append_assoc] at hfit
    have hone : start.utf8ByteSize + f.utf8ByteSize ≤ cap := by
      rw [String.utf8ByteSize_append, String.utf8ByteSize_append] at hfit
      omega
    have hstep : slotStep cap index (some (name, start)) (.blockDelta index (.inputJson f)) = some (name, start ++ f) := by
      unfold slotStep
      simp [hone]
    rw [List.map_cons, List.foldl_cons, hstep, ih _ hfit, String.join_cons, String.append_assoc]

theorem argumentsOf_filter (index : Nat) :
    argumentsOf index (evs.filter (fun ev => eventIndex ev = some index)) = argumentsOf index evs := by
  unfold argumentsOf joined
  rw [List.filterMap_filter]
  congr 1
  refine List.filterMap_congr (fun ev _ => ?_)
  by_cases he : eventIndex ev = some index
  · simp [he]
  · have hnone : argumentsDelta index ev = none := by
      cases ev with
      | blockDelta i delta =>
        cases delta with
        | inputJson fragment => exact if_neg (fun hi => he (by rw [hi]; rfl))
        | _ => rfl
      | _ => rfl
    simp [he, hnone]

theorem argumentsOf_script (b : ToolCall) (fragments : List String) :
    argumentsOf b.index (script b fragments) = String.join fragments := by
  have hpick : (fragments.map (fun f => IrStreamEvent.blockDelta b.index (.inputJson f))).filterMap
      (argumentsDelta b.index) = fragments := by
    induction fragments with
    | nil => rfl
    | cons f fs ih =>
      have hf : argumentsDelta b.index (.blockDelta b.index (.inputJson f)) = some f := if_pos rfl
      rw [List.map_cons, List.filterMap_cons_some hf, ih]
  have hstart : argumentsDelta b.index (.blockStart b.index (.toolUse b.id b.name)) = none := rfl
  unfold argumentsOf joined script
  have hstop : [IrStreamEvent.blockStop b.index].filterMap (argumentsDelta b.index) = [] := rfl
  rw [List.filterMap_append, List.filterMap_cons_none hstart, hpick, hstop, List.append_nil]

/-- **What is kept of a block when it stops** is its name with all of its arguments. -/
theorem slot_at_stop {blocks : List ToolCall} {index : Nat} (h : Delivery lib cap blocks evs)
    (hevs : evs = pre ++ .blockStop index :: post) :
    slotAfter cap index pre = (blocks.find? (fun b => b.index = index)).map (fun b => (b.name, argumentsOf b.index evs)) := by
  cases hfind : blocks.find? (fun b => b.index = index) with
  | none =>
    -- no block has the index, so none was opened at it
    have hnot : index ∉ blocks.map ToolCall.index := by
      intro hmem
      obtain ⟨b, hb, hi⟩ := List.mem_map.1 hmem
      exact absurd hi (by simpa using List.find?_eq_none.1 hfind b hb)
    have hall : ∀ evs', (∀ ev ∈ evs', ev ∈ evs) → slotAfter cap index evs' = none := by
      intro evs' hsub
      unfold slotAfter
      induction evs' with
      | nil => rfl
      | cons ev rest ih =>
        have hstep : slotStep cap index none ev = none := by
          cases ev with
          | blockStart i block =>
            cases block with
            | toolUse id name =>
              have hmem := h.noOther i id name (hsub _ List.mem_cons_self)
              have hne : ¬ i = index := by
                intro hi
                rw [hi] at hmem
                exact hnot hmem
              exact if_neg hne
            | _ => rfl
          | blockDelta i delta =>
            cases delta with
            | inputJson fragment =>
              have heq : slotStep cap index none (.blockDelta i (.inputJson fragment)) = if i = index then none else none := rfl
              rw [heq, ite_self]
            | _ => rfl
          | blockStop i =>
            have heq : slotStep cap index none (.blockStop i) = if i = index then none else none := rfl
            rw [heq, ite_self]
          | _ => rfl
        rw [List.foldl_cons, hstep]
        exact ih (fun ev' hev' => hsub ev' (List.mem_cons_of_mem _ hev'))
    refine hall pre (fun ev hev => ?_)
    rw [hevs]
    exact List.mem_append_left _ hev
  | some b =>
    have hb : b ∈ blocks := List.mem_of_find?_eq_some hfind
    obtain rfl : b.index = index := by simpa using List.find?_some hfind
    obtain ⟨fragments, hown, -, hfit⟩ := h.own b hb
    have harguments : argumentsOf b.index evs = String.join fragments := by
      rw [← argumentsOf_filter, hown, argumentsOf_script]
    have hpre : pre.filter (fun ev => eventIndex ev = some b.index) =
        .blockStart b.index (.toolUse b.id b.name) :: fragments.map (fun f => .blockDelta b.index (.inputJson f)) := by
      have hsplit := hown
      rw [hevs, List.filter_append, List.filter_cons_of_pos (by simp [eventIndex])] at hsplit
      unfold script at hsplit
      -- the stop is the last event of the script and occurs nowhere else in it
      rcases List.append_eq_append_iff.1 hsplit with ⟨as, hfront, hback⟩ | ⟨bs, hfront, hback⟩
      · cases as with
        | nil =>
          rw [hfront, List.append_nil]
        | cons a as =>
          have ha : a = .blockStop b.index := (List.cons.inj hback).1.symm
          have hmem : IrStreamEvent.blockStop b.index ∈ (IrStreamEvent.blockStart b.index (.toolUse b.id b.name) ::
              fragments.map (fun f => .blockDelta b.index (.inputJson f))) := by
            rw [hfront, ha]
            simp
          simp at hmem
      · cases bs with
        | nil => rw [hfront, List.append_nil]
        | cons a as =>
          have hlen := congrArg List.length hback
          simp at hlen
    have hstart : slotStep cap b.index none (.blockStart b.index (.toolUse b.id b.name)) = some (b.name, "") := if_pos rfl
    rw [Option.map_some, harguments, ← slotAfter_filter, hpre]
    unfold slotAfter
    rw [List.foldl_cons, hstart, slotAfter_fragments _ _ _ (by simpa using hfit)]
    simp

/-- Only the stop of a tool block brings a call. -/
theorem callsIn_event : ((writeResponseEvent lib cap synthId ev tools).1.toList).flatMap callsIn =
    match ev with
    | .blockStop index =>
      ((entryOf index tools).map (fun (name, args) => functionCallPart name (flushArgs lib args))).toList
    | _ => [] := by
  have hplain : ∀ members, Json.getMember fieldFunctionCall members = none →
      callsIn (partChunk (.object members)) = [] := by
    intro members hnone
    have hparts : bodyParts (.object [("content", modelContent [.object members])]) = [.object members] := rfl
    have hcandidate : candidate0 (partChunk (.object members)).2 = some (.object [("content", modelContent [.object members])]) := rfl
    unfold callsIn
    rw [hcandidate, Option.map_some, hparts, Option.getD_some, List.filter_cons_of_neg (by simp [Json.get_object, hnone])]
    rfl
  have hbare : ∀ chunk : String × Json, (∀ candidate ∈ candidate0 chunk.2, candidate.get "content" = none) →
      callsIn chunk = [] := by
    intro chunk hnone
    unfold callsIn
    cases hc : candidate0 chunk.2 with
    | none => rfl
    | some candidate =>
      have hparts : bodyParts candidate = [] := by
        unfold bodyParts
        rw [hnone candidate hc]
        rfl
      rw [Option.map_some, hparts]
      rfl
  cases ev with
  | messageStart role usage id created model =>
    refine (List.append_nil _).trans (hbare _ (fun candidate hc => ?_))
    cases model <;>
      simp [candidate0, Json.get_object, Json.getMember_insertMember, Json.getMember_nil, fieldResponseId,
        fieldModelVersion] at hc
  | blockStart index block => cases block <;> rfl
  | blockDelta index delta =>
    cases delta with
    | text text => exact (List.append_nil _).trans (hplain _ (by simp [Json.getMember_cons, Json.getMember_nil, fieldFunctionCall]))
    | inputJson fragment => rfl
    | thinking thinking =>
      exact (List.append_nil _).trans (hplain _ (by simp [Json.getMember_cons, Json.getMember_nil, fieldFunctionCall]))
    | signature sig =>
      exact (List.append_nil _).trans (hplain _ (by simp [Json.getMember_cons, Json.getMember_nil, fieldFunctionCall]))
    | redactedReasoning bytes => rfl
    | citations citations =>
      have heq : (writeResponseEvent lib cap synthId (.blockDelta index (.citations citations)) tools).1 =
        writeDelta (.citations citations) := rfl
      rw [heq]
      unfold writeDelta
      dsimp only
      split
      · rfl
      · refine (List.append_nil _).trans (hbare _ (fun candidate hc => ?_))
        cases hc
        simp [Json.get_object, Json.getMember_cons, Json.getMember_nil]
    | logprobs lps =>
      have heq : (writeResponseEvent lib cap synthId (.blockDelta index (.logprobs lps)) tools).1 =
        writeDelta (.logprobs lps) := rfl
      rw [heq]
      unfold writeDelta
      dsimp only
      split
      · rfl
      · refine (List.append_nil _).trans (hbare _ (fun candidate hc => ?_))
        cases hc
        simp [Json.get_object, Json.getMember_cons, Json.getMember_nil]
  | blockStop index =>
    unfold writeResponseEvent entryOf
    dsimp only
    cases tools.find? (fun entry => entry.1 = index) with
    | none => rfl
    | some entry => rfl
  | messageDelta stopReason stopSequence usage =>
    refine (List.append_nil _).trans (hbare _ (fun candidate hc => ?_))
    cases hc
    simp [Json.get_object, Json.getMember_cons, Json.getMember_nil, fieldFinishReason]
  | messageStop => rfl
  | error err =>
    refine (List.append_nil _).trans (hbare _ (fun candidate hc => ?_))
    simp [candidate0, Json.get_object, Json.getMember_cons, Json.getMember_nil] at hc

/-- **The calls of a stream**, in the order in which their blocks stop. -/
theorem calls_written {blocks : List ToolCall} (h : Delivery lib cap blocks evs) :
    (writeAll lib cap synthId evs []).flatMap callsIn = (stopOrder blocks evs).map (streamPart lib evs) := by
  have hall : ∀ post pre tools, evs = pre ++ post → Keyed tools → (∀ index, entryOf index tools = slotAfter cap index pre) →
      (writeAll lib cap synthId post tools).flatMap callsIn = (stopOrder blocks post).map (streamPart lib evs) := by
    intro post
    induction post with
    | nil => exact fun _ _ _ _ _ => rfl
    | cons ev post ih =>
      intro pre tools hevs hkeyed hentries
      have hkeyed' : Keyed (writeResponseEvent lib cap synthId ev tools).2 := (entryOf_writeResponseEvent 0 hkeyed).1
      have hentries' : ∀ index, entryOf index (writeResponseEvent lib cap synthId ev tools).2 =
          slotAfter cap index (pre ++ [ev]) := by
        intro index
        rw [(entryOf_writeResponseEvent index hkeyed).2, hentries]
        unfold slotAfter
        rw [List.foldl_append]
        rfl
      have hrest := ih (pre ++ [ev]) _ (by rw [hevs, List.append_assoc]; rfl) hkeyed' hentries'
      have hone : ((writeResponseEvent lib cap synthId ev tools).1.toList).flatMap callsIn =
          (stopOrder blocks [ev]).map (streamPart lib evs) := by
        rw [callsIn_event]
        cases ev with
        | blockStop index =>
          dsimp only
          rw [hentries, slot_at_stop h hevs]
          unfold stopOrder
          cases hfind : blocks.find? (fun b => b.index = index) with
          | none => simp [hfind]
          | some b =>
            obtain rfl : b.index = index := by simpa using List.find?_some hfind
            simp [hfind, streamPart]
        | _ => rfl
      have hsplit : stopOrder blocks (ev :: post) = stopOrder blocks [ev] ++ stopOrder blocks post := by
        unfold stopOrder
        rw [← List.filterMap_append]
        rfl
      unfold writeAll
      rw [List.flatMap_append, hone, hrest, hsplit, List.map_append]
  refine hall evs [] [] rfl List.nodup_nil (fun index => rfl)

/-- **Every block stops once.** -/
theorem stopOrder_perm {blocks : List ToolCall} (h : Delivery lib cap blocks evs) : (stopOrder blocks evs).Perm blocks := by
  have hmem : ∀ b, b ∈ stopOrder blocks evs ↔ b ∈ blocks := by
    intro b
    unfold stopOrder
    rw [List.mem_filterMap]
    constructor
    · rintro ⟨ev, -, hev⟩
      cases ev with
      | blockStop index => exact List.mem_of_find?_eq_some hev
      | _ => cases hev
    · intro hb
      obtain ⟨fragments, hown, -, -⟩ := h.own b hb
      have hstop : IrStreamEvent.blockStop b.index ∈ evs.filter (fun ev => eventIndex ev = some b.index) := by
        rw [hown]
        exact List.mem_append_right _ (List.mem_singleton_self _)
      refine ⟨_, (List.mem_filter.1 hstop).1, ?_⟩
      -- the indices are distinct, so the block found is this one
      dsimp only
      cases hfind : blocks.find? (fun b' => b'.index = b.index) with
      | none =>
        have hne := List.find?_eq_none.1 hfind b hb
        simp at hne
      | some b' =>
        have hindex : b'.index = b.index := by simpa using List.find?_some hfind
        rw [List.inj_on_of_nodup_map h.distinct (List.mem_of_find?_eq_some hfind) hb hindex]
  -- a block that stops twice would have two stops of its own
  have hcount : ∀ b ∈ blocks, (stopOrder blocks evs).countP (fun b' => b'.index = b.index) ≤ 1 := by
    intro b hb
    obtain ⟨fragments, hown, -, -⟩ := h.own b hb
    have hle : (stopOrder blocks evs).countP (fun b' => b'.index = b.index) ≤
        (evs.filter (fun ev => eventIndex ev = some b.index)).countP (fun ev => ev.act = .drop b.index) := by
      unfold stopOrder
      rw [List.countP_filterMap, List.countP_filter]
      refine List.countP_mono_left (fun ev _ hev => ?_)
      cases ev with
      | blockStop index =>
        cases hfind : blocks.find? (fun b => b.index = index) with
        | none => simp [hfind] at hev
        | some b' =>
          have hindex : b'.index = index := by simpa using List.find?_some hfind
          have hsame : b'.index = b.index := by simpa [hfind] using hev
          simp [IrStreamEvent.act, eventIndex, ← hsame, hindex]
      | _ => cases hev
    have hfragments : (fragments.map (fun f => IrStreamEvent.blockDelta b.index (.inputJson f))).countP
        (fun ev => ev.act = .drop b.index) = 0 := by
      refine List.countP_eq_zero.2 (fun ev hev => ?_)
      obtain ⟨f, -, rfl⟩ := List.mem_map.1 hev
      simp [IrStreamEvent.act]
    have hscript : (script b fragments).countP (fun ev => ev.act = .drop b.index) = 1 := by
      unfold script
      rw [List.countP_append, List.countP_cons, hfragments]
      simp [IrStreamEvent.act]
    rw [hown, hscript] at hle
    exact hle
  have hnodup : (stopOrder blocks evs).Nodup := by
    refine List.nodup_iff_sublist.2 (fun b hsub => ?_)
    have hb : b ∈ blocks := (hmem b).1 (hsub.subset List.mem_cons_self)
    have htwice : [b, b].countP (fun b' => b'.index = b.index) ≤ (stopOrder blocks evs).countP (fun b' => b'.index = b.index) :=
      hsub.countP_le
    have htwo : [b, b].countP (fun b' => b'.index = b.index) = 2 := by simp
    have hone := hcount b hb
    omega
  exact (List.perm_ext_iff_of_nodup hnodup (List.Nodup.of_map _ h.distinct)).2 hmem

/-! ## Calls of the whole response -/

/-- Text that nests too deep is that of an array or an object that holds something. -/
def DeepHolds (lib : JsonLib) : Prop :=
  ∀ text v, lib.fromStr text = some v → exceedsMaxDepth (utf8 text) maxJsonDepth = true →
    (∃ e es, v = .array (e :: es)) ∨ ∃ m ms, v = .object (m :: ms)

theorem isObject_coerceToolArgs (lib : JsonLib) (input : Json) : (coerceToolArgs lib input).isObject = true := by
  have hall : ∀ candidate : Json, (if candidate.isObject then candidate
      else if candidate.isNull then .object [] else .object [("args", candidate)] : Json).isObject = true := by
    intro candidate
    by_cases hobject : candidate.isObject = true
    · rw [if_pos hobject]
      exact hobject
    · rw [if_neg hobject]
      split <;> rfl
  exact hall _

/-- The arguments of a stream and of the whole response are the same exactly when they are an object whose text can be
read. -/
theorem flushArgs_eq_iff (hdeep : DeepHolds lib) {text : String} {input : Json} (h : Carries lib text input) :
    flushArgs lib text = coerceToolArgs lib input ↔
      input.isObject = true ∧ exceedsMaxDepth (utf8 text) maxJsonDepth = false := by
  rcases h with ⟨rfl, rfl⟩ | ⟨hne, hread⟩
  · have hshallow : exceedsMaxDepth (utf8 "") maxJsonDepth = false := by decide +kernel
    have hsame : flushArgs lib "" = coerceToolArgs lib (.object []) := rfl
    simp [hsame, hshallow, Json.isObject]
  · have hflush : flushArgs lib text = if exceedsMaxDepth (utf8 text) maxJsonDepth then .object [] else input := by
      unfold flushArgs JsonLib.parseStr
      rw [if_neg hne, hread]
      split <;> rfl
    cases hobject : input.isObject with
    | true =>
      obtain ⟨members, rfl⟩ : ∃ members, input = .object members := by
        cases input with
        | object members => exact ⟨members, rfl⟩
        | _ => cases hobject
      have hcoerce : coerceToolArgs lib (.object members) = .object members := rfl
      rw [hflush, hcoerce]
      cases hdepth : exceedsMaxDepth (utf8 text) maxJsonDepth with
      | false => simp
      | true =>
        -- what nests too deep is not empty
        rcases hdeep text _ hread hdepth with ⟨e, es, he⟩ | ⟨m, ms, he⟩
        · cases he
        · simp [he]
    | false =>
      have hwrong : flushArgs lib text ≠ coerceToolArgs lib input := by
        intro heq
        have hcoerced := isObject_coerceToolArgs lib input
        rw [hflush] at heq
        cases hdepth : exceedsMaxDepth (utf8 text) maxJsonDepth with
        | false =>
          rw [hdepth, if_neg Bool.false_ne_true] at heq
          rw [← heq, hobject] at hcoerced
          cases hcoerced
        | true =>
          rw [hdepth, if_pos rfl] at heq
          rcases hdeep text _ hread hdepth with ⟨e, es, rfl⟩ | ⟨m, ms, rfl⟩
          · cases heq
          · cases hobject
      simp [hwrong]

/-- The part of a block is the same in both ways. -/
theorem streamPart_eq_iff (hdeep : DeepHolds lib) {b : ToolCall} (h : Carries lib (argumentsOf b.index evs) b.input) :
    [streamPart lib evs b] = blockParts lib b.block ↔ b.thoughtSignature = none ∧ b.input.isObject = true ∧
      exceedsMaxDepth (utf8 (argumentsOf b.index evs)) maxJsonDepth = false := by
  have hblock : blockParts lib b.block = [(functionCallPart b.name (coerceToolArgs lib b.input)).mapObject (fun members =>
    b.thoughtSignature.elim members (fun sig => Json.insertMember "thoughtSignature" (.string sig) members))] := rfl
  rw [← flushArgs_eq_iff hdeep h, hblock]
  unfold streamPart
  cases b.thoughtSignature with
  | none => simp [functionCallPart, Json.mapObject]
  | some sig =>
    have hne : functionCallPart b.name (flushArgs lib (argumentsOf b.index evs)) ≠
        (functionCallPart b.name (coerceToolArgs lib b.input)).mapObject (fun members =>
          Json.insertMember "thoughtSignature" (.string sig) members) := by
      intro heq
      have hget := congrArg (Json.get "thoughtSignature") heq
      simp [functionCallPart, Json.mapObject, Json.get_object, Json.getMember_cons, Json.getMember_nil,
        Json.getMember_insertMember, fieldFunctionCall] at hget
    simpa using hne

/-- **The same calls** as in the whole response: one part for every block, in the order in which they stop, each with an
object for its arguments. -/
structure SameCalls (lib : JsonLib) (blocks : List ToolCall) (evs : List IrStreamEvent) (chunks : List (String × Json)) :
    Prop where
  once : (stopOrder blocks evs).Perm blocks
  parts : chunks.flatMap callsIn = (stopOrder blocks evs).flatMap (fun b => blockParts lib b.block)
  objects : ∀ part ∈ chunks.flatMap callsIn,
    ∃ args, (part.get fieldFunctionCall).bind (Json.get "args") = some args ∧ args.isObject = true

/-- **A stream has the calls of the whole response exactly when the arguments are objects**, their texts nest no deeper than
the parser reads and no block has a thought signature. -/
theorem sameCalls_iff (hdeep : DeepHolds lib) (synthId : String) {blocks : List ToolCall}
    (h : Delivery lib cap blocks evs) : SameCalls lib blocks evs (writeAll lib cap synthId evs []) ↔
      ∀ b ∈ blocks, b.thoughtSignature = none ∧ b.input.isObject = true ∧
        exceedsMaxDepth (utf8 (argumentsOf b.index evs)) maxJsonDepth = false := by
  have hperm := stopOrder_perm h
  have hcarries : ∀ b ∈ blocks, Carries lib (argumentsOf b.index evs) b.input := by
    intro b hb
    obtain ⟨fragments, hown, hcarries, -⟩ := h.own b hb
    rw [← argumentsOf_filter, hown, argumentsOf_script]
    exact hcarries
  have hcalls : (writeAll lib cap synthId evs []).flatMap callsIn =
      (stopOrder blocks evs).flatMap (fun b => [streamPart lib evs b]) := by
    rw [calls_written h, List.map_eq_flatMap]
  have hsingle : ∀ b : ToolCall, ∃ part, blockParts lib b.block = [part] := fun b => ⟨_, rfl⟩
  constructor
  · intro hsame b hb
    have hparts := hsame.parts
    rw [hcalls] at hparts
    refine (streamPart_eq_iff hdeep (hcarries b hb)).1 ?_
    have hall : ∀ bs : List ToolCall, bs.flatMap (fun b => [streamPart lib evs b]) =
        bs.flatMap (fun b => blockParts lib b.block) → ∀ b ∈ bs, [streamPart lib evs b] = blockParts lib b.block := by
      intro bs
      induction bs with
      | nil => exact fun _ => nofun
      | cons b bs ih =>
        intro heq b' hb'
        obtain ⟨part, hpart⟩ := hsingle b
        rw [List.flatMap_cons, List.flatMap_cons, hpart] at heq
        obtain ⟨hhead, htail⟩ := List.cons.inj heq
        rcases List.mem_cons.1 hb' with rfl | hb'
        · rw [hpart, hhead]
        · exact ih htail b' hb'
    exact hall _ hparts b (hperm.mem_iff.2 hb)
  · intro hgood
    have hparts : ∀ b ∈ stopOrder blocks evs, [streamPart lib evs b] = blockParts lib b.block := fun b hb =>
      (streamPart_eq_iff hdeep (hcarries b (hperm.mem_iff.1 hb))).2 (hgood b (hperm.mem_iff.1 hb))
    refine ⟨hperm, ?_, ?_⟩
    · rw [hcalls]
      exact List.flatMap_congr hparts
    · intro part hpart
      rw [hcalls] at hpart
      obtain ⟨b, hb, hmem⟩ := List.mem_flatMap.1 hpart
      rw [List.mem_singleton.1 hmem]
      obtain ⟨-, hobject, hdepth⟩ := hgood b (hperm.mem_iff.1 hb)
      have hargs := (flushArgs_eq_iff hdeep (hcarries b (hperm.mem_iff.1 hb))).2 ⟨hobject, hdepth⟩
      refine ⟨flushArgs lib (argumentsOf b.index evs), ?_, ?_⟩
      · simp [streamPart, functionCallPart, Json.get_object, Json.getMember_cons]
      · rw [hargs]
        exact isObject_coerceToolArgs lib _

def oneArgument : String := "\x7b\"a\":1\x7d"

/-- A library that reads two texts. -/
def smallLib : JsonLib where
  fromStr text :=
    if text = "null" then some .null
    else if text = oneArgument then some (.object [("a", .number (.posInt 1))]) else none
  fromSlice _ := none
  toVec _ := []

theorem smallLib_deepHolds : DeepHolds smallLib := by
  intro text v hread hdepth
  have hnull : exceedsMaxDepth (utf8 "null") maxJsonDepth = false := by decide +kernel
  have hone : exceedsMaxDepth (utf8 oneArgument) maxJsonDepth = false := by decide +kernel
  unfold smallLib at hread
  dsimp only at hread
  by_cases h : text = "null"
  · rw [h, hnull] at hdepth
    cases hdepth
  · by_cases h' : text = oneArgument
    · rw [h', hone] at hdepth
      cases hdepth
    · rw [if_neg h, if_neg h'] at hread
      cases hread

/-- Two calls side by side, with text between their events. -/
def twoCalls : List ToolCall :=
  [⟨1, "x", "f", .object [("a", .number (.posInt 1))], none⟩, ⟨2, "y", "g", .object [], none⟩]

def twoCallsEvents : List IrStreamEvent :=
  [.blockStart 1 (.toolUse "x" "f"), .blockStart 0 .text, .blockDelta 1 (.inputJson "\x7b\"a"),
    .blockStart 2 (.toolUse "y" "g"), .blockDelta 0 (.text "Hi"), .blockStop 2, .blockDelta 1 (.inputJson "\":1\x7d"),
    .blockStop 1]

theorem twoCalls_delivery : Delivery smallLib 7 twoCalls twoCallsEvents where
  distinct := by decide
  own := by
    intro b hb
    rcases List.mem_cons.1 hb with rfl | hb
    · exact ⟨["\x7b\"a", "\":1\x7d"], rfl, Or.inr ⟨by decide +kernel, rfl⟩, by decide +kernel⟩
    · rw [List.mem_singleton.1 hb]
      exact ⟨[], rfl, Or.inl ⟨rfl, rfl⟩, by decide +kernel⟩
  noOther := by
    intro index id name hmem
    simp only [twoCallsEvents, List.mem_cons, IrStreamEvent.blockStart.injEq, reduceCtorEq, false_or, and_false,
      List.not_mem_nil, or_false] at hmem
    rcases hmem with ⟨rfl, -⟩ | ⟨rfl, -⟩
    · decide
    · decide

theorem sameCalls_two : SameCalls smallLib twoCalls twoCallsEvents (writeAll smallLib 7 "" twoCallsEvents []) ↔
    ∀ b ∈ twoCalls, b.thoughtSignature = none ∧ b.input.isObject = true ∧
      exceedsMaxDepth (utf8 (argumentsOf b.index twoCallsEvents)) maxJsonDepth = false :=
  sameCalls_iff smallLib_deepHolds "" twoCalls_delivery

def nullCall : ToolCall := ⟨0, "x", "f", .null, none⟩

theorem nullCall_delivery : Delivery smallLib 4 [nullCall] (script nullCall ["nu", "ll"]) := by
  refine ⟨by decide, ?_, ?_⟩
  · intro b hb
    rw [List.mem_singleton.1 hb]
    exact ⟨["nu", "ll"], rfl, Or.inr ⟨by decide +kernel, rfl⟩, by decide +kernel⟩
  · intro index id name hmem
    simp only [script, nullCall, List.mem_append, List.mem_cons, IrStreamEvent.blockStart.injEq, List.map_cons,
      List.map_nil, reduceCtorEq, List.not_mem_nil, or_false] at hmem
    rw [hmem.1]
    decide

/-- Arguments that are `null` stay `null` in the stream, where the whole response has an empty object. -/
theorem null_kept : Delivery smallLib 4 [nullCall] (script nullCall ["nu", "ll"]) ∧
    ¬ SameCalls smallLib [nullCall] (script nullCall ["nu", "ll"])
      (writeAll smallLib 4 "" (script nullCall ["nu", "ll"]) []) := by
  refine ⟨nullCall_delivery, fun h => ?_⟩
  have hargs : flushArgs smallLib (argumentsOf 0 (script nullCall ["nu", "ll"])) = .null := by
    have htext : argumentsOf 0 (script nullCall ["nu", "ll"]) = "null" :=
      (argumentsOf_script nullCall _).trans (by decide +kernel)
    have hdepth : exceedsMaxDepth (utf8 "null") maxJsonDepth = false := by decide +kernel
    rw [htext]
    unfold flushArgs JsonLib.parseStr
    rw [if_neg (by decide), hdepth]
    rfl
  have hcalls : (writeAll smallLib 4 "" (script nullCall ["nu", "ll"]) []).flatMap callsIn = [functionCallPart "f" .null] := by
    have horder : stopOrder [nullCall] (script nullCall ["nu", "ll"]) = [nullCall] := rfl
    rw [calls_written nullCall_delivery, horder]
    exact congrArg (fun args => [functionCallPart "f" args]) hargs
  obtain ⟨args, hget, hobject⟩ := h.objects (functionCallPart "f" .null) (by rw [hcalls]; exact List.mem_singleton_self _)
  have hnull : ((functionCallPart "f" .null).get fieldFunctionCall).bind (Json.get "args") = some .null := rfl
  rw [hnull] at hget
  cases hget
  cases hobject

end Busbar.Gemini
