import Busbar.Proto.Course

/-!
# A Bedrock client's stream

The native wire ends with two frames, `messageStop` with the stop reason and `metadata` with the token usage. The
representation has one delta for both, so the framing splits it, and holds the metadata back for usage that is
still to come.

* `Bedrock.writer`: the stream writer.
* `Course.step_metadata`: what one event does to the two terminal frames.
* `StreamTranslate.metadata_once`: how often the two are sent, and in which order.
-/

namespace Busbar

namespace Bedrock

def etMessageStart : String := "messageStart"

def etContentBlockStart : String := "contentBlockStart"

def etContentBlockDelta : String := "contentBlockDelta"

def etContentBlockStop : String := "contentBlockStop"

def etMessageStop : String := "messageStop"

def excThrottling : String := "ThrottlingException"

def excValidation : String := "ValidationException"

def excServiceUnavailable : String := "ServiceUnavailableException"

/-- The members of the stream's own exception union. -/
def exceptionName : StatusClass → String
  | .rateLimit => excThrottling
  | .overloaded => excServiceUnavailable
  | .clientError | .contextLength => excValidation
  | .timeout => "ModelStreamErrorException"
  | .auth | .billing | .serverError | .network => excInternalServer

def bedrockStreamExceptionFor (err : IrError) : String × String :=
  (exceptionName err.cls, err.providerSignal.getD (exceptionName err.cls))

/-- A reason without a Converse spelling degrades to the end of the turn. -/
def stopReasonReverse : IrStopReason → String
  | .endTurn => "end_turn"
  | .toolUse => "tool_use"
  | .maxTokens => "max_tokens"
  | .stopSequence => "stop_sequence"
  | .safety => "content_filtered"
  | .refusal | .error | .pauseTurn | .other => "end_turn"

def count (n : Nat) : Json := .number (.posInt n)

/-- Counters the usage does not have are left out. -/
def writeCacheUsage (usageObj : List (String × Json)) (usage : IrUsage) : List (String × Json) :=
  let usageObj := optMember "cacheWriteInputTokens" (usage.cacheCreationInputTokens.map count) usageObj
  optMember "cacheReadInputTokens" (usage.cacheReadInputTokens.map count) usageObj

def usageObject (usage : IrUsage) : List (String × Json) :=
  let usageObj := Json.insertMember "inputTokens" (count usage.inputTokens) []
  let usageObj := Json.insertMember "outputTokens" (count usage.outputTokens) usageObj
  let total := min (usage.inputTokens + usage.outputTokens) (2 ^ 64 - 1)
  let usageObj := Json.insertMember "totalTokens" (count total) usageObj
  writeCacheUsage usageObj usage

/-- A frame about one content block. -/
def blockFrame (index : Nat) (members : List (String × Json)) : Json :=
  .object (("contentBlockIndex", count index) :: members)

/-- How a block opens; an image has no streaming start. -/
def blockStart : IrBlockMeta → Option (List (String × Json))
  | .text => some []
  | .toolUse id name => some [("toolUse", .object [("name", .string name), ("toolUseId", .string id)])]
  | .thinking => some [("reasoningContent", .object [])]
  | .image => none

/-- Citations and log probabilities have no streaming shape. -/
def blockDelta : IrDelta → Option (String × Json)
  | .text s => some ("text", .string s)
  | .inputJson s => some ("toolUse", .object [("input", .string s)])
  | .thinking s => some ("reasoningContent", .object [("text", .string s)])
  | .signature s => some ("reasoningContent", .object [("signature", .string s)])
  | .redactedReasoning s => some ("reasoningContent", .object [("redactedContent", .string s)])
  | .citations _ | .logprobs _ => none

/-- The state is the indices a start was written for, in order. -/
def writeResponseEvent (openBlocks : List Nat) : IrStreamEvent → Option (String × Json) × List Nat
  | .messageStart .. => (some (etMessageStart, .object [("role", .string "assistant")]), openBlocks)
  | .blockStart index block =>
    match blockStart block with
    | some start =>
      (some (etContentBlockStart, blockFrame index [("start", .object start)]),
        Translator.insertSorted index openBlocks)
    | none => (none, openBlocks)
  | .blockDelta index delta =>
    match blockDelta delta with
    | some delta => (some (etContentBlockDelta, blockFrame index [("delta", .object [delta])]), openBlocks)
    | none => (none, openBlocks)
  | .blockStop index =>
    if index ∈ openBlocks then
      (some (etContentBlockStop, blockFrame index []), openBlocks.filter (· ≠ index))
    else (none, openBlocks)
  | .messageDelta (some reason) _ _ =>
    (some (etMessageStop, .object [("stopReason", .string (stopReasonReverse reason))]), openBlocks)
  | .messageDelta none _ usage => (some (etMetadata, .object [("usage", .object (usageObject usage))]), openBlocks)
  | .messageStop => (none, openBlocks)
  | .error err =>
    let (name, message) := bedrockStreamExceptionFor err
    (some (name, .object [("message", .string message)]), openBlocks)

def writer : ProtocolWriter (List Nat) where
  writeResponseEvent := writeResponseEvent
  writeResponseException err := some (bedrockStreamExceptionFor err)
  ingressIsEventstream := true
  emitsSseDoneTerminator := false
  maxCitationsPerDelta := none
  framingKind := .bedrock

end Bedrock

/-! ## The two terminal events -/

namespace IrStreamEvent

def isStop : IrStreamEvent → Bool
  | messageDelta (some _) _ _ => true
  | _ => false

def isUsageOnly : IrStreamEvent → Bool
  | messageDelta none _ _ => true
  | _ => false

/-- What may come behind the stop of a well-formed stream. -/
def isTrailing : IrStreamEvent → Bool
  | messageDelta none _ _ | messageStop => true
  | _ => false

@[simp] theorem isDelta_remapEvent (name : String) (ev : IrStreamEvent) :
    Translator.isDelta (remapEvent name ev) = Translator.isDelta ev := by
  unfold remapEvent
  split <;> rfl

@[simp] theorem isStop_remapEvent (name : String) (ev : IrStreamEvent) : (remapEvent name ev).isStop = ev.isStop := by
  unfold remapEvent
  split <;> rfl

end IrStreamEvent

namespace Bedrock

/-- The type of what is written tells the two terminal deltas from all else, and they are always written. -/
theorem writeResponseEvent_kind (openBlocks : List Nat) (ev : IrStreamEvent) :
    match (writeResponseEvent openBlocks ev).1 with
    | none => ev.isUsageOnly = false ∧ ev.isStop = false
    | some (eventType, _) => decide (eventType = etMetadata) = ev.isUsageOnly ∧
        decide (eventType = etMessageStop) = ev.isStop ∧ ev ≠ .messageStop := by
  cases ev with
  | messageStart => exact ⟨rfl, rfl, nofun⟩
  | blockStart index block => cases block <;> simp [writeResponseEvent, blockStart, IrStreamEvent.isUsageOnly,
      IrStreamEvent.isStop, etContentBlockStart, etMetadata, etMessageStop]
  | blockDelta index delta => cases delta <;> simp [writeResponseEvent, blockDelta, IrStreamEvent.isUsageOnly,
      IrStreamEvent.isStop, etContentBlockDelta, etMetadata, etMessageStop]
  | blockStop index =>
    by_cases hi : index ∈ openBlocks <;> simp [writeResponseEvent, hi, IrStreamEvent.isUsageOnly,
      IrStreamEvent.isStop, etContentBlockStop, etMetadata, etMessageStop]
  | messageDelta stopReason => cases stopReason <;> exact ⟨rfl, rfl, nofun⟩
  | messageStop => exact ⟨rfl, rfl⟩
  | error err =>
    obtain ⟨cls, signal, retry⟩ := err
    cases cls <;> exact ⟨rfl, rfl, nofun⟩

end Bedrock

namespace Emission

def isStop : Emission → Bool
  | event ev => ev.isStop
  | _ => false

def isUsageOnly : Emission → Bool
  | event ev => ev.isUsageOnly
  | _ => false

/-- A Bedrock client gets no frame for a bare message stop. -/
def isSilent : Emission → Bool
  | event .messageStop => true
  | _ => false

end Emission

/-- The stop is sent, and so is the usage, or it will be at the end. -/
def BedrockStreamFraming.settled (fr : BedrockStreamFraming) : Bool := fr.emitted || fr.pending

namespace Course

variable {D W : Type} {cfg : StreamConfig D W}

/-- A stream on Bedrock's framing. -/
structure Metadata (c : Course) (fr : BedrockStreamFraming) : Prop where
  ending : c.ending = .metadata fr
  pending : c.pendingTerminal = none

/-- How often the usage and the stop are among the emissions. -/
def usages (ems : List Emission) : Nat := ems.countP Emission.isUsageOnly

def stops (ems : List Emission) : Nat := ems.countP Emission.isStop

@[simp] theorem usages_append (ems ems' : List Emission) : usages (ems ++ ems') = usages ems + usages ems' :=
  List.countP_append

@[simp] theorem stops_append (ems ems' : List Emission) : stops (ems ++ ems') = stops ems + stops ems' :=
  List.countP_append

theorem emit_metadata {c : Course} {fr : BedrockStreamFraming} (h : c.Metadata fr) (evs : List IrStreamEvent) :
    (c.emit evs).1.Metadata fr := by
  induction evs generalizing c with
  | nil => exact h
  | cons ev evs ih =>
    refine ih (c := c.track ev) ?_
    cases ev <;> exact ⟨h.ending, h.pending⟩

/-- Closing blocks sends neither. -/
theorem close_free (c : Course) : usages c.close.2 = 0 ∧ stops c.close.2 = 0 := by
  have hstop : ∀ em ∈ c.close.2, ∃ i, em = .event (.blockStop i) := by
    intro em hem
    simp only [close, emit, List.map_map, List.mem_map, Function.comp_apply] at hem
    obtain ⟨i, -, rfl⟩ := hem
    exact ⟨i, rfl⟩
  refine ⟨List.countP_eq_zero.2 fun em hem => ?_, List.countP_eq_zero.2 fun em hem => ?_⟩
  · obtain ⟨i, rfl⟩ := hstop em hem
    exact Bool.false_ne_true
  · obtain ⟨i, rfl⟩ := hstop em hem
    exact Bool.false_ne_true

theorem close_metadata {c : Course} {fr : BedrockStreamFraming} (h : c.Metadata fr) : c.close.1.Metadata fr :=
  emit_metadata (c := { c with openBlocks := [] }) ⟨h.ending, h.pending⟩ _

/-- From `fr` to `fr'`, with the emissions `out` for events of which `stopped` are stops. -/
structure Settles (fr : BedrockStreamFraming) (stopped : Nat) (fr' : BedrockStreamFraming) (out : List Emission) :
    Prop where
  usages : usages out + fr.emitted.toNat = fr'.emitted.toNat
  stops : stops out = stopped
  settled : fr.settled = true ∨ 0 < stopped → fr'.settled = true

theorem Settles.refl {fr : BedrockStreamFraming} {out : List Emission} (hu : Course.usages out = 0)
    (hs : Course.stops out = 0) : Settles fr 0 fr out :=
  ⟨by rw [hu, Nat.zero_add], hs, fun h => h.resolve_right (Nat.lt_irrefl 0)⟩

theorem Settles.append {fr fr₁ fr₂ : BedrockStreamFraming} {n₁ n₂ : Nat} {out₁ out₂ : List Emission}
    (h₁ : Settles fr n₁ fr₁ out₁) (h₂ : Settles fr₁ n₂ fr₂ out₂) : Settles fr (n₁ + n₂) fr₂ (out₁ ++ out₂) := by
  refine ⟨?_, ?_, fun h => ?_⟩
  · have hu₁ := h₁.usages
    have hu₂ := h₂.usages
    rw [usages_append]
    omega
  · rw [stops_append, h₁.stops, h₂.stops]
  · rcases h with hset | hpos
    · exact h₂.settled (Or.inl (h₁.settled (Or.inl hset)))
    rcases Nat.eq_zero_or_pos n₁ with hz | hpos₁
    · exact h₂.settled (Or.inr (by omega))
    · exact h₂.settled (Or.inl (h₁.settled (Or.inr hpos₁)))

theorem usages_singleton (ev : IrStreamEvent) : usages [.event ev] = ev.isUsageOnly.toNat := by
  cases h : ev.isUsageOnly <;> simp [usages, Emission.isUsageOnly, h]

theorem stops_singleton (ev : IrStreamEvent) : stops [.event ev] = ev.isStop.toNat := by
  cases h : ev.isStop <;> simp [stops, Emission.isStop, h]

/-- The pieces of a fanned-out citation are neither a stop nor a usage. -/
theorem citationFanOut_other {ev : IrStreamEvent} {events : List IrStreamEvent}
    (h : Translator.citationFanOut cfg ev = some events) :
    ∀ e ∈ events, e.isStop = false ∧ e.isUsageOnly = false := by
  unfold Translator.citationFanOut at h
  split at h
  · split at h
    · cases h
      intro e he
      simp only [List.mem_map] at he
      obtain ⟨group, -, rfl⟩ := he
      exact ⟨rfl, rfl⟩
    · cases h
  · cases h

variable (cfg) in
/-- An event that is no delta sends neither. -/
theorem plain_free (c : Course) {ev : IrStreamEvent} (hd : Translator.isDelta ev = false) :
    usages (c.plain cfg ev).2 = 0 ∧ stops (c.plain cfg ev).2 = 0 := by
  have hs : ev.isStop = false := by
    cases ev <;> first | rfl | simp [Translator.isDelta] at hd
  have hu : ev.isUsageOnly = false := by
    cases ev <;> first | rfl | simp [Translator.isDelta] at hd
  have hone : usages [.event ev] = 0 ∧ stops [.event ev] = 0 := by
    rw [usages_singleton, stops_singleton, hu, hs]
    exact ⟨rfl, rfl⟩
  unfold plain
  split
  · exact ⟨rfl, rfl⟩
  cases hfan : Translator.citationFanOut cfg ev with
  | some events =>
    have hother := citationFanOut_other hfan
    have hout : usages (events.map .event) = 0 ∧ stops (events.map .event) = 0 := by
      refine ⟨List.countP_eq_zero.2 fun em hem => ?_, List.countP_eq_zero.2 fun em hem => ?_⟩
      · obtain ⟨e, he, rfl⟩ := List.mem_map.1 hem
        simp [Emission.isUsageOnly, (hother e he).2]
      · obtain ⟨e, he, rfl⟩ := List.mem_map.1 hem
        simp [Emission.isStop, (hother e he).1]
    cases ev <;> exact hout
  | none =>
    cases ev with
    | messageStart =>
      dsimp only
      split <;> exact ⟨rfl, rfl⟩
    | _ => exact hone

variable (cfg) in
/-- And it leaves the framing alone. -/
theorem plain_metadata {c : Course} {fr : BedrockStreamFraming} (h : c.Metadata fr) (ev : IrStreamEvent)
    (hd : Translator.isDelta ev = false) :
    (c.plain cfg ev).1.Metadata fr ∧ Settles fr 0 fr (c.plain cfg ev).2 := by
  obtain ⟨hu, hs⟩ := plain_free cfg c hd
  refine ⟨?_, Settles.refl hu hs⟩
  unfold plain
  split
  · exact h
  have hstop : ({ c with messageStopped := true } : Course).Metadata fr := ⟨h.ending, h.pending⟩
  cases Translator.citationFanOut cfg ev with
  | some events => cases ev <;> first | exact emit_metadata hstop _ | exact emit_metadata h _
  | none => cases ev <;> first | exact h | exact emit_metadata hstop _ | exact emit_metadata h _

theorem answer_stop {c : Course} {fr : BedrockStreamFraming} (h : c.Metadata fr) (reason : IrStopReason)
    (seq : Option String) (usage : IrUsage) :
    c.answer cfg (.messageDelta (some reason) seq usage) =
      ({ c with ending := .metadata (fr.onCombinedStopDelta reason seq usage).2 } : Course).emit
        (fr.onCombinedStopDelta reason seq usage).1 := by
  simp only [answer, h.ending]

theorem answer_usage {c : Course} {fr : BedrockStreamFraming} (h : c.Metadata fr) (seq : Option String)
    (usage : IrUsage) : c.answer cfg (.messageDelta none seq usage) =
      if fr.emitted then (c, [])
      else ({ c with ending := .metadata ⟨true, false⟩ } : Course).emit [.messageDelta none seq usage] := by
  simp only [answer, h.ending, BedrockStreamFraming.onUsageOnlyDelta]
  by_cases he : fr.emitted = true
  · simp only [he, if_true, Bool.false_eq_true, if_false, ← h.ending]
  · simp only [he, if_false, if_true, Bool.false_eq_true]

theorem answer_other {c : Course} {fr : BedrockStreamFraming} (h : c.Metadata fr) {ev : IrStreamEvent}
    (hd : Translator.isDelta ev = false) : c.answer cfg ev = c.plain cfg ev := by
  simp only [answer, h.ending, h.pending]
  cases ev with
  | messageDelta => simp [Translator.isDelta] at hd
  | _ => rfl

/-- The stop goes out every time, the usage with the first stop that carries some. -/
theorem settles_stop (fr : BedrockStreamFraming) (reason : IrStopReason) (seq : Option String) (usage : IrUsage) :
    Settles fr 1 (fr.onCombinedStopDelta reason seq usage).2
      ((fr.onCombinedStopDelta reason seq usage).1.map .event) := by
  unfold BedrockStreamFraming.onCombinedStopDelta
  by_cases he : fr.emitted = true
  · rw [if_pos he]
    refine ⟨?_, rfl, fun _ => ?_⟩
    · exact Nat.zero_add _
    · simp [BedrockStreamFraming.settled, he]
  rw [if_neg he]
  have hne : fr.emitted = false := by simpa using he
  by_cases hr : usage.isReal = true
  · rw [if_pos hr]
    refine ⟨?_, rfl, fun _ => rfl⟩
    rw [hne]
    rfl
  · rw [if_neg hr]
    refine ⟨?_, rfl, fun _ => ?_⟩
    · exact Nat.zero_add _
    · simp [BedrockStreamFraming.settled]

variable (cfg) in
/-- What the framing makes of an event behind the closed blocks. -/
theorem answer_metadata {c : Course} {fr : BedrockStreamFraming} (h : c.Metadata fr) (ev : IrStreamEvent) :
    ∃ fr', (c.answer cfg ev).1.Metadata fr' ∧ Settles fr ev.isStop.toNat fr' (c.answer cfg ev).2 ∧
      (Translator.isDelta ev = false → fr' = fr) := by
  by_cases hd : Translator.isDelta ev = true
  swap
  · have hd : Translator.isDelta ev = false := by simpa using hd
    have hstop : ev.isStop = false := by
      cases ev <;> first | rfl | simp [Translator.isDelta] at hd
    obtain ⟨hplain, hset⟩ := plain_metadata cfg h ev hd
    rw [answer_other h hd, hstop]
    exact ⟨fr, hplain, hset, fun _ => rfl⟩
  simp only [hd, Bool.true_eq_false, false_implies, and_true]
  cases ev with
  | messageDelta stopReason seq usage =>
    cases stopReason with
    | some reason =>
      rw [answer_stop h]
      exact ⟨_, emit_metadata (c := { c with ending := _ }) ⟨rfl, h.pending⟩ _, settles_stop fr reason seq usage⟩
    | none =>
      rw [answer_usage h]
      by_cases he : fr.emitted = true
      · rw [if_pos he]
        exact ⟨fr, h, Settles.refl rfl rfl⟩
      · have hne : fr.emitted = false := by simpa using he
        rw [if_neg he]
        refine ⟨⟨true, false⟩, emit_metadata (c := { c with ending := _ }) ⟨rfl, h.pending⟩ _, ?_, rfl, fun _ => rfl⟩
        rw [hne]
        rfl
  | _ => simp [Translator.isDelta] at hd

theorem observe_metadata {c : Course} {fr : BedrockStreamFraming} (h : c.Metadata fr) (ev : IrStreamEvent) :
    (c.observe ev).1.Metadata fr ∧ (c.observe ev).2.isStop = ev.isStop ∧
      Translator.isDelta (c.observe ev).2 = Translator.isDelta ev := by
  cases ev with
  | messageDelta stopReason seq usage => cases stopReason <;> exact ⟨⟨h.ending, h.pending⟩, rfl, rfl⟩
  | _ => exact ⟨⟨h.ending, h.pending⟩, rfl, rfl⟩

variable (cfg) in
/-- **What one event does to the two terminal frames.** -/
theorem step_metadata {c : Course} {fr : BedrockStreamFraming} (h : c.Metadata fr) (ev : IrStreamEvent) :
    ∃ fr', (c.step cfg ev).1.Metadata fr' ∧ Settles fr ev.isStop.toNat fr' (c.step cfg ev).2 ∧
      (Translator.isDelta ev = false → fr' = fr) := by
  obtain ⟨hseen, hstop, hdelta⟩ := observe_metadata h (remapEvent cfg.ingress.name ev)
  rw [IrStreamEvent.isStop_remapEvent] at hstop
  rw [IrStreamEvent.isDelta_remapEvent] at hdelta
  unfold step
  generalize c.observe (remapEvent cfg.ingress.name ev) = seen at hseen hstop hdelta ⊢
  obtain ⟨c₁, ev₁⟩ := seen
  dsimp only at hseen hstop hdelta ⊢
  rw [← hstop, ← hdelta]
  cases hexc : exception cfg ev₁ with
  | some p =>
    have hnot : ev₁.isStop = false := by
      cases ev₁ <;> first | rfl | simp [exception] at hexc
    rw [hnot]
    exact ⟨fr, hseen, Settles.refl rfl rfl, fun _ => rfl⟩
  | none =>
    obtain ⟨hcu, hcs⟩ := close_free c₁
    have hclose := close_metadata hseen
    dsimp only
    split
    · obtain ⟨fr', hans, hset, hsame⟩ := answer_metadata cfg hclose ev₁
      have happ := (Settles.refl hcu hcs).append hset
      rw [Nat.zero_add] at happ
      exact ⟨fr', hans, happ, hsame⟩
    · exact answer_metadata cfg hseen ev₁

variable (cfg) in
theorem run_metadata {c : Course} {fr : BedrockStreamFraming} (h : c.Metadata fr) (evs : List IrStreamEvent) :
    ∃ fr', (c.run cfg evs).1.Metadata fr' ∧
      Settles fr (evs.countP IrStreamEvent.isStop) fr' (c.run cfg evs).2 ∧
      ((∀ ev ∈ evs, Translator.isDelta ev = false) → fr' = fr) := by
  induction evs generalizing c fr with
  | nil => exact ⟨fr, h, Settles.refl rfl rfl, fun _ => rfl⟩
  | cons ev evs ih =>
    obtain ⟨fr₁, h₁, hset₁, hsame₁⟩ := step_metadata cfg h ev
    obtain ⟨fr₂, h₂, hset₂, hsame₂⟩ := ih h₁
    refine ⟨fr₂, h₂, ?_, fun hq => ?_⟩
    · have hcount : (ev :: evs).countP IrStreamEvent.isStop =
          ev.isStop.toNat + evs.countP IrStreamEvent.isStop := by
        rw [List.countP_cons, Nat.add_comm]
        cases ev.isStop <;> rfl
      rw [hcount]
      exact hset₁.append hset₂
    · rw [hsame₂ fun e he => hq e (List.mem_cons_of_mem _ he), hsame₁ (hq ev List.mem_cons_self)]

/-- The end closes what is open and sends the usage that is still owed. -/
theorem finish_emissions {c : Course} {fr : BedrockStreamFraming} (h : c.Metadata fr) :
    c.finish.2 = c.close.2 ++ fr.onFinish.1.toList.map .event := by
  have hclose := close_metadata h
  have howed : c.close.1.owed = ({ c.close.1 with ending := .metadata fr.onFinish.2 }, fr.onFinish.1.toList) := by
    simp only [owed, hclose.ending]
  have hpend : (c.close.1.owed.1.emit c.close.1.owed.2).1.pendingEvents = [] := by
    have hm : c.close.1.owed.1.Metadata fr.onFinish.2 := by
      rw [howed]
      exact ⟨rfl, hclose.pending⟩
    simp only [pendingEvents, (emit_metadata hm _).pending]
  simp only [finish, hpend]
  rw [howed]
  simp only [emit, List.map_nil, List.append_nil]

theorem finish_metadata {c : Course} {fr : BedrockStreamFraming} (h : c.Metadata fr) :
    usages c.finish.2 + fr.emitted.toNat = fr.settled.toNat ∧ stops c.finish.2 = 0 := by
  obtain ⟨hcu, hcs⟩ := close_free c
  rw [finish_emissions h, usages_append, stops_append, hcu, hcs]
  unfold BedrockStreamFraming.onFinish BedrockStreamFraming.settled
  cases fr.pending <;> cases fr.emitted <;> exact ⟨rfl, rfl⟩

variable (cfg) in
/-- Wherever the stops and the usage stand: the usage once, the stop as often as there is one. -/
theorem whole_metadata {c : Course} (h : c.Metadata ⟨false, false⟩) {evs : List IrStreamEvent}
    (hstop : 0 < evs.countP IrStreamEvent.isStop) :
    usages (c.whole cfg evs false) = 1 ∧ stops (c.whole cfg evs false) = evs.countP IrStreamEvent.isStop := by
  obtain ⟨fr, hrun, hset, -⟩ := run_metadata cfg h evs
  obtain ⟨hfu, hfs⟩ := finish_metadata hrun
  have hu := hset.usages
  rw [hset.settled (Or.inr hstop)] at hfu
  simp only [whole, Bool.false_eq_true, if_false, usages_append, stops_append, hset.stops, hfs]
  simp only [Bool.toNat_false, Bool.toNat_true] at hu hfu
  omega

/-! ## The end of a well-formed stream -/

variable (cfg) in
/-- Behind the stop, with no block open, trailing events send the usage and nothing else. -/
theorem step_trailing {c : Course} {fr : BedrockStreamFraming} (h : c.Metadata fr) (ho : c.openBlocks = [])
    {ev : IrStreamEvent} (ht : ev.isTrailing = true) :
    (c.step cfg ev).1.openBlocks = [] ∧ ∀ em ∈ (c.step cfg ev).2, em.isUsageOnly = true ∨ em.isSilent = true := by
  cases ev with
  | messageDelta stopReason seq usage =>
    cases stopReason with
    | some reason => simp [IrStreamEvent.isTrailing] at ht
    | none =>
      simp only [step, remapEvent, observe, exception, Translator.isTerminal, Bool.false_eq_true, if_false,
        List.nil_append]
      have hseen : ({ c with
          lastUsage := some (mergeTrailingUsage (c.lastUsage.getD .zero) (usage.backfill c.startUsage)) } :
            Course).Metadata fr := ⟨h.ending, h.pending⟩
      rw [answer_usage hseen]
      split
      · exact ⟨ho, fun em hem => by simp at hem⟩
      · refine ⟨ho, fun em hem => ?_⟩
        simp only [emit, List.map_cons, List.map_nil, List.mem_singleton] at hem
        exact Or.inl (by rw [hem]; rfl)
  | messageStop =>
    have hfan : Translator.citationFanOut cfg .messageStop = none := by
      unfold Translator.citationFanOut
      split <;> simp_all
    simp only [step, remapEvent, observe, exception, Translator.isTerminal, if_true, close_idle ho, List.nil_append]
    rw [answer_other (close_metadata h) rfl]
    simp only [plain, hfan, Translator.isDelta, Bool.and_false, Bool.false_eq_true, if_false]
    refine ⟨close_openBlocks c, fun em hem => ?_⟩
    simp only [emit, List.map_cons, List.map_nil, List.mem_singleton] at hem
    exact Or.inr (by rw [hem]; rfl)
  | _ => simp [IrStreamEvent.isTrailing] at ht

variable (cfg) in
theorem run_trailing {c : Course} {fr : BedrockStreamFraming} (h : c.Metadata fr) (ho : c.openBlocks = [])
    {evs : List IrStreamEvent} (ht : ∀ ev ∈ evs, ev.isTrailing = true) :
    (c.run cfg evs).1.openBlocks = [] ∧
      ∀ em ∈ (c.run cfg evs).2, em.isUsageOnly = true ∨ em.isSilent = true := by
  induction evs generalizing c fr with
  | nil => exact ⟨ho, fun em hem => by simp [run] at hem⟩
  | cons ev evs ih =>
    obtain ⟨fr₁, h₁, -⟩ := step_metadata cfg h ev
    obtain ⟨ho₁, hout₁⟩ := step_trailing cfg h ho (ht ev List.mem_cons_self)
    obtain ⟨ho₂, hout₂⟩ := ih h₁ ho₁ fun e he => ht e (List.mem_cons_of_mem _ he)
    refine ⟨ho₂, fun em hem => ?_⟩
    rcases List.mem_append.1 hem with hhead | htail
    · exact hout₁ em hhead
    · exact hout₂ em htail

variable (cfg) in
/-- A stop closes the blocks, and goes out as the framing splits it. -/
theorem step_stop_eq {c : Course} {fr : BedrockStreamFraming} (h : c.Metadata fr) (reason : IrStopReason)
    (seq : Option String) (usage : IrUsage) :
    let split := fr.onCombinedStopDelta reason seq (usage.backfill c.startUsage)
    ∃ c₁ : Course, c.step cfg (.messageDelta (some reason) seq usage) =
        ((c₁.emit split.1).1, c.close.2 ++ split.1.map .event) ∧ c₁.Metadata split.2 ∧ c₁.openBlocks = [] := by
  intro split
  obtain ⟨c₁, hc₁⟩ : ∃ c₁, c₁ = (c.observe (.messageDelta (some reason) seq usage)).1 := ⟨_, rfl⟩
  have hm : c₁.close.1.Metadata fr := by
    rw [hc₁]
    exact close_metadata (observe_metadata h _).1
  have hclosed : c₁.close.2 = c.close.2 := by
    rw [hc₁]
    rfl
  have hr : c.step cfg (.messageDelta (some reason) seq usage) =
      ((c₁.close.1.answer cfg (.messageDelta (some reason) seq (usage.backfill c.startUsage))).1,
      c₁.close.2 ++ (c₁.close.1.answer cfg (.messageDelta (some reason) seq (usage.backfill c.startUsage))).2) := by
    rw [hc₁]
    rfl
  refine ⟨{ c₁.close.1 with ending := .metadata split.2 }, ?_, ⟨rfl, hm.pending⟩, close_openBlocks c₁⟩
  rw [hr, hclosed, answer_stop hm]
  rfl

variable (cfg) in
/-- Behind the stop, which takes its usage along, nothing is open. -/
theorem step_stop {c : Course} {fr : BedrockStreamFraming} (h : c.Metadata fr) (reason : IrStopReason)
    (seq : Option String) (usage : IrUsage) :
    let r := c.step cfg (.messageDelta (some reason) seq usage)
    ∃ rest, r.2 = c.close.2 ++ .event (.messageDelta (some reason) seq .zero) :: rest ∧
      (∀ em ∈ rest, em.isUsageOnly = true) ∧ r.1.openBlocks = [] := by
  intro r
  obtain ⟨c₁, hr, -, hopen⟩ := step_stop_eq cfg h reason seq usage
  simp only [r, hr]
  unfold BedrockStreamFraming.onCombinedStopDelta
  by_cases he : fr.emitted = true
  · rw [if_pos he]
    exact ⟨[], rfl, fun em hem => by simp at hem, hopen⟩
  rw [if_neg he]
  by_cases hreal : (usage.backfill c.startUsage).isReal = true
  · rw [if_pos hreal]
    refine ⟨[.event (.messageDelta none seq (usage.backfill c.startUsage))], rfl, fun em hem => ?_, hopen⟩
    rw [List.mem_singleton.1 hem]
    rfl
  · rw [if_neg hreal]
    exact ⟨[], rfl, fun em hem => by simp at hem, hopen⟩

variable (cfg) in
/-- A usage without a stop goes out if none has. -/
theorem step_usage_eq {c : Course} {fr : BedrockStreamFraming} (h : c.Metadata fr) (seq : Option String)
    (usage : IrUsage) :
    ∃ c₁ : Course, c.step cfg (.messageDelta none seq usage) =
        (c₁, if fr.emitted then [] else [.event (.messageDelta none seq (usage.backfill c.startUsage))]) ∧
      c₁.Metadata (if fr.emitted then fr else ⟨true, false⟩) := by
  have hseen : ({ c with lastUsage := some (mergeTrailingUsage (c.lastUsage.getD .zero)
      (usage.backfill c.startUsage)) } : Course).Metadata fr := ⟨h.ending, h.pending⟩
  simp only [step, remapEvent, observe, exception, Translator.isTerminal, Bool.false_eq_true, if_false,
    List.nil_append]
  rw [answer_usage hseen]
  by_cases he : fr.emitted = true
  · simp only [if_pos he]
    exact ⟨_, rfl, hseen⟩
  · simp only [if_neg he]
    exact ⟨_, rfl, ⟨rfl, h.pending⟩⟩

theorem finish_trailing {c : Course} {fr : BedrockStreamFraming} (h : c.Metadata fr) (ho : c.openBlocks = []) :
    ∀ em ∈ c.finish.2, em.isUsageOnly = true := by
  rw [finish_emissions h, close_idle ho, List.nil_append]
  unfold BedrockStreamFraming.onFinish
  split
  · exact fun em hem => by simp at hem
  · intro em hem
    rw [Option.toList_some, List.map_cons, List.map_nil, List.mem_singleton] at hem
    rw [hem]
    rfl

variable (cfg) in
/-- A first stop with no delta ahead of it: the usage comes behind it, and behind the stop there is nothing but
the usage if only trailing events are. -/
theorem whole_stop {c : Course} (h : c.Metadata ⟨false, false⟩) {before : List IrStreamEvent}
    {stop : IrStreamEvent} (after : List IrStreamEvent) (hstop : stop.isStop = true)
    (hq : ∀ ev ∈ before, Translator.isDelta ev = false) :
    ∃ ahead sent behind, c.whole cfg (before ++ stop :: after) false = ahead ++ sent :: behind ∧
      sent.isStop = true ∧ usages behind = 1 ∧ ((∀ ev ∈ after, ev.isTrailing = true) →
        ∀ em ∈ behind, em.isUsageOnly = true ∨ em.isSilent = true) := by
  obtain ⟨fr, hrun, hset, hsame⟩ := run_metadata cfg h before
  rw [hsame hq] at hrun hset
  have hzero : usages (c.run cfg before).2 = 0 := by simpa using hset.usages
  have hpos : 0 < (before ++ stop :: after).countP IrStreamEvent.isStop :=
    List.countP_pos_iff.2 ⟨stop, by simp, hstop⟩
  have htotal := (whole_metadata cfg h hpos).1
  cases stop with
  | messageDelta stopReason seq usage =>
    cases stopReason with
    | none => simp [IrStreamEvent.isStop] at hstop
    | some reason =>
      obtain ⟨rest, hout, hrest, hopen⟩ := step_stop cfg hrun reason seq usage
      obtain ⟨fr₂, hm₂, -⟩ := step_metadata cfg hrun (.messageDelta (some reason) seq usage)
      have hcu := (close_free (c.run cfg before).1).1
      set c₁ := (c.run cfg before).1 with hc₁
      set c₂ := (c₁.step cfg (.messageDelta (some reason) seq usage)).1 with hc₂
      obtain ⟨fr₃, hm₃, -⟩ := run_metadata cfg hm₂ after
      have hwhole : c.whole cfg (before ++ .messageDelta (some reason) seq usage :: after) false =
          ((c.run cfg before).2 ++ c₁.close.2) ++ .event (.messageDelta (some reason) seq .zero) ::
            (rest ++ (c₂.run cfg after).2 ++ (c₂.run cfg after).1.finish.2) := by
        simp only [whole, run_append, run, ← hc₁, ← hc₂, hout, Bool.false_eq_true, if_false, List.append_assoc,
          List.cons_append]
      refine ⟨_, _, _, hwhole, rfl, ?_, fun ht em hem => ?_⟩
      · rw [hwhole, usages_append, usages_append, hzero, hcu] at htotal
        simpa [usages, Emission.isUsageOnly, IrStreamEvent.isUsageOnly] using htotal
      · obtain ⟨hopen₃, htail⟩ := run_trailing cfg hm₂ hopen ht
        rcases List.mem_append.1 hem with hem | hem
        · rcases List.mem_append.1 hem with hem | hem
          · exact Or.inl (hrest em hem)
          · exact htail em hem
        · exact Or.inl (finish_trailing hm₃ hopen₃ em hem)
  | _ => simp [IrStreamEvent.isStop] at hstop

end Course

/-! ## Frames -/

namespace ClientFrame

def eventType : ClientFrame → Option String
  | event eventType _ => some eventType
  | _ => none

def isEvent (name : String) (f : ClientFrame) : Bool := f.eventType = some name

end ClientFrame

/-- The client speaks Bedrock. -/
structure StreamConfig.BedrockClient {D : Type} (cfg : StreamConfig D (List Nat)) : Prop where
  writer : cfg.ingress.writer = Bedrock.writer
  binary : cfg.ingressEventstream = true

namespace Pen

variable {D : Type} {cfg : StreamConfig D (List Nat)} (elapsed : Option Nat)

theorem finishChunk_binary (h : cfg.ingressEventstream = true) (nib : Nib) (eventType : String) (data : Json) :
    ∃ data', (finishChunk elapsed cfg nib eventType data).2 = [.event eventType data'] := by
  unfold finishChunk
  rw [if_pos h]
  cases nib <;> exact ⟨_, rfl⟩

/-- An emission is one frame or none, and a frame shows which of the terminal two it is. -/
theorem write_bedrock (h : cfg.BedrockClient) (p : Pen (List Nat)) (em : Emission) :
    let frames := (p.write elapsed cfg em).2
    frames.countP (ClientFrame.isEvent etMetadata) = em.isUsageOnly.toNat ∧
      frames.countP (ClientFrame.isEvent Bedrock.etMessageStop) = em.isStop.toNat ∧ frames.length ≤ 1 ∧
      (em.isSilent = true → frames = []) := by
  cases em with
  | exception name message => exact ⟨rfl, rfl, le_rfl, fun h => by simp [Emission.isSilent] at h⟩
  | ping => exact ⟨rfl, rfl, le_rfl, fun h => by simp [Emission.isSilent] at h⟩
  | event ev =>
    have hkind := Bedrock.writeResponseEvent_kind p.writer ev
    rcases hw : Bedrock.writeResponseEvent p.writer ev with ⟨_ | ⟨eventType, data⟩, writer'⟩
    · have hnone : (p.write elapsed cfg (.event ev)).2 = [] := by
        simp only [write, h.writer, Bedrock.writer, hw]
      rw [hw] at hkind
      rw [hnone]
      simp [Emission.isUsageOnly, Emission.isStop, hkind.1, hkind.2]
    · obtain ⟨data', hd⟩ := finishChunk_binary elapsed h.binary p.nib eventType data
      have hsome : (p.write elapsed cfg (.event ev)).2 = [.event eventType data'] := by
        simp only [write, h.writer, Bedrock.writer, hw, hd]
      rw [hw] at hkind
      obtain ⟨hu, hs, hne⟩ := hkind
      have hsilent : (Emission.event ev).isSilent = false := by
        cases ev <;> first | rfl | exact absurd rfl hne
      rw [hsome, hsilent]
      simp only [Emission.isUsageOnly, Emission.isStop, ← hu, ← hs, List.countP_singleton, ClientFrame.isEvent,
        ClientFrame.eventType, Option.some.injEq]
      refine ⟨?_, ?_, le_rfl, fun h => by cases h⟩
      · by_cases he : eventType = etMetadata <;> simp [he]
      · by_cases he : eventType = Bedrock.etMessageStop <;> simp [he]

/-- The terminal frames are as many as the terminal emissions. -/
theorem writeAll_bedrock (h : cfg.BedrockClient) (p : Pen (List Nat)) (ems : List Emission) :
    let frames := (p.writeAll elapsed cfg ems).2
    frames.countP (ClientFrame.isEvent etMetadata) = Course.usages ems ∧
      frames.countP (ClientFrame.isEvent Bedrock.etMessageStop) = Course.stops ems ∧
      ((∀ em ∈ ems, em.isSilent = true) → frames = []) := by
  induction ems generalizing p with
  | nil => exact ⟨rfl, rfl, fun _ => rfl⟩
  | cons em ems ih =>
    obtain ⟨hu, hs, -, hsilent⟩ := write_bedrock elapsed h p em
    obtain ⟨ihu, ihs, ihsilent⟩ := ih (p.write elapsed cfg em).1
    have hcount : ∀ f : Emission → Bool, (em :: ems).countP f = (f em).toNat + ems.countP f := fun f => by
      rw [List.countP_cons, Nat.add_comm]
      cases f em <;> rfl
    simp only [writeAll]
    refine ⟨?_, ?_, fun hall => ?_⟩
    · rw [List.countP_append, hu, ihu, Course.usages, Course.usages, hcount]
    · rw [List.countP_append, hs, ihs, Course.stops, Course.stops, hcount]
    · rw [hsilent (hall em List.mem_cons_self), ihsilent fun e he => hall e (List.mem_cons_of_mem _ he),
        List.nil_append]

/-- The one usage behind a stop: its frame is behind the stop's, and last if only silent emissions follow. -/
theorem writeAll_behind (h : cfg.BedrockClient) (p : Pen (List Nat)) (ahead : List Emission) {sent : Emission}
    {behind : List Emission} (hsent : sent.isStop = true) (hone : Course.usages behind = 1) :
    ∃ before metadata after, (p.writeAll elapsed cfg (ahead ++ sent :: behind)).2 = before ++ metadata :: after ∧
      metadata.isEvent etMetadata = true ∧ (∃ f ∈ before, f.isEvent Bedrock.etMessageStop = true) ∧
      ((∀ em ∈ behind, em.isUsageOnly = true ∨ em.isSilent = true) → after = []) := by
  have hpos : 0 < behind.countP Emission.isUsageOnly := by
    rw [← Course.usages, hone]
    exact Nat.one_pos
  obtain ⟨usage, hmem, husage⟩ := List.countP_pos_iff.1 hpos
  obtain ⟨mid, rest, rfl⟩ := List.append_of_mem hmem
  have hrest : Course.usages rest = 0 := by
    simp only [Course.usages, List.countP_append, List.countP_cons, husage, if_true] at hone ⊢
    omega
  obtain ⟨p₁, hp₁⟩ : ∃ p₁, p₁ = (p.writeAll elapsed cfg ahead).1 := ⟨_, rfl⟩
  obtain ⟨p₂, hp₂⟩ : ∃ p₂, p₂ = (p₁.write elapsed cfg sent).1 := ⟨_, rfl⟩
  obtain ⟨p₃, hp₃⟩ : ∃ p₃, p₃ = (p₂.writeAll elapsed cfg mid).1 := ⟨_, rfl⟩
  obtain ⟨-, hstop, -, -⟩ := write_bedrock elapsed h p₁ sent
  obtain ⟨hmeta, -, hlen, -⟩ := write_bedrock elapsed h p₃ usage
  obtain ⟨-, -, hsilent⟩ := writeAll_bedrock elapsed h (p₃.write elapsed cfg usage).1 rest
  rw [hsent] at hstop
  rw [husage] at hmeta
  obtain ⟨f, hf, hfstop⟩ := List.countP_pos_iff.1 (by rw [hstop]; exact Nat.one_pos)
  obtain ⟨m, hm, hmmeta⟩ := List.countP_pos_iff.1 (by rw [hmeta]; exact Nat.one_pos)
  have hsingle : (p₃.write elapsed cfg usage).2 = [m] := by
    obtain ⟨x, hx⟩ := List.length_eq_one_iff.1 (le_antisymm hlen (List.length_pos_of_mem hm))
    rw [hx] at hm ⊢
    rw [List.mem_singleton.1 hm]
  refine ⟨(p.writeAll elapsed cfg ahead).2 ++ (p₁.write elapsed cfg sent).2 ++ (p₂.writeAll elapsed cfg mid).2, m,
    ((p₃.write elapsed cfg usage).1.writeAll elapsed cfg rest).2, ?_, hmmeta, ⟨f, ?_, hfstop⟩, fun hall => ?_⟩
  · simp only [writeAll_append, writeAll, ← hp₁, ← hp₂, ← hp₃, hsingle, List.append_assoc, List.singleton_append]
  · simp only [List.mem_append]
    exact Or.inl (Or.inr hf)
  · refine hsilent fun em hem => ?_
    have hnot : em.isUsageOnly = false := by
      simpa using List.countP_eq_zero.1 hrest em hem
    have := hall em (by simp [hem])
    simpa [hnot] using this

end Pen

namespace StreamTranslate

variable {D : Type} {protocolFor : String → Option (Protocol D (List Nat))} {initDecode : D} {egress : String}
  {t₀ : StreamTranslate D (List Nat)}

/-- A translator as it is built for a Bedrock client, before or after its first byte. -/
structure FreshBedrock (t : StreamTranslate D (List Nat)) : Prop where
  client : t.BedrockClient
  translates : t.sameProto = false
  live : t.aborted = false
  silentEnd : t.emitDone = false
  metadata : t.course.Metadata ⟨false, false⟩

theorem new_bedrock (hb : new protocolFor initDecode [] protoBedrock egress = some t₀)
    (hw : ∀ p, protocolFor protoBedrock = some p → p.writer = Bedrock.writer) (opted started : Bool) :
    FreshBedrock { t₀.setClientIncludeUsage opted with started := started } := by
  unfold new at hb
  split at hb
  · cases hb
  simp only [build, Option.bind_eq_bind, Option.bind_eq_some_iff, Option.some.injEq] at hb
  obtain ⟨ingressProto, hi, egressProto, -, rfl⟩ := hb
  have hwriter := hw ingressProto hi
  refine ⟨⟨hwriter, ?_⟩, rfl, rfl, ?_, ?_, rfl⟩
  · simp only [setClientIncludeUsage, hwriter]
    rfl
  · simp only [setClientIncludeUsage, hwriter]
    rfl
  · simp only [Translator.course, setClientIncludeUsage, hwriter]
    rfl

/-- **A Bedrock client gets one metadata frame**, and a `messageStop` for every stop there is. With no delta ahead of
the first stop the metadata comes behind its `messageStop`, and nothing comes behind the metadata if nothing but
trailing events comes behind the stop. -/
theorem metadata_once (lib : WireLib) (elapsedMs : Nat)
    (hb : new protocolFor initDecode [] protoBedrock egress = some t₀)
    (hw : ∀ p, protocolFor protoBedrock = some p → p.writer = Bedrock.writer) (opted started : Bool)
    (evs : List IrStreamEvent) (hstop : ∃ ev ∈ evs, ev.isStop = true) :
    let t : StreamTranslate D (List Nat) := { t₀.setClientIncludeUsage opted with started := started }
    let frames := t.clientFrames (t.elapsed elapsedMs) evs
    t.translateWhole lib elapsedMs evs = frames.flatMap (ClientFrame.bytes lib t.toStreamConfig) ∧
      frames.countP (ClientFrame.isEvent etMetadata) = 1 ∧
      frames.countP (ClientFrame.isEvent Bedrock.etMessageStop) = evs.countP IrStreamEvent.isStop ∧
      ∀ before stop after, evs = before ++ stop :: after → stop.isStop = true →
        (∀ ev ∈ before, Translator.isDelta ev = false) →
        ∃ ahead metadata behind, frames = ahead ++ metadata :: behind ∧ metadata.isEvent etMetadata = true ∧
          (∃ sent ∈ ahead, sent.isEvent Bedrock.etMessageStop = true) ∧
          ((∀ ev ∈ after, ev.isTrailing = true) → behind = []) := by
  intro t frames
  have hf : t.FreshBedrock := new_bedrock hb hw opted started
  have hpos : 0 < evs.countP IrStreamEvent.isStop := List.countP_pos_iff.2 hstop
  obtain ⟨hcu, hcs⟩ := Course.whole_metadata t.toStreamConfig hf.metadata hpos
  obtain ⟨hfu, hfs, -⟩ := Pen.writeAll_bedrock (t.elapsed elapsedMs) hf.client t.pen
    (t.course.whole t.toStreamConfig evs false)
  refine ⟨?_, hfu.trans hcu, hfs.trans hcs, ?_⟩
  · obtain ⟨done, hdone, hout⟩ := translateWhole_eq lib elapsedMs hf.live hf.translates evs
    rcases hdone with rfl | ⟨hemit, -⟩
    · rw [hout, List.append_nil]
    · cases hf.silentEnd.symm.trans hemit
  · rintro before stop after rfl hs hq
    obtain ⟨ahead, sent, behind, hwhole, hsent, hone, htrail⟩ := Course.whole_stop t.toStreamConfig hf.metadata after hs hq
    obtain ⟨before', metadata, behind', hframes, hm, hmessageStop, hlast⟩ :=
      Pen.writeAll_behind (t.elapsed elapsedMs) hf.client t.pen ahead hsent hone
    refine ⟨before', metadata, behind', ?_, hm, hmessageStop, fun ht => hlast (htrail ht)⟩
    rw [← hframes, ← hwhole]
    rfl

section Witness

/-- Protocols that read nothing and write as Bedrock does. -/
def bedrockDialect (name : String) : Option (Protocol Unit (List Nat)) :=
  some ⟨name, ⟨fun _ _ s => ([], s)⟩, Bedrock.writer⟩

def bedrockClient : StreamTranslate Unit (List Nat) where
  ingress := ⟨protoBedrock, ⟨fun _ _ s => ([], s)⟩, Bedrock.writer⟩
  egress := ⟨protoOpenAi, ⟨fun _ _ s => ([], s)⟩, Bedrock.writer⟩
  emitDone := false
  egressEventstream := true
  ingressEventstream := true
  sameProto := false
  decode := ()
  writer := []
  framing := .bedrock ⟨false, false⟩
  startUsage := none
  messageStopped := false
  lastUsage := none
  terminalError := none
  pendingTerminal := none
  pendingStop := false
  openBlocks := []
  buf := []
  scanned := 0
  aborted := false
  started := false

theorem new_bedrockClient : new bedrockDialect () [] protoBedrock protoOpenAi = some bedrockClient := rfl

/-- Two stops, of which the first carries the usage. -/
def twoStops : List IrStreamEvent :=
  [.messageDelta (some .endTurn) none ⟨3, 5, none, none⟩, .messageDelta (some .endTurn) none .zero]

/-- A second stop is sent again, and behind the metadata. -/
theorem second_stop_is_sent :
    (∃ ev ∈ twoStops, ev.isStop = true) ∧
      (bedrockClient.clientFrames (bedrockClient.elapsed 3) twoStops).map ClientFrame.eventType =
        [some Bedrock.etMessageStop, some etMetadata, some Bedrock.etMessageStop] := by
  refine ⟨⟨_, List.mem_cons_self, rfl⟩, ?_⟩
  decide +kernel

theorem metadata_once_two_stops :
    (bedrockClient.clientFrames (bedrockClient.elapsed 3) twoStops).countP (ClientFrame.isEvent etMetadata) = 1 := by
  have h := metadata_once muteLib 3 new_bedrockClient (fun p hp => by cases hp; rfl) false false twoStops
    ⟨_, List.mem_cons_self, rfl⟩
  exact h.2.1

end Witness

end StreamTranslate

end Busbar
