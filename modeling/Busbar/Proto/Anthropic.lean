import Busbar.Proto.Framing

/-!
# The Anthropic stream reader

Anthropic names the event in the frame's own type, and one frame is one event: the reader looks at nothing but
the type and the payload, and keeps no state. The redacted reasoning block is the exception to the count, it
carries its data on the frame that opens it.

* `readResponseEvents_state`: the reader's state is never touched.
* `readResponseEvents_idle`: what a frame outside of the start, the delta and the error can be read as.
-/

namespace Busbar.Anthropic

def evtMessageStart : String := "message_start"

def evtContentBlockStart : String := "content_block_start"

def evtContentBlockDelta : String := "content_block_delta"

def evtContentBlockStop : String := "content_block_stop"

def evtMessageDelta : String := "message_delta"

def evtMessageStop : String := "message_stop"

def evtError : String := "error"

def blockTypeRedactedThinking : String := "redacted_thinking"

def maxBlockIndex : Nat := 1023

/-- A string member of an object. -/
def strMember (k : String) (j : Json) : Option String := (j.get k).bind Json.asStr

def readClampedBlockIndex (data : Json) : Option Nat :=
  ((data.get "index").bind Json.asU64).map (min maxBlockIndex)

def readStopReason (token : String) : IrStopReason :=
  if token = "end_turn" then .endTurn
  else if token = "max_tokens" then .maxTokens
  else if token = "stop_sequence" then .stopSequence
  else if token = "tool_use" then .toolUse
  else if token = "pause_turn" then .pauseTurn
  else if token = "refusal" then .refusal
  else .other

/-- An error without a type, or with one that is not listed, is laid at the client's door. -/
def streamErrorClass (errorType : Option String) : StatusClass :=
  if errorType = some "overloaded_error" then .overloaded
  else if errorType = some "rate_limit_error" then .rateLimit
  else if errorType = some "api_error" then .serverError
  else if errorType = some "timeout_error" then .timeout
  else if errorType = some "authentication_error" ∨ errorType = some "permission_error" then .auth
  else if errorType = some "billing_error" then .billing
  else .clientError

/-- The first of the members that is there. -/
def firstOf (ks : List String) (j : Json) : Option Json := ks.findSome? (fun k => j.get k)

def readCitation (val : Json) : IrCitation where
  kind := strMember "type" val
  citedText := strMember "cited_text" val
  title := (firstOf ["document_title", "title"] val).bind Json.asStr
  url := strMember "url" val
  documentIndex := (val.get "document_index").bind Json.asI64
  startIndex := (firstOf ["start_char_index", "start_page_number", "start_block_index"] val).bind Json.asI64
  endIndex := (firstOf ["end_char_index", "end_page_number", "end_block_index"] val).bind Json.asI64
  encryptedIndex := strMember "encrypted_index" val
  raw := some val

def counter (k : String) (usage : Option Json) : Option Nat := (usage.bind (Json.get k)).bind Json.asU64

/-- Counters that are missing count nothing. -/
def readUsage (usage : Option Json) : IrUsage where
  inputTokens := (counter "input_tokens" usage).getD 0
  outputTokens := (counter "output_tokens" usage).getD 0
  cacheCreationInputTokens := counter "cache_creation_input_tokens" usage
  cacheReadInputTokens := counter "cache_read_input_tokens" usage

def readRole (role : String) : Option IrRole :=
  if role = "user" then some .user else if role = "assistant" then some .assistant else none

def readMessageStart (data : Json) : Option IrStreamEvent := do
  let msg ← data.get "message"
  let role ← (strMember "role" msg).bind readRole
  let usage := (msg.get "usage").map (fun u => readUsage (some u))
  some (.messageStart role usage (strMember "id" msg) none ((strMember "model" msg).filter (· ≠ "")))

def readBlockMeta (block : Json) (blockType : String) : Option IrBlockMeta :=
  if blockType = "text" then some .text
  else if blockType = "thinking" then some .thinking
  else if blockType = "tool_use" then do
    let id ← strMember "id" block
    let name ← strMember "name" block
    some (.toolUse id name)
  else if blockType = "image" then some .image
  else none

def readBlockStart (data : Json) : Option IrStreamEvent := do
  let index ← readClampedBlockIndex data
  let block ← data.get "content_block"
  let blockType ← strMember "type" block
  let blockMeta ← readBlockMeta block blockType
  some (.blockStart index blockMeta)

def readDelta (delta : Json) (deltaType : String) : Option IrDelta :=
  if deltaType = "text_delta" then (strMember "text" delta).map .text
  else if deltaType = "thinking_delta" then (strMember "thinking" delta).map .thinking
  else if deltaType = "input_json_delta" then
    ((firstOf ["partial_json", "input_json"] delta).bind Json.asStr).map .inputJson
  else if deltaType = "signature_delta" then (strMember "signature" delta).map .signature
  else if deltaType = "citations_delta" then (delta.get "citation").map (fun c => .citations [readCitation c])
  else none

def readBlockDelta (data : Json) : Option IrStreamEvent := do
  let index ← readClampedBlockIndex data
  let deltaVal ← data.get "delta"
  let deltaType ← strMember "type" deltaVal
  let delta ← readDelta deltaVal deltaType
  some (.blockDelta index delta)

/-- The delta goes on without its usage, the stop reason on it is still owed to the client. -/
def readMessageDelta (data : Json) : Option IrStreamEvent := do
  let delta ← data.get "delta"
  some (.messageDelta ((strMember "stop_reason" delta).map readStopReason) (strMember "stop_sequence" delta)
    (readUsage (data.get "usage")))

def readError (data : Json) : Option IrStreamEvent := do
  let errVal ← data.get "error"
  let typeToken := strMember "type" errVal
  some (.error ⟨streamErrorClass typeToken, typeToken, none⟩)

def readResponseEvent (eventType : String) (data : Json) : Option IrStreamEvent :=
  if eventType = evtMessageStart then readMessageStart data
  else if eventType = evtContentBlockStart then readBlockStart data
  else if eventType = evtContentBlockDelta then readBlockDelta data
  else if eventType = evtContentBlockStop then (readClampedBlockIndex data).map .blockStop
  else if eventType = evtMessageDelta then readMessageDelta data
  else if eventType = evtMessageStop then some .messageStop
  else if eventType = evtError then readError data
  else none

/-- The redacted reasoning block, whose one frame is the start of the block and all that is in it. -/
def readRedacted (eventType : String) (data : Json) : Option (List IrStreamEvent) :=
  if eventType = evtContentBlockStart then do
    let block ← data.get "content_block"
    if strMember "type" block = some blockTypeRedactedThinking then
      let index ← readClampedBlockIndex data
      some [.blockStart index .thinking,
        .blockDelta index (.redactedReasoning ((strMember "data" block).getD ""))]
    else none
  else none

variable {D : Type}

def readResponseEvents (eventType : String) (data : Json) (state : D) : List IrStreamEvent × D :=
  ((readRedacted eventType data).getD (readResponseEvent eventType data).toList, state)

def reader : ProtocolReader D := ⟨readResponseEvents⟩

/-! ## What a frame can be read as -/

@[simp] theorem readResponseEvents_state (eventType : String) (data : Json) (state : D) :
    (readResponseEvents eventType data state).2 = state := rfl

/-- An event that neither moves the usage account nor reports an error. -/
def Idle : IrStreamEvent → Prop
  | .messageStart .. | .messageDelta .. | .error _ => False
  | _ => True

theorem readBlockStart_idle {data : Json} {ev : IrStreamEvent} (h : readBlockStart data = some ev) : Idle ev := by
  simp only [readBlockStart, Option.bind_eq_bind, Option.bind_eq_some_iff, Option.some.injEq] at h
  obtain ⟨index, -, block, -, blockType, -, blockMeta, -, rfl⟩ := h
  trivial

theorem readBlockDelta_idle {data : Json} {ev : IrStreamEvent} (h : readBlockDelta data = some ev) : Idle ev := by
  simp only [readBlockDelta, Option.bind_eq_bind, Option.bind_eq_some_iff, Option.some.injEq] at h
  obtain ⟨index, -, deltaVal, -, deltaType, -, delta, -, rfl⟩ := h
  trivial

theorem readRedacted_idle {eventType : String} {data : Json} {evs : List IrStreamEvent}
    (h : readRedacted eventType data = some evs) {ev : IrStreamEvent} (hev : ev ∈ evs) : Idle ev := by
  unfold readRedacted at h
  split at h
  · simp only [Option.bind_eq_bind, Option.bind_eq_some_iff] at h
    obtain ⟨block, -, h⟩ := h
    split at h
    · simp only [Option.bind_eq_some_iff, Option.some.injEq] at h
      obtain ⟨index, -, rfl⟩ := h
      simp only [List.mem_cons, List.not_mem_nil, or_false] at hev
      rcases hev with rfl | rfl <;> trivial
    · cases h
  · cases h

/-- A frame that is no start, no delta and no error is read as block events and the stop, if as anything. -/
theorem readResponseEvent_idle {eventType : String} {data : Json} {ev : IrStreamEvent}
    (hstart : eventType ≠ evtMessageStart) (hdelta : eventType ≠ evtMessageDelta) (herror : eventType ≠ evtError)
    (h : readResponseEvent eventType data = some ev) : Idle ev := by
  simp only [readResponseEvent, if_neg hstart, if_neg hdelta, if_neg herror] at h
  split at h
  · exact readBlockStart_idle h
  split at h
  · exact readBlockDelta_idle h
  split at h
  · obtain ⟨index, -, rfl⟩ := Option.map_eq_some_iff.1 h
    trivial
  split at h
  · cases h
    trivial
  · cases h

theorem readResponseEvents_idle {eventType : String} (data : Json) (state : D)
    (hstart : eventType ≠ evtMessageStart) (hdelta : eventType ≠ evtMessageDelta) (herror : eventType ≠ evtError) :
    ∀ ev ∈ (readResponseEvents eventType data state).1, Idle ev := by
  intro ev hev
  simp only [readResponseEvents] at hev
  cases hred : readRedacted eventType data with
  | some evs =>
    rw [hred] at hev
    exact readRedacted_idle hred hev
  | none =>
    rw [hred] at hev
    exact readResponseEvent_idle hstart hdelta herror (Option.mem_toList.1 hev)

end Busbar.Anthropic
