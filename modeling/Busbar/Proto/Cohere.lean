import Busbar.Proto.Decode

/-!
# The Cohere stream reader

A Cohere stream names its frames: content and the plan ahead of the tool calls make up one text block, and every tool call
has a start, deltas and an end under an index of the backend's. The reader gives block indices out once and for good.

* `cohereAssignToolIrIndex`, `cohereTextIrIndex`: the block index of a tool call and of the text.
* `readResponseEvents`: one frame.
-/

namespace Busbar.Cohere

def maxTrackedToolFrames : Nat := 4096

def maxToolFrameIndex : Nat := maxTrackedToolFrames

/-- `usize::MAX`: stands among the open tools for the text block. -/
def textBlockSeenSentinel : Nat := 2 ^ 64 - 1

/-- The decode state with the latch that only this reader sets. -/
structure DecodeState extends StreamDecodeState where
  textBlockClosed : Bool

def DecodeState.default : DecodeState := { StreamDecodeState.default with textBlockClosed := false }

/-! ## Fields of a frame -/

def clampFrameIndex (data : Json) : Nat := min (((data.get "index").bind Json.asU64).getD 0) maxToolFrameIndex

def messageOf (data : Json) : Option Json := (data.get "delta").bind (Json.get "message")

/-- A text that counts for nothing when it is empty. -/
def nonEmpty (text : Option String) : Option String := text.filter (· ≠ "")

def blockText (block : Json) : Option String := (block.getStr "text")

/-- The texts of a content frame; only in an array do empty ones count. -/
def contentTexts (data : Json) : List String :=
  match (messageOf data).bind (Json.get "content") with
  | none => []
  | some content =>
    match content with
    | .string text => (nonEmpty (some text)).toList
    | .object _ =>
      let ty := content.getStr "type"
      if ty = none ∨ ty = some "text" then (nonEmpty (blockText content)).toList else []
    | .array blocks =>
      blocks.filterMap (fun block => if block.getStr "type" = some "text" then blockText block else none)
    | _ => []

def toolPlan (data : Json) : Option String := nonEmpty ((messageOf data).bind (Json.getStr "tool_plan"))

def toolCall (data : Json) : Option Json := (messageOf data).bind (Json.get "tool_calls")

def toolId (data : Json) : String := ((toolCall data).bind (Json.getStr "id")).getD ""

def toolName (data : Json) : String := (((toolCall data).bind (Json.get "function")).bind (Json.getStr "name")).getD ""

def toolArguments (data : Json) : Option String :=
  nonEmpty (((toolCall data).bind (Json.get "function")).bind (Json.getStr "arguments"))

def readCohereStopReason (token : String) : IrStopReason :=
  if token = "COMPLETE" then .endTurn
  else if token = "MAX_TOKENS" then .maxTokens
  else if token = "TOOL_CALL" then .toolUse
  else if token = "STOP_SEQUENCE" then .stopSequence
  else if token = "ERROR_TOXIC" then .safety
  else if token = "ERROR" then .error
  else .other

def stopReasonOf (data : Json) : Option IrStopReason :=
  (nonEmpty ((data.get "delta").bind (Json.getStr "finish_reason"))).map readCohereStopReason

def usageOf (data : Json) : IrUsage :=
  let tokens := ((data.get "delta").bind (Json.get "usage")).bind (Json.get "tokens")
  { inputTokens := ((tokens.bind (Json.get "input_tokens")).bind Json.asU64).getD 0
    outputTokens := ((tokens.bind (Json.get "output_tokens")).bind Json.asU64).getD 0
    cacheCreationInputTokens := none
    cacheReadInputTokens := none }

/-- The frames by their type. -/
inductive Kind where
  | messageStart | contentStart | contentDelta | toolPlanDelta | contentEnd | messageEnd
  | toolCallStart | toolCallDelta | toolCallEnd | unknown
  deriving DecidableEq, Repr

def kindOf (data : Json) : Kind :=
  let ty := (data.getStr "type").getD ""
  if ty = "message-start" then .messageStart
  else if ty = "content-start" then .contentStart
  else if ty = "content-delta" then .contentDelta
  else if ty = "tool-plan-delta" then .toolPlanDelta
  else if ty = "content-end" then .contentEnd
  else if ty = "message-end" then .messageEnd
  else if ty = "tool-call-start" then .toolCallStart
  else if ty = "tool-call-delta" then .toolCallDelta
  else if ty = "tool-call-end" then .toolCallEnd
  else .unknown

/-! ## Block indices -/

def cohereTrackedToolCount (s : DecodeState) : Nat :=
  s.openTools.length - if s.openTools.contains textBlockSeenSentinel then 1 else 0

def cohereLookupToolIrIndex (s : DecodeState) (frameIdx : Nat) : Option Nat := s.toolIrIndex.lookup frameIdx

/-- A tool call that is tracked already, or one too many, gets no index. -/
def cohereAssignToolIrIndex (s : DecodeState) (frameIdx : Nat) : Option Nat × DecodeState :=
  if (cohereLookupToolIrIndex s frameIdx).isSome then (none, s)
  else
    let tracked := cohereTrackedToolCount s
    if tracked ≥ maxTrackedToolFrames then (none, s)
    else
      let base := if s.openTools.contains textBlockSeenSentinel then 1 else 0
      let irIndex := base + tracked
      (some irIndex,
        { s with
          openTools := Translator.insertSorted frameIdx s.openTools
          toolIrIndex := s.toolIrIndex.insert frameIdx irIndex })

def cohereTextIrIndex (s : DecodeState) : Nat × DecodeState :=
  let ti := s.textIndex.getD (cohereTrackedToolCount s)
  (ti, { s with
    textIndex := some ti
    openTools := Translator.insertSorted textBlockSeenSentinel s.openTools })

/-! ## Frames -/

/-- What the reader does with a frame. -/
abbrev Reading := DecodeState → List IrStreamEvent × DecodeState

def openText (ti : Nat) : Reading := fun s =>
  if s.textBlockOpen then ([], s) else ([.blockStart ti .text], { s with textBlockOpen := true })

/-- The text block is closed for good. -/
def closeText : Reading := fun s =>
  if s.textBlockOpen then
    ([.blockStop (s.textIndex.getD 0)], { s with textBlockOpen := false, textBlockClosed := true })
  else ([], s)

/-- `synthesizedId` is the id a stream gets whose backend gave none. -/
def readMessageStart (synthesizedId : String) (data : Json) : Reading := fun s =>
  if s.started then ([], s)
  else
    ([.messageStart .assistant none (some ((nonEmpty (data.getStr "id")).getD synthesizedId)) none
      (nonEmpty (data.getStr "model"))], { s with started := true })

def readContentStart : Reading := fun s =>
  if s.textBlockClosed then ([], s)
  else if s.textBlockOpen then ([], s)
  else
    let (ti, s) := cohereTextIrIndex s
    openText ti s

/-- Texts go to the text block, which is opened if need be; once it has been closed they go nowhere. -/
def onText (texts : List String) : Reading := fun s =>
  if s.textBlockClosed then ([], s)
  else
    let (ti, s) := cohereTextIrIndex s
    let (start, s) := openText ti s
    (start ++ texts.map (fun text => .blockDelta ti (.text text)), s)

def readMessageEnd (data : Json) : Reading := fun s =>
  let (stop, s) := closeText s
  (stop ++ [.messageDelta (stopReasonOf data) none (usageOf data), .messageStop], s)

def readToolCallStart (data : Json) : Reading := fun s =>
  let (stop, s) := closeText s
  match cohereAssignToolIrIndex s (clampFrameIndex data) with
  | (none, s) => (stop, s)
  | (some irIdx, s) =>
    (stop ++ .blockStart irIdx (.toolUse (toolId data) (toolName data)) ::
      (toolArguments data).toList.map (fun args => .blockDelta irIdx (.inputJson args)), s)

def readToolCallDelta (data : Json) : Reading := fun s =>
  match cohereLookupToolIrIndex s (clampFrameIndex data) with
  | none => ([], s)
  | some irIdx => ((toolArguments data).toList.map (fun args => .blockDelta irIdx (.inputJson args)), s)

/-- The call stays tracked behind its end. -/
def readToolCallEnd (data : Json) : Reading := fun s =>
  match cohereLookupToolIrIndex s (clampFrameIndex data) with
  | none => ([], s)
  | some irIdx => ([.blockStop irIdx], s)

def readResponseEvents (synthesizedId : String) (data : Json) : Reading := fun s =>
  if data.asStr = some sseDoneSentinel ∨ data.isObject = false then ([], s)
  else
    match kindOf data with
    | .messageStart => readMessageStart synthesizedId data s
    | .contentStart => readContentStart s
    | .contentDelta => onText (contentTexts data) s
    | .toolPlanDelta => onText (toolPlan data).toList s
    | .contentEnd => closeText s
    | .messageEnd => readMessageEnd data s
    | .toolCallStart => readToolCallStart data s
    | .toolCallDelta => readToolCallDelta data s
    | .toolCallEnd => readToolCallEnd data s
    | .unknown => ([], s)

/-- The frames of a stream, one after the other. -/
def readFrames (synthesizedId : String) : List Json → Reading
  | [], s => ([], s)
  | data :: frames, s =>
    let (evs, s) := readResponseEvents synthesizedId data s
    let (rest, s) := readFrames synthesizedId frames s
    (evs ++ rest, s)

def readAll (synthesizedId : String) (frames : List Json) : List IrStreamEvent :=
  (readFrames synthesizedId frames .default).1

end Busbar.Cohere
