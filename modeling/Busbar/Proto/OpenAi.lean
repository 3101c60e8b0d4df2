import Busbar.Proto.Decode

/-!
# The OpenAI chat stream reader

One chunk may carry reasoning, content or a refusal, log probabilities, fragments of tool calls and the reason to finish,
all at once. The sections of the reader take them in this order.

* `readReasoning`, `readContent`, `readLogprobs`, `readToolCalls`, `readFinish`: the sections.
* `readResponseEvents`: one chunk.
-/

namespace Busbar.OpenAi

def maxToolIndex : Nat := 127

def maxOpenTools : Nat := 128

/-! ## Fields of a chunk -/

def choice0 (data : Json) : Option Json := ((data.get "choices").bind Json.asArray).bind List.head?

def deltaOf (data : Json) : Option Json := (choice0 data).bind (Json.get "delta")

/-- `reasoning_content` is asked first, and is the one that counts when it is there. -/
def reasoningOf (data : Json) : Option String :=
  ((deltaOf data).bind (fun d => (d.get "reasoning_content").or (d.get "reasoning"))).bind Json.asStr

def contentOf (data : Json) : Option String := (deltaOf data).bind (Json.getStr "content")

def refusalOf (data : Json) : Option String := ((deltaOf data).bind (Json.getStr "refusal")).filter (· ≠ "")

def readBytes (e : Json) : Option Bytes :=
  ((e.get "bytes").bind Json.asArray).map (fun arr =>
    arr.filterMap (fun b => b.asU64.bind (fun b => if b < 256 then some (UInt8.ofNat b) else none)))

def readTopLogprob (t : Json) : Option IrTopLogprob := do
  let token ← t.getStr "token"
  let logprob ← (t.get "logprob").bind Json.asF64
  some ⟨token, logprob, readBytes t⟩

def readTokenLogprob (e : Json) : Option IrTokenLogprob := do
  let token ← e.getStr "token"
  let logprob ← (e.get "logprob").bind Json.asF64
  some ⟨token, logprob, readBytes e, (((e.get "top_logprobs").bind Json.asArray).map
    (fun arr => arr.filterMap readTopLogprob)).getD []⟩

/-- `read_openai_logprobs`. -/
def readOpenaiLogprobs (v : Option Json) : List IrTokenLogprob :=
  match (v.bind (Json.get "content")).bind Json.asArray with
  | none => []
  | some entries => entries.filterMap readTokenLogprob

def logprobsOf (data : Json) : List IrTokenLogprob := readOpenaiLogprobs ((choice0 data).bind (Json.get "logprobs"))

def toolCallsOf (data : Json) : Option (List Json) := ((deltaOf data).bind (Json.get "tool_calls")).bind Json.asArray

def finishReasonOf (data : Json) : Option String := (choice0 data).bind (Json.getStr "finish_reason")

/-- The key a tool call goes under: the index the backend gives it, as far as it counts. -/
def toolKey (tc : Json) : Nat := ((tc.get "index").bind Json.asU64).elim 0 (fun v => min v maxToolIndex)

def toolName (tc : Json) : Option String := (tc.get "function").bind (Json.getStr "name")

def toolArguments (tc : Json) : Option String := (tc.get "function").bind (Json.getStr "arguments")

/-- The usage of a chunk; a `usage` that is no object is none. -/
def usageOf (data : Json) : Option IrUsage :=
  ((data.get "usage").filter Json.isObject).map fun u =>
    let promptTokens := ((u.get "prompt_tokens").bind Json.asU64).getD 0
    let cached := ((u.get "prompt_tokens_details").bind (Json.get "cached_tokens")).bind Json.asU64
    { inputTokens := promptTokens - cached.getD 0
      outputTokens := ((u.get "completion_tokens").bind Json.asU64).getD 0
      cacheCreationInputTokens := none
      cacheReadInputTokens := cached }

def readStopReason (token : String) : IrStopReason :=
  if token = "stop" then .endTurn
  else if token = "length" then .maxTokens
  else if token = "tool_calls" ∨ token = "function_call" then .toolUse
  else if token = "content_filter" then .safety
  else .other

/-! ## Sections -/

/-- The start of the message, on the first chunk. -/
def readStart (data : Json) : Section := fun s =>
  if s.started then ([], s)
  else
    ([.messageStart .assistant none (data.getStr "id") ((data.get "created").bind Json.asU64) (data.getStr "model")],
      { s with started := true })

/-- Reasoning goes to the thinking block at index 0, while neither text nor a tool call has been opened. -/
def readReasoning (data : Json) : Section := fun s =>
  match (reasoningOf data).filter (fun _ => !s.textBlockOpen && s.openTools.isEmpty) with
  | none => ([], s)
  | some reasoning =>
    if reasoning = "" then ([], s)
    else (Section.openThinking.next (Section.emit [.blockDelta 0 (.thinking reasoning)])) s

/-- A refusal is text where there is no content. -/
def readContent (data : Json) : Section := fun s =>
  let s := if (refusalOf data).isSome then { s with refusalSeen := true } else s
  match (contentOf data).or (refusalOf data) with
  | none => ([], s)
  | some content => (Section.closeThinking.next (Section.openText.next (Section.onText (.text content)))) s

def readLogprobs (data : Json) : Section := fun s =>
  let lpEntries := logprobsOf data
  if lpEntries.isEmpty then ([], s)
  else if s.textBlockOpen then Section.onText (.logprobs lpEntries) s
  else (Section.closeThinking.next (Section.openText.next (Section.onText (.logprobs lpEntries)))) s

/-- The block of a tool call opens when its name is there. -/
def openTool (tc : Json) : Section := fun s =>
  match toolName tc with
  | none => ([], s)
  | some name =>
    if !s.openTools.contains (toolKey tc) && s.openTools.length < maxOpenTools then
      let (irIdx, s) := s.claimIrIndex
      ([.blockStart irIdx (.toolUse ((tc.getStr "id").getD "") name)],
        { s with
          openTools := Translator.insertSorted (toolKey tc) s.openTools
          toolIrIndex := s.toolIrIndex.insert (toolKey tc) irIdx })
    else ([], s)

/-- A fragment of arguments goes to the block its call has opened, and nowhere without one. -/
def onTool (tc : Json) : Section := fun s =>
  match toolArguments tc with
  | none => ([], s)
  | some args =>
    match s.toolIrIndex.lookup (toolKey tc) with
    | none => ([], s)
    | some index => ([.blockDelta index (.inputJson args)], s)

def readToolCall (tc : Json) : Section := (openTool tc).next (onTool tc)

def readToolCalls (data : Json) : Section := fun s =>
  match toolCallsOf data with
  | none => ([], s)
  | some tcs => (Section.closeThinking.next (Section.each readToolCall tcs)) s

/-- Close the text block, if it is open. Its index stays. -/
def closeText : Section := fun s =>
  if s.textBlockOpen then ((s.textIndex.map IrStreamEvent.blockStop).toList, { s with textBlockOpen := false })
  else ([], s)

/-- Close the tool blocks in the order of their keys, and forget them. -/
def closeTools : Section := fun s =>
  (s.openTools.filterMap (fun key => (s.toolIrIndex.lookup key).map IrStreamEvent.blockStop),
    { s with openTools := [], toolIrIndex := Registry.empty })

/-- A refusal is reported as an ordinary stop. -/
def stopReasonOf (s : StreamDecodeState) (fr : String) : IrStopReason :=
  if readStopReason fr = .endTurn ∧ s.refusalSeen then .refusal else readStopReason fr

def readFinish (data : Json) : Section := fun s =>
  match finishReasonOf data with
  | some fr =>
    (Section.closeThinking.next (closeText.next (closeTools.next (Section.emit
      [.messageDelta (some (stopReasonOf s fr)) none ((usageOf data).getD .zero), .messageStop])))) s
  | none =>
    match usageOf data with
    | some usage => if (choice0 data).isNone then ([.messageDelta none none usage], s) else ([], s)
    | none => ([], s)

/-- One chunk. -/
def readResponseEvents (data : Json) : Section :=
  if data.asStr = some sseDoneSentinel then Section.skip
  else
    (readStart data).next ((readReasoning data).next ((readContent data).next ((readLogprobs data).next
      ((readToolCalls data).next (readFinish data)))))

def reader : ProtocolReader StreamDecodeState := ⟨fun _ data => readResponseEvents data⟩

/-- A stream of chunks from its start. -/
def readAll (chunks : List Json) : List IrStreamEvent × StreamDecodeState :=
  Section.each readResponseEvents chunks .default

end Busbar.OpenAi
