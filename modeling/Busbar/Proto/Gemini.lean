import Busbar.EventStream
import Busbar.Num
import Busbar.Proto.Decode

/-!
# The Gemini stream reader

A chunk holds the parts of one candidate, its citations, its log probabilities and the reason to finish. A chunk without
candidates may say that the prompt was blocked, which ends the stream as a finish does; an error ends it by itself.

* `readPart`: thought, text and function calls.
* `readCandidate`: parts, citations, log probabilities, finish.
* `readResponseEvents`: one chunk.
-/

namespace Busbar

/-- What the reader needs from outside: the JSON library and the hash behind the ids of tool calls. -/
structure GeminiLib extends JsonLib where
  toolCallHash : Nat → String → String → Nat

namespace Gemini

def maxGeminiToolFrames : Nat := 4096

def fieldUsageMetadata : String := "usageMetadata"

def fieldPromptTokenCount : String := "promptTokenCount"

def fieldCandidatesTokenCount : String := "candidatesTokenCount"

def fieldTotalTokenCount : String := "totalTokenCount"

def fieldThoughtsTokenCount : String := "thoughtsTokenCount"

def fieldCachedContentTokenCount : String := "cachedContentTokenCount"

def fieldResponseId : String := "responseId"

def fieldModelVersion : String := "modelVersion"

def fieldFunctionCall : String := "functionCall"

def fieldFinishReason : String := "finishReason"

/-! ## Stop reasons, errors and usage -/

def mapGeminiFinishReason (finishReason : String) : IrStopReason :=
  if finishReason = "STOP" then .endTurn
  else if finishReason = "MAX_TOKENS" then .maxTokens
  else if finishReason ∈ ["SAFETY", "RECITATION", "IMAGE_SAFETY", "SPII", "BLOCKLIST", "PROHIBITED_CONTENT"] then .safety
  else if finishReason = "MALFORMED_FUNCTION_CALL" then .error
  else .other

def promptBlockStopReason (blockReason : String) : IrStopReason :=
  if blockReason ∈ ["SAFETY", "BLOCKLIST", "PROHIBITED_CONTENT", "RECITATION"] then .safety else .other

/-- The class of an error: its status counts where it is a known one, else its code. -/
def geminiErrorStatusClass (status : Option String) (code : Option Nat) : StatusClass :=
  if status = some "RESOURCE_EXHAUSTED" then .rateLimit
  else if status = some "UNAVAILABLE" then .overloaded
  else if status = some "DEADLINE_EXCEEDED" then .timeout
  else if status = some "UNAUTHENTICATED" then .auth
  else if status = some "PERMISSION_DENIED" then .billing
  else if ∃ name ∈ status, name ∈ ["INVALID_ARGUMENT", "FAILED_PRECONDITION", "OUT_OF_RANGE", "NOT_FOUND",
      "ALREADY_EXISTS", "ABORTED", "CANCELLED"] then .clientError
  else if ∃ name ∈ status, name ∈ ["INTERNAL", "UNKNOWN", "DATA_LOSS", "UNIMPLEMENTED"] then .serverError
  else if code = some 429 then .rateLimit
  else if code = some 503 then .overloaded
  else if code = some 504 then .timeout
  else if code = some 401 then .auth
  else if code = some 403 then .billing
  else if ∃ c ∈ code, 400 ≤ c ∧ c < 500 then .clientError
  else .serverError

/-- Thinking tokens are output tokens, and cached ones are no input. -/
def geminiUsage (data : Json) : IrUsage :=
  let count (k : String) := ((data.get fieldUsageMetadata).bind (Json.get k)).bind Json.asU64
  let cached := count fieldCachedContentTokenCount
  { inputTokens := (count fieldPromptTokenCount).getD 0 - cached.getD 0
    outputTokens := satAdd ((count fieldCandidatesTokenCount).getD 0) ((count fieldThoughtsTokenCount).getD 0)
    cacheCreationInputTokens := none
    cacheReadInputTokens := cached }

/-! ## Tool calls -/

/-- The id of a tool call, which the dialect does not have. -/
def synthToolCallId (lib : GeminiLib) (callIndex : Nat) (functionName turnSalt : String) : String :=
  "call_" ++ hexEncode (toBe 8 (lib.toolCallHash callIndex functionName turnSalt))

/-- Arguments that are missing are none; a `null` that is there stays. -/
def emptyObjectIfAbsent (args : Option Json) : Json := args.getD (.object [])

/-! ## Citations and log probabilities -/

/-- `str::char_indices`: the offset of each character. -/
def charIndices (cs : List Char) : List Nat :=
  (List.range cs.length).map (fun n => ((cs.take n).map Char.utf8Size).sum)

def byteLen (cs : List Char) : Nat := (cs.map Char.utf8Size).sum

/-- `str::is_char_boundary`. -/
def isCharBoundary (cs : List Char) (b : Nat) : Bool := b ∈ charIndices cs ∨ b = byteLen cs

/-- A byte offset as a character offset: into the text, and back to the boundary before it. -/
def geminiByteOffsetToChar (text : String) (byteIdx : Int) : Int :=
  let cs := text.toList
  let boundary := min (max byteIdx 0).toNat (byteLen cs)
  let safeBoundary := ((List.range (boundary + 1)).reverse.find? (isCharBoundary cs)).getD 0
  ((charIndices cs).countP (· < safeBoundary) : Nat)

def geminiCharOffsetToByte (text : String) (charIdx : Int) : Int :=
  match (charIndices text.toList)[(max charIdx 0).toNat]? with
  | some byteIdx => (byteIdx : Int)
  | none => (byteLen text.toList : Int)

/-- A citation source; without the text it indexes into, its offsets stay in bytes. -/
def readGeminiCitation (anchorText : Option String) (src : Json) : IrCitation :=
  let convert (k : String) : Option Int :=
    ((src.get k).bind Json.asI64).map (fun i => anchorText.elim i (fun text => geminiByteOffsetToChar text i))
  { kind := some "web_search_result_location"
    citedText := none
    title := src.getStr "title"
    url := src.getStr "uri"
    documentIndex := none
    startIndex := convert "startIndex"
    endIndex := convert "endIndex"
    encryptedIndex := none
    raw := some src }

def readGeminiCitations (candidate : Json) (anchorText : Option String) : List IrCitation :=
  match ((candidate.get "citationMetadata").bind (Json.get "citationSources")).bind Json.asArray with
  | none => []
  | some sources => sources.map (readGeminiCitation anchorText)

def readTopLogprob (t : Json) : Option IrTopLogprob := do
  let token ← t.getStr "token"
  let logprob ← (t.get "logProbability").bind Json.asF64
  some ⟨token, logprob, none⟩

/-- The chosen tokens with the alternatives at the same place. -/
def readGeminiLogprobs (v : Option Json) : List IrTokenLogprob :=
  match (v.bind (Json.get "chosenCandidates")).bind Json.asArray with
  | none => []
  | some chosen =>
    let tops := (v.bind (Json.get "topCandidates")).bind Json.asArray
    (chosen.zipIdx.map (fun (c, i) => do
      let token ← c.getStr "token"
      let logprob ← (c.get "logProbability").bind Json.asF64
      let top := ((tops.bind (·[i]?)).bind (Json.get "candidates")).bind Json.asArray
      some (⟨token, logprob, none, (top.map (List.filterMap readTopLogprob)).getD []⟩ : IrTokenLogprob))).reduceOption

/-! ## Fields of a chunk -/

def candidate0 (data : Json) : Option Json := ((data.get "candidates").bind Json.asArray).bind List.head?

def candidatesAbsent (data : Json) : Bool := (((data.get "candidates").bind Json.asArray).map List.isEmpty).getD true

def promptBlockReason (data : Json) : Option String :=
  ((data.get "promptFeedback").bind (Json.getStr "blockReason")).filter (· ≠ "")

def errorOf (data : Json) : Option Json := (data.get "error").filter Json.isObject

def modelOf (data : Json) : Option String := ((data.get fieldModelVersion).or (data.get "model")).bind Json.asStr

/-- The parts of a candidate, if they are the model's. -/
def partsOf (candidate : Json) : List Json :=
  match candidate.get "content" with
  | none => []
  | some content =>
    let roleVal := (content.getStr "role").getD ""
    if roleVal = "model" ∨ roleVal = "" then ((content.get "parts").bind Json.asArray).getD [] else []

def isThought (part : Json) : Bool := (part.get "thought").bind Json.asBool = some true

/-- The text of a part; an empty one is none. -/
def partText (part : Json) : Option String := (part.getStr "text").filter (· ≠ "")

def callName (funcCall : Json) : String := (funcCall.getStr "name").getD ""

/-! ## Sections -/

def readStart (data : Json) : Section := fun s =>
  if s.started then ([], s)
  else ([.messageStart .assistant none (data.getStr fieldResponseId) none (modelOf data)], { s with started := true })

/-- A thought goes to the thinking block at index 0, while neither text nor a tool call is open. -/
def readThought (part : Json) : Section := fun s =>
  match (partText part).filter (fun _ => !s.textBlockOpen && s.openTools.isEmpty) with
  | none => ([], s)
  | some text =>
    (Section.openThinking.next (Section.emit (.blockDelta 0 (.thinking text) ::
      ((part.getStr "thoughtSignature").map (fun sig => IrStreamEvent.blockDelta 0 (.signature sig))).toList))) s

/-- Open the text block at an index, if it is not open. -/
def openTextAt (ti : Nat) : Section := fun s =>
  if s.textBlockOpen then ([], s)
  else ([.blockStart ti .text], { s with textBlockOpen := true, textIndex := some ti })

/-- The index of the text block, or the next free one. -/
def textSlot (s : StreamDecodeState) : Nat × StreamDecodeState :=
  match s.textIndex with
  | some i => (i, s)
  | none => s.claimIrIndex

def readText (part : Json) : Section := fun s =>
  match partText part with
  | none => ([], s)
  | some text =>
    let (ti, s) := textSlot s
    (Section.closeThinking.next ((openTextAt ti).next (Section.emit [.blockDelta ti (.text text)]))) s

/-- A function call comes whole. -/
def readCall (lib : GeminiLib) (data part : Json) : Section := fun s =>
  match part.get fieldFunctionCall with
  | none => ([], s)
  | some funcCall =>
    if callName funcCall ≠ "" ∧ s.openTools.length < maxGeminiToolFrames then
      let textBase := if s.textIndex.isSome then 1 else 0
      let (irIdx, s) := s.claimIrIndex
      let s := { s with openTools := Translator.insertSorted irIdx s.openTools }
      let args := emptyObjectIfAbsent (funcCall.get "args")
      let id := synthToolCallId lib (irIdx - textBase) (callName funcCall) ((data.getStr fieldResponseId).getD "")
      (Section.closeThinking.next (Section.emit
        [.blockStart irIdx (.toolUse id (callName funcCall)), .blockDelta irIdx (.inputJson (lib.toString args))])) s
    else ([], s)

def readPart (lib : GeminiLib) (data part : Json) : Section :=
  if isThought part then readThought part else (readText part).next (readCall lib data part)

/-- What the candidate says about its text goes to the text block, which is opened if need be. -/
def onCandidateText (delta : IrDelta) : Section := fun s =>
  let (ti, s) := textSlot s
  let openBlock : Section := fun s => if s.textBlockOpen then ([], s) else (Section.closeThinking.next (openTextAt ti)) s
  (openBlock.next (Section.emit [.blockDelta ti delta])) s

def readCitations (candidate : Json) : Section :=
  let citations := readGeminiCitations candidate none
  if citations.isEmpty then Section.skip else onCandidateText (.citations citations)

def readLogprobs (candidate : Json) : Section :=
  let streamLogprobs := readGeminiLogprobs (candidate.get "logprobsResult")
  if streamLogprobs.isEmpty then Section.skip else onCandidateText (.logprobs streamLogprobs)

/-- Close the text block and forget its index. -/
def closeText : Section := fun s =>
  if s.textBlockOpen then ([.blockStop (s.textIndex.getD 0)], { s with textBlockOpen := false, textIndex := none })
  else ([], s)

/-- Close the tool blocks in the order of their indices, and forget them. -/
def closeTools : Section := fun s => (s.openTools.map IrStreamEvent.blockStop, { s with openTools := [] })

/-- The end of a message: every block is closed. -/
def finish (stopReason : IrStopReason) (usage : IrUsage) : Section :=
  Section.closeThinking.next (closeText.next (closeTools.next (Section.emit
    [.messageDelta (some stopReason) none usage, .messageStop])))

/-- A turn that ends while tool calls are open ends for them. -/
def stopReasonOf (s : StreamDecodeState) (finishReason : String) : IrStopReason :=
  if mapGeminiFinishReason finishReason = .endTurn ∧ s.openTools ≠ [] then .toolUse
  else mapGeminiFinishReason finishReason

def readFinish (data candidate : Json) : Section := fun s =>
  match candidate.getStr fieldFinishReason with
  | none => ([], s)
  | some finishReason => finish (stopReasonOf s finishReason) (geminiUsage data) s

def readCandidate (lib : GeminiLib) (data candidate : Json) : Section :=
  (Section.each (readPart lib data) (partsOf candidate)).next ((readCitations candidate).next
    ((readLogprobs candidate).next (readFinish data candidate)))

def readError (error : Json) : IrError :=
  let status := error.getStr "status"
  ⟨geminiErrorStatusClass status ((error.get "code").bind Json.asU64), (error.getStr "message").or status, none⟩

/-- One chunk. -/
def readResponseEvents (lib : GeminiLib) (data : Json) : Section :=
  if data.asStr = some sseDoneSentinel ∨ data.isObject = false then Section.skip
  else
    match errorOf data with
    | some error => Section.emit [.error (readError error)]
    | none =>
      match (promptBlockReason data).filter (fun _ => candidatesAbsent data) with
      | some blockReason => (readStart data).next (finish (promptBlockStopReason blockReason) (geminiUsage data))
      | none =>
        match candidate0 data with
        | none => readStart data
        | some candidate => (readStart data).next (readCandidate lib data candidate)

def reader (lib : GeminiLib) : ProtocolReader StreamDecodeState := ⟨fun _ data => readResponseEvents lib data⟩

/-- A stream of chunks from its start. -/
def readAll (lib : GeminiLib) (chunks : List Json) : List IrStreamEvent × StreamDecodeState :=
  Section.each (readResponseEvents lib) chunks .default

end Gemini

end Busbar
