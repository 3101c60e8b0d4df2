import Busbar.Proto.Gemini

/-!
# Whole Gemini responses

A response is read part by part like a stream, with the texts whole; then the candidate's citations, which count bytes
over the joined texts, are handed to the blocks their starts lie in.

* `readParts`: the blocks of the parts.
* `attachGeminiCitationsToTextBlocks`: the citations.
* `readResponse`: the response.
-/

namespace Busbar.Gemini

def signalIrParse : String := "ir_parse"

/-- The parts of a candidate, whoever's they are. -/
def bodyParts (candidate : Json) : List Json :=
  (((candidate.get "content").bind (Json.get "parts")).bind Json.asArray).getD []

/-- The thinking or text block of a part. -/
def textBlocks (part : Json) : List IrBlock :=
  if isThought part then [.thinking ((part.getStr "text").getD "") (part.getStr "thoughtSignature") false]
  else ((partText part).map (fun text => IrBlock.text text [])).toList

/-- The tool-use block of a part. -/
def callBlocks (lib : GeminiLib) (turnSalt : String) (toolCallIndex : Nat) (part : Json) : List IrBlock :=
  ((part.get fieldFunctionCall).map (fun funcCall => IrBlock.toolUse
    (synthToolCallId lib toolCallIndex (callName funcCall) turnSalt) (callName funcCall)
    (emptyObjectIfAbsent (funcCall.get "args")) ((part.getStr "thoughtSignature").filter (· ≠ "")))).toList

def readParts (lib : GeminiLib) (turnSalt : String) : Nat → List Json → List IrBlock
  | _, [] => []
  | toolCallIndex, part :: parts =>
    textBlocks part ++ callBlocks lib turnSalt toolCallIndex part ++
      readParts lib turnSalt (if (part.get fieldFunctionCall).isSome then toolCallIndex + 1 else toolCallIndex) parts

/-! ## Citations -/

def blockText : IrBlock → Option String
  | .text text _ => some text
  | _ => none

/-- The text blocks, with their places in the content. -/
def textPositions (content : List IrBlock) : List (Nat × String) :=
  (content.zipIdx.map (fun (b, i) => match b with
    | .text text _ => some (i, text)
    | _ => none)).reduceOption

/-- Where each text begins and ends, in characters of the joined texts. -/
def blockCharRanges : Int → List (Nat × String) → List (Nat × Int × Int)
  | _, [] => []
  | cursor, (i, text) :: rest =>
    (i, cursor, cursor + text.length) :: blockCharRanges (cursor + text.length) rest

/-- The block a start lies in; a start behind them all goes to the last. -/
def ownerOf (ranges : List (Nat × Int × Int)) (start : Int) : Option (Nat × Int × Int) :=
  (ranges.find? (fun (_, s, e) => start ≥ s ∧ start < e)).or ranges.getLast?

/-- The offsets of a citation, counted from the start of its block. -/
def relativeTo (blockStart : Int) (c : IrCitation) : IrCitation :=
  { c with startIndex := c.startIndex.map (· - blockStart), endIndex := c.endIndex.map (· - blockStart) }

def pushCitation (c : IrCitation) : IrBlock → IrBlock
  | .text text citations => .text text (citations ++ [c])
  | b => b

def attachCitation (ranges : List (Nat × Int × Int)) (content : List IrBlock) (c : IrCitation) : List IrBlock :=
  match ownerOf ranges (c.startIndex.getD 0) with
  | none => content
  | some (i, blockStart, _) => content.modify i (pushCitation (relativeTo blockStart c))

def attachGeminiCitationsToTextBlocks (candidate : Json) (content : List IrBlock) : List IrBlock :=
  let positions := textPositions content
  if positions.isEmpty then content
  else
    let citations := readGeminiCitations candidate (some (String.join (positions.map Prod.snd)))
    citations.foldl (attachCitation (blockCharRanges 0 positions)) content

/-! ## Responses -/

def isToolUse : IrBlock → Bool
  | .toolUse .. => true
  | _ => false

def irParseError : IrError := ⟨.clientError, some signalIrParse, none⟩

/-- The stop reason of a whole candidate. -/
def responseStopReason (content : List IrBlock) (candidate : Json) : Option IrStopReason :=
  ((candidate.getStr fieldFinishReason).map mapGeminiFinishReason).map fun stopReason =>
    if stopReason = .endTurn ∧ content.any isToolUse then .toolUse else stopReason

def readResponse (lib : GeminiLib) (body : Json) : Except IrError IrResponse :=
  let response (content : List IrBlock) (stopReason : Option IrStopReason) (logprobs : List IrTokenLogprob) : IrResponse :=
    { role := .assistant
      content := content
      stopReason := stopReason
      usage := geminiUsage body
      model := modelOf body
      id := body.getStr fieldResponseId
      created := none
      systemFingerprint := none
      stopSequence := none
      logprobs := logprobs }
  if body.isObject = false then .error irParseError
  else
    match (promptBlockReason body).filter (fun _ => candidatesAbsent body) with
    | some blockReason => .ok (response [] (some (promptBlockStopReason blockReason)) [])
    | none =>
      -- no candidates, no array of them or an empty one
      match candidate0 body with
      | none => .error irParseError
      | some candidate =>
        let content := attachGeminiCitationsToTextBlocks candidate
          (readParts lib ((body.getStr fieldResponseId).getD "") 0 (bodyParts candidate))
        .ok (response content (responseStopReason content candidate)
          (readGeminiLogprobs (candidate.get "logprobsResult")))

end Busbar.Gemini
