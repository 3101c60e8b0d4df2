import Busbar.Num
import Busbar.Proto.Gemini

/-!
# The Gemini writers

A whole response becomes one candidate, block by block; its citations become sources of the candidate, with their offsets
in bytes of all its text. In a stream every event becomes a chunk or none: the arguments of a tool call are kept until
its block stops.

* `writeResponse`: whole responses.
* `writeResponseEvent`: one event of a stream.
-/

namespace Busbar.Gemini

def geminiFinishStop : String := "STOP"

def geminiFinishMaxTokens : String := "MAX_TOKENS"

def geminiFinishSafety : String := "SAFETY"

def geminiFinishOther : String := "OTHER"

def writeGeminiStopReason : IrStopReason → String
  | .endTurn | .stopSequence | .toolUse => geminiFinishStop
  | .maxTokens => geminiFinishMaxTokens
  | .safety => geminiFinishSafety
  | .refusal | .error | .pauseTurn | .other => geminiFinishOther

/-! ## Tool calls -/

/-- The arguments as an object: a string is read first, and what is no object is wrapped. -/
def coerceToolArgs (lib : JsonLib) (input : Json) : Json :=
  let candidate :=
    match input.asStr with
    | some s => (lib.parseStr s).getD input
    | none => input
  if candidate.isObject then candidate
  else if candidate.isNull then .object []
  else .object [("args", candidate)]

/-- The part of a call. -/
def functionCallPart (name : String) (args : Json) : Json :=
  .object [(fieldFunctionCall, .object [("args", args), ("name", .string name)])]

/-! ## Citations and log probabilities -/

/-- A source of the dialect's own is written as it was; any other is put together, its offsets in bytes of all the text.
Without a text they stay as they are. -/
def writeGeminiCitation (c : IrCitation) (text : String) (bytePrefix : Int) : Json :=
  let convert (v : Int) : Json :=
    Json.ofInt (if text = "" then v else geminiCharOffsetToByte text v + bytePrefix)
  let insertSome (k : String) (v : Option Json) (members : List (String × Json)) :=
    v.elim members (fun v => Json.insertMember k v members)
  match c.raw.filter (fun raw => (raw.get "uri").isSome || (raw.get "startIndex").isSome || (raw.get "endIndex").isSome) with
  | some raw => raw
  | none => .object (insertSome "title" (c.title.map .string) (insertSome "uri" (c.url.map .string)
      (insertSome "endIndex" (c.endIndex.map convert) (insertSome "startIndex" (c.startIndex.map convert) []))))

def writeTokenLogprob (token : String) (logprob : UInt64) : Json :=
  .object [("logProbability", .ofF64 logprob), ("token", .string token)]

def writeGeminiLogprobsResult (lps : List IrTokenLogprob) : Json :=
  let chosen : Json := .array (lps.map (fun lp => writeTokenLogprob lp.token lp.logprob))
  let tops : Json := .array (lps.map (fun lp =>
    .object [("candidates", .array (lp.top.map (fun t => writeTokenLogprob t.token t.logprob)))]))
  if lps.any (fun lp => !lp.top.isEmpty) then .object [("chosenCandidates", chosen), ("topCandidates", tops)]
  else .object [("chosenCandidates", chosen)]

/-! ## Whole responses -/

/-- The part of a block, if it has one. -/
def blockParts (lib : JsonLib) : IrBlock → List Json
  | .text text _ => if text = "" then [] else [.object [("text", .string text)]]
  | .toolUse _ name input thoughtSignature =>
    [(functionCallPart name (coerceToolArgs lib input)).mapObject (fun members =>
      thoughtSignature.elim members (fun sig => Json.insertMember "thoughtSignature" (.string sig) members))]
  | .thinking _ _ true => []
  | .thinking text signature false =>
    [.object (signature.elim [("text", .string text), ("thought", .bool true)] (fun sig =>
      [("text", .string text), ("thought", .bool true), ("thoughtSignature", .string sig)]))]
  | .toolResult | .image | .json => []

/-- The sources of the citations, behind the bytes of the text before. -/
def citationSources : Int → List IrBlock → List Json
  | _, [] => []
  | bytePrefix, .text text citations :: blocks =>
    citations.map (fun c => writeGeminiCitation c text bytePrefix) ++
      citationSources (bytePrefix + byteLen text.toList) blocks
  | bytePrefix, _ :: blocks => citationSources bytePrefix blocks

/-- The prompt counts cached tokens and those written to the cache. -/
def promptTotal (usage : IrUsage) : Nat :=
  satAdd (satAdd usage.inputTokens (usage.cacheReadInputTokens.getD 0)) (usage.cacheCreationInputTokens.getD 0)

def writeUsageMetadata (usage : IrUsage) (withTotal : Bool) : Json :=
  let count (n : Nat) : Json := .number (.posInt n)
  let counts := Json.insertMember fieldCandidatesTokenCount (count usage.outputTokens)
    (Json.insertMember fieldPromptTokenCount (count (promptTotal usage)) [])
  let cached := usage.cacheReadInputTokens.elim counts (fun cacheRead =>
    Json.insertMember fieldCachedContentTokenCount (count cacheRead) counts)
  .object (if withTotal then
    Json.insertMember fieldTotalTokenCount (count (satAdd (promptTotal usage) usage.outputTokens)) cached else cached)

def modelContent (parts : List Json) : Json := .object [("parts", .array parts), ("role", .string "model")]

def writeCandidate (lib : JsonLib) (resp : IrResponse) : Json :=
  let finishReason := (resp.stopReason.map writeGeminiStopReason).getD geminiFinishStop
  let sources := citationSources 0 resp.content
  let members := Json.insertMember fieldFinishReason (.string finishReason)
    (Json.insertMember "content" (modelContent (resp.content.flatMap (blockParts lib))) [])
  let members := if sources.isEmpty then members
    else Json.insertMember "citationMetadata" (.object [("citationSources", .array sources)]) members
  .object (if resp.logprobs.isEmpty then members
    else Json.insertMember "logprobsResult" (writeGeminiLogprobsResult resp.logprobs) members)

/-- A response; `synthId` is the id made up where the answer came from another dialect without one. -/
def writeResponse (lib : JsonLib) (synthId : String) (resp : IrResponse) : Json :=
  let members := Json.insertMember fieldUsageMetadata
    (writeUsageMetadata resp.usage (resp.created.isSome || resp.model.isSome))
    (Json.insertMember "candidates" (.array [writeCandidate lib resp]) [])
  let members := resp.model.elim members (fun model => Json.insertMember fieldModelVersion (.string model) members)
  .object (match resp.id, resp.created with
    | some id, _ => Json.insertMember fieldResponseId (.string id) members
    | none, some _ => Json.insertMember fieldResponseId (.string synthId) members
    | none, none => members)

/-! ## Streams -/

/-- The tool blocks that are open, with their names and the arguments that have come. -/
abbrev OpenTools := List (Nat × String × String)

/-- Open a tool block; one that is open starts over. -/
def openTool (index : Nat) (name : String) (tools : OpenTools) : OpenTools :=
  if tools.any (fun entry => entry.1 = index) then
    tools.map (fun entry => if entry.1 = index then (index, name, "") else entry)
  else tools ++ [(index, name, "")]

/-- A fragment that would go past the cap is left out whole. -/
def pushArgs (cap : Nat) (index : Nat) (fragment : String) (tools : OpenTools) : OpenTools :=
  tools.map (fun entry =>
    if entry.1 = index ∧ entry.2.2.utf8ByteSize + fragment.utf8ByteSize ≤ cap then (index, entry.2.1, entry.2.2 ++ fragment)
    else entry)

/-- The arguments of a call that is complete; what cannot be read is none. -/
def flushArgs (lib : JsonLib) (args : String) : Json :=
  if args = "" then .object [] else (lib.parseStr args).getD (.object [])

def geminiStreamErrorCodeStatus : StatusClass → Nat × String
  | .rateLimit => (429, "RESOURCE_EXHAUSTED")
  | .overloaded => (503, "UNAVAILABLE")
  | .serverError => (500, "INTERNAL")
  | .timeout => (504, "DEADLINE_EXCEEDED")
  | .network => (503, "UNAVAILABLE")
  | .auth => (401, "UNAUTHENTICATED")
  | .billing => (403, "PERMISSION_DENIED")
  | .clientError => (400, "INVALID_ARGUMENT")
  | .contextLength => (400, "INVALID_ARGUMENT")

def candidateChunk (members : List (String × Json)) : String × Json :=
  ("", .object [("candidates", .array [.object members])])

def partChunk (part : Json) : String × Json := candidateChunk [("content", modelContent [part])]

def writeDelta : IrDelta → Option (String × Json)
  | .text text => some (partChunk (.object [("text", .string text)]))
  | .inputJson _ => none
  | .thinking thinking => some (partChunk (.object [("text", .string thinking), ("thought", .bool true)]))
  | .signature sig => some (partChunk
      (.object [("text", .string ""), ("thought", .bool true), ("thoughtSignature", .string sig)]))
  | .redactedReasoning _ => none
  | .citations citations =>
    if citations.isEmpty then none
    else some (candidateChunk [("citationMetadata", .object
      [("citationSources", .array (citations.map (fun c => writeGeminiCitation c "" 0)))])])
  | .logprobs lps =>
    if lps.isEmpty then none else some (candidateChunk [("logprobsResult", writeGeminiLogprobsResult lps)])

/-- One event. A tool block is written when it stops; entries of an index are unique. -/
def writeResponseEvent (lib : JsonLib) (cap : Nat) (synthId : String) (ev : IrStreamEvent) (tools : OpenTools) :
    Option (String × Json) × OpenTools :=
  match ev with
  | .messageStart _ _ id _ model =>
    let members := Json.insertMember fieldResponseId (.string (id.getD synthId)) []
    (some ("", .object (model.elim members (fun model => Json.insertMember fieldModelVersion (.string model) members))),
      tools)
  | .blockStart index (.toolUse _ name) => (none, openTool index name tools)
  | .blockStart _ _ => (none, tools)
  | .blockDelta index (.inputJson fragment) => (none, pushArgs cap index fragment tools)
  | .blockDelta _ delta => (writeDelta delta, tools)
  | .blockStop index =>
    match tools.find? (fun entry => entry.1 = index) with
    | none => (none, tools)
    | some (_, name, args) =>
      (some (partChunk (functionCallPart name (flushArgs lib args))), tools.eraseP (fun entry => entry.1 = index))
  | .messageDelta stopReason _ usage =>
    (some ("", .object [("candidates", .array [.object [(fieldFinishReason,
        .string ((stopReason.map writeGeminiStopReason).getD geminiFinishStop))]]),
      (fieldUsageMetadata, writeUsageMetadata usage true)]), tools)
  | .messageStop => (none, tools)
  | .error err =>
    let (code, status) := geminiStreamErrorCodeStatus err.cls
    (some ("", .object [("error", .object [("code", .number (.posInt code)),
      ("message", .string (err.providerSignal.getD "error")), ("status", .string status)])]), tools)

/-- The chunks of a stream, from its start. -/
def writeAll (lib : JsonLib) (cap : Nat) (synthId : String) : List IrStreamEvent → OpenTools → List (String × Json)
  | [], _ => []
  | ev :: evs, tools =>
    (writeResponseEvent lib cap synthId ev tools).1.toList ++
      writeAll lib cap synthId evs (writeResponseEvent lib cap synthId ev tools).2

end Busbar.Gemini
