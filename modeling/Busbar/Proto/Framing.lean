import Busbar.Ir

/-!
# Protocols and their stream framing

The reader and the writer of a wire protocol are interfaces; a protocol bundles one of each. The framing a
writer gives a stream is one of three: the inert default, OpenAI's chunk identity and usage handling, and
Bedrock's two terminal frames.

* `StreamFraming.onFinish_fresh`: a framing that has seen nothing owes nothing at the end.
* `StreamFraming.suppress_strip_eq_false`: the framings that leave every frame of a passthrough alone.
-/

namespace Busbar

/-! ## OpenAI -/

def objChunk : String := "chat.completion.chunk"

structure OpenAiChunkIdentity where
  id : Json
  created : Json
  model : Option Json

structure OpenAiStreamFraming where
  chunkIdentity : Option OpenAiChunkIdentity
  toolCallIndex : List (Nat × Nat)
  clientIncludeUsage : Bool

def isChunk (chunk : Json) : Bool := (chunk.get "object").bind Json.asStr == some objChunk

/-- Latch the identity of the first chunk that has an id, and put it on every later one. -/
def OpenAiStreamFraming.applyChunkIdentity (fr : OpenAiStreamFraming) (chunk : Json) : OpenAiStreamFraming × Json :=
  if isChunk chunk then
    match fr.chunkIdentity with
    | none =>
      match chunk.get "id" with
      | some id =>
        let identity : OpenAiChunkIdentity := ⟨id, (chunk.get "created").getD .null, chunk.get "model"⟩
        ({ fr with chunkIdentity := some identity }, chunk)
      | none => (fr, chunk)
    | some identity =>
      (fr, chunk.mapObject fun members =>
        let members := Json.orInsertMember "id" identity.id members
        let members := Json.orInsertMember "created" identity.created members
        match identity.model with
        | some model => Json.orInsertMember "model" model members
        | none => members)
  else (fr, chunk)

/-- Change the elements of a list in turn, carrying a state. -/
def mapState {σ β : Type} (f : σ → β → σ × β) (s : σ) : List β → σ × List β
  | [] => (s, [])
  | x :: xs =>
    let (s, x) := f s x
    let (s, xs) := mapState f s xs
    (s, x :: xs)

/-- Change the elements of an array member in turn; a value without that array stays as it is. -/
def mapArrayMember {σ : Type} (k : String) (f : σ → Json → σ × Json) (s : σ) (j : Json) : σ × Json :=
  match (j.get k).bind Json.asArray with
  | some elems =>
    let (s, elems) := mapState f s elems
    (s, j.mapObject (Json.insertMember k (.array elems)))
  | none => (s, j)

def mapMember {σ : Type} (k : String) (f : σ → Json → σ × Json) (s : σ) (j : Json) : σ × Json :=
  match j.get k with
  | some v =>
    let (s, v) := f s v
    (s, j.mapObject (Json.insertMember k v))
  | none => (s, j)

/-- The ordinal of a tool call: the next free one on first sight of its raw index. -/
def assignOrdinal (map : List (Nat × Nat)) (raw : Nat) : List (Nat × Nat) × Nat :=
  match map.lookup raw with
  | some ordinal => (map, ordinal)
  | none => (map ++ [(raw, map.length)], map.length)

def remapToolCall (map : List (Nat × Nat)) (tc : Json) : List (Nat × Nat) × Json :=
  match (tc.get "index").bind Json.asU64 with
  | some raw =>
    let (map, ordinal) := assignOrdinal map raw
    (map, tc.mapObject (Json.insertMember "index" (.number (.posInt ordinal))))
  | none => (map, tc)

def OpenAiStreamFraming.remapToolCallIndex (fr : OpenAiStreamFraming) (chunk : Json) :
    OpenAiStreamFraming × Json :=
  if isChunk chunk then
    let (map, chunk) := mapArrayMember "choices"
      (mapMember "delta" (mapArrayMember "tool_calls" remapToolCall)) fr.toolCallIndex chunk
    ({ fr with toolCallIndex := map }, chunk)
  else (fr, chunk)

/-- A chunk that ends a choice and carries usage. -/
def foldsUsage (chunk : Json) : Bool :=
  isChunk chunk && (chunk.get "usage").isSome &&
    (((((chunk.get "choices").bind Json.asArray).bind List.head?).bind (Json.get "finish_reason")).map
      (fun fr => !fr.isNull)).getD false

def optMember (k : String) (v : Option Json) (members : List (String × Json)) : List (String × Json) :=
  match v with
  | some v => Json.insertMember k v members
  | none => members

/-- Take the usage of a finish chunk over to a trailing chunk of the same identity. -/
def splitOpenAiTrailingUsage (chunk : Json) : Option Json × Json :=
  match foldsUsage chunk, chunk.get "usage" with
  | true, some usage =>
    let trailing := optMember "id" (chunk.get "id") []
    let trailing := Json.insertMember "object" (.string objChunk) trailing
    let trailing := optMember "created" (chunk.get "created") trailing
    let trailing := optMember "model" (chunk.get "model") trailing
    let trailing := Json.insertMember "choices" (.array []) trailing
    let trailing := Json.insertMember "usage" usage trailing
    (some (.object trailing), chunk.mapObject (Json.removeMember "usage"))
  | _, _ => (none, chunk)

def stripFoldedUsage (chunk : Json) : Json :=
  if foldsUsage chunk then chunk.mapObject (Json.removeMember "usage") else chunk

/-- The trailing chunk, the chunk as it goes out, and the framing after it. -/
def OpenAiStreamFraming.onEgressChunk (fr : OpenAiStreamFraming) (chunk : Json) :
    Option Json × Json × OpenAiStreamFraming :=
  let (fr, chunk) := fr.applyChunkIdentity chunk
  let (fr, chunk) := fr.remapToolCallIndex chunk
  if fr.clientIncludeUsage then
    let (trailing, chunk) := splitOpenAiTrailingUsage chunk
    (trailing, chunk, fr)
  else (none, stripFoldedUsage chunk, fr)

def choicesOf (data : Json) : Option (List Json) := (data.get "choices").bind Json.asArray

def OpenAiStreamFraming.suppressSameProtoFrame (fr : OpenAiStreamFraming) (data : Json) : Bool :=
  !fr.clientIncludeUsage && isChunk data && (data.get "usage").any Json.isObject
    && (choicesOf data).any List.isEmpty

def OpenAiStreamFraming.stripSameProtoUsage (fr : OpenAiStreamFraming) (data : Json) : Bool :=
  !fr.clientIncludeUsage && (data.get "usage").isSome && (choicesOf data).any (fun arr => !arr.isEmpty)

/-! ## Bedrock -/

structure BedrockStreamFraming where
  emitted : Bool
  pending : Bool
  deriving DecidableEq, Repr

def excInternalServer : String := "InternalServerException"

def etMetadata : String := "metadata"

def IrUsage.isReal (usage : IrUsage) : Bool :=
  usage.inputTokens ≠ 0 || usage.outputTokens ≠ 0 || usage.cacheReadInputTokens.getD 0 ≠ 0
    || usage.cacheCreationInputTokens.getD 0 ≠ 0

def BedrockStreamFraming.onCombinedStopDelta (fr : BedrockStreamFraming) (stopReason : IrStopReason)
    (stopSequence : Option String) (usage : IrUsage) : List IrStreamEvent × BedrockStreamFraming :=
  let stop := IrStreamEvent.messageDelta (some stopReason) stopSequence .zero
  if fr.emitted then ([stop], fr)
  else if usage.isReal then ([stop, .messageDelta none stopSequence usage], ⟨true, false⟩)
  else ([stop], { fr with pending := true })

def BedrockStreamFraming.onUsageOnlyDelta (fr : BedrockStreamFraming) : Bool × BedrockStreamFraming :=
  if fr.emitted then (false, fr) else (true, ⟨true, false⟩)

def BedrockStreamFraming.onFinish (fr : BedrockStreamFraming) : Option IrStreamEvent × BedrockStreamFraming :=
  if !fr.pending || fr.emitted then (none, fr)
  else (some (.messageDelta none none .zero), ⟨true, false⟩)

/-- The latency on the metadata frame; left out when no byte was fed. -/
def injectLatency (eventType : String) (data : Json) (elapsedMs : Option Nat) : Json :=
  if eventType = etMetadata then
    match elapsedMs with
    | some ms =>
      let metrics := Json.object [("latencyMs", .number (.posInt (min ms (2 ^ 64 - 1))))]
      data.mapObject (Json.insertMember "metrics" metrics)
    | none => data
  else data

/-! ## The framing of a stream -/

/-- Which framing a writer gives its streams. -/
inductive FramingKind where
  | passthrough | openAi | bedrock
  deriving DecidableEq, Repr

inductive StreamFraming where
  | passthrough
  | openAi (fr : OpenAiStreamFraming)
  | bedrock (fr : BedrockStreamFraming)

namespace StreamFraming

def fresh : FramingKind → StreamFraming
  | .passthrough => passthrough
  | .openAi => openAi ⟨none, [], false⟩
  | .bedrock => bedrock ⟨false, false⟩

def onEgressChunk (fr : StreamFraming) (chunk : Json) : Option Json × Json × StreamFraming :=
  match fr with
  | openAi fr =>
    let (trailing, chunk, fr) := fr.onEgressChunk chunk
    (trailing, chunk, openAi fr)
  | fr => (none, chunk, fr)

def onCombinedStopDelta (fr : StreamFraming) (stopReason : IrStopReason) (stopSequence : Option String)
    (usage : IrUsage) : Option (List IrStreamEvent) × StreamFraming :=
  match fr with
  | bedrock fr =>
    let (events, fr) := fr.onCombinedStopDelta stopReason stopSequence usage
    (some events, bedrock fr)
  | fr => (none, fr)

def onUsageOnlyDelta (fr : StreamFraming) : Option Bool × StreamFraming :=
  match fr with
  | bedrock fr =>
    let (emit, fr) := fr.onUsageOnlyDelta
    (some emit, bedrock fr)
  | fr => (none, fr)

def onFinish (fr : StreamFraming) : Option IrStreamEvent × StreamFraming :=
  match fr with
  | bedrock fr =>
    let (ev, fr) := fr.onFinish
    (ev, bedrock fr)
  | fr => (none, fr)

def injectStreamingMetrics (fr : StreamFraming) (eventType : String) (data : Json) (elapsedMs : Option Nat) : Json :=
  match fr with
  | bedrock _ => injectLatency eventType data elapsedMs
  | _ => data

def abortExceptionType : StreamFraming → Option String
  | bedrock _ => some excInternalServer
  | _ => none

def foldsTerminalUsage : StreamFraming → Bool
  | passthrough => true
  | _ => false

def setClientIncludeUsage (fr : StreamFraming) (opted : Bool) : StreamFraming :=
  match fr with
  | openAi fr => openAi { fr with clientIncludeUsage := opted }
  | fr => fr

def suppressSameProtoFrame (fr : StreamFraming) (data : Json) : Bool :=
  match fr with
  | openAi fr => fr.suppressSameProtoFrame data
  | _ => false

def stripSameProtoUsage (fr : StreamFraming) (data : Json) : Bool :=
  match fr with
  | openAi fr => fr.stripSameProtoUsage data
  | _ => false

/-- Every framing but OpenAI's, and OpenAI's for a client that asked for usage. -/
def Verbatim : StreamFraming → Prop
  | openAi fr => fr.clientIncludeUsage = true
  | _ => True

theorem suppress_strip_eq_false {fr : StreamFraming} (h : fr.Verbatim) (data : Json) :
    fr.suppressSameProtoFrame data = false ∧ fr.stripSameProtoUsage data = false := by
  cases fr with
  | openAi fr =>
    have h : fr.clientIncludeUsage = true := h
    simp [suppressSameProtoFrame, OpenAiStreamFraming.suppressSameProtoFrame, stripSameProtoUsage,
      OpenAiStreamFraming.stripSameProtoUsage, h]
  | _ => exact ⟨rfl, rfl⟩

/-- A framing that has seen nothing owes nothing at the end. -/
theorem onFinish_fresh (kind : FramingKind) (opted : Bool) :
    ((fresh kind).setClientIncludeUsage opted).onFinish =
      (none, (fresh kind).setClientIncludeUsage opted) := by
  cases kind <;> rfl

end StreamFraming

/-! ## Protocols -/

def protoAnthropic : String := "anthropic"

def protoOpenAi : String := "openai"

def protoGemini : String := "gemini"

def protoBedrock : String := "bedrock"

def protoCohere : String := "cohere"

def protoResponses : String := "responses"

/-- A wire-to-IR reader, with the state it keeps over a stream. -/
structure ProtocolReader (D : Type) where
  readResponseEvents : String → Json → D → List IrStreamEvent × D

/-- An IR-to-wire writer. Its state is whatever it latches over a stream, the clock readings and random draws
still to come included. -/
structure ProtocolWriter (W : Type) where
  writeResponseEvent : W → IrStreamEvent → Option (String × Json) × W
  writeResponseException : IrError → Option (String × String)
  ingressIsEventstream : Bool
  emitsSseDoneTerminator : Bool
  maxCitationsPerDelta : Option Nat
  framingKind : FramingKind

structure Protocol (D W : Type) where
  name : String
  reader : ProtocolReader D
  writer : ProtocolWriter W

/-! ## Tool ids -/

def nativeToolIdPrefix (protocolName : String) : Option String :=
  if protocolName = protoAnthropic then some "toolu_"
  else if protocolName = protoOpenAi ∨ protocolName = protoResponses then some "call_"
  else if protocolName = protoBedrock then some "tooluse_"
  else none

def toolIdRemapMarker : String := "bb1"

/-- `ToolIdRemap::native_for`; its map only caches this. -/
def nativeToolId (ingressProtocol egressId : String) : String :=
  match nativeToolIdPrefix ingressProtocol with
  | some pre => pre ++ toolIdRemapMarker ++ hexEncode (utf8 egressId)
  | none => egressId

def remapEvent (ingressProtocol : String) : IrStreamEvent → IrStreamEvent
  | .blockStart index (.toolUse id name) => .blockStart index (.toolUse (nativeToolId ingressProtocol id) name)
  | ev => ev

end Busbar
