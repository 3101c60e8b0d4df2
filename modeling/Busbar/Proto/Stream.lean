import Busbar.EventStream
import Busbar.Proto.Framing
import Busbar.Proto.Sse
import Mathlib.Data.List.Defs

/-!
# The response-stream translator

`StreamTranslate` is fed the backend's bytes and gives out the client's: frames are cut out of a reassembly
buffer, read into events, and written by the client's protocol; on a same-protocol stream the frames go out
as they came in and the events only feed the usage account.

* `StreamTranslate.feed`, `finish`: a chunk of input, and the end of it.
* `Translator.translateEvent`, `extractUsageOnly`: what one decoded frame does in either mode.
-/

namespace Busbar

def streamAbortDetail : String := "The response stream was interrupted."

def upstreamStreamError : String := "upstream stream error"

def anthropicPingSseFrame : Bytes := utf8 "event: ping\ndata: \x7b\"type\":\"ping\"\x7d\n\n"

def maxBuf : Nat := maxFrameBytes

/-- What is fixed when the translator is built. -/
structure StreamConfig (D W : Type) where
  ingress : Protocol D W
  egress : Protocol D W
  emitDone : Bool
  egressEventstream : Bool
  ingressEventstream : Bool
  sameProto : Bool

/-- What handling an event reads and changes. -/
structure Translator (D W : Type) where
  decode : D
  writer : W
  framing : StreamFraming
  startUsage : Option IrUsage
  messageStopped : Bool
  lastUsage : Option IrUsage
  terminalError : Option String
  pendingTerminal : Option (IrStopReason × Option String × IrUsage)
  pendingStop : Bool
  openBlocks : List Nat

structure StreamTranslate (D W : Type) extends StreamConfig D W, Translator D W where
  buf : Bytes
  scanned : Nat
  aborted : Bool
  started : Bool

/-! ## Usage -/

/-- Fill in what the stream's start reported and its terminal delta left out. -/
def IrUsage.backfill (usage : IrUsage) : Option IrUsage → IrUsage
  | some start =>
    { usage with
      inputTokens := if usage.inputTokens = 0 then start.inputTokens else usage.inputTokens
      cacheCreationInputTokens := usage.cacheCreationInputTokens.or start.cacheCreationInputTokens
      cacheReadInputTokens := usage.cacheReadInputTokens.or start.cacheReadInputTokens }
  | none => usage

/-- Non-zero and present fields of the later usage win. -/
def mergeTrailingUsage (acc trailing : IrUsage) : IrUsage where
  inputTokens := if trailing.inputTokens ≠ 0 then trailing.inputTokens else acc.inputTokens
  outputTokens := if trailing.outputTokens ≠ 0 then trailing.outputTokens else acc.outputTokens
  cacheCreationInputTokens := trailing.cacheCreationInputTokens.or acc.cacheCreationInputTokens
  cacheReadInputTokens := trailing.cacheReadInputTokens.or acc.cacheReadInputTokens

namespace Translator

variable {D W : Type} (lib : WireLib) (elapsed : Option Nat) (cfg : StreamConfig D W)

def accumulate (tr : Translator D W) (usage : IrUsage) : Translator D W :=
  { tr with lastUsage := some (mergeTrailingUsage (tr.lastUsage.getD .zero) usage) }

def recordError (tr : Translator D W) (err : IrError) : Translator D W :=
  { tr with terminalError := some (err.providerSignal.getD upstreamStreamError) }

/-! ## Emission -/

def insertSorted (i : Nat) : List Nat → List Nat
  | [] => [i]
  | j :: js => if i < j then i :: j :: js else if i = j then j :: js else j :: insertSorted i js

def trackBlock (tr : Translator D W) : IrStreamEvent → Translator D W
  | .blockStart index _ => { tr with openBlocks := insertSorted index tr.openBlocks }
  | .blockStop index => { tr with openBlocks := tr.openBlocks.filter (· ≠ index) }
  | _ => tr

/-- Write one event through the client's writer. `elapsed` is the time since the first byte was fed. -/
def emitIrEvent (tr : Translator D W) (ev : IrStreamEvent) : Translator D W × Bytes :=
  let tr := tr.trackBlock ev
  let (wrote, writer) := cfg.ingress.writer.writeResponseEvent tr.writer ev
  let tr := { tr with writer := writer }
  match wrote with
  | none => (tr, [])
  | some (outEt, outData) =>
    if cfg.ingressEventstream then
      let outData := tr.framing.injectStreamingMetrics outEt outData elapsed
      (tr, encodeFrame lib outEt (lib.toVec outData))
    else
      let (trailing, outData, framing) := tr.framing.onEgressChunk outData
      let tr := { tr with framing := framing }
      match trailing with
      | some trailing =>
        (tr, writeSseFrame lib.toJsonLib outEt outData ++ writeSseFrame lib.toJsonLib outEt trailing)
      | none => (tr, writeSseFrame lib.toJsonLib outEt outData)

def emitAll (tr : Translator D W) : List IrStreamEvent → Translator D W × Bytes
  | [] => (tr, [])
  | ev :: evs =>
    let (tr, out) := emitIrEvent lib elapsed cfg tr ev
    let (tr, outs) := emitAll tr evs
    (tr, out ++ outs)

/-- Close every block the reader left open, in index order. -/
def closeOpenBlocks (tr : Translator D W) : Translator D W × Bytes :=
  emitAll lib elapsed cfg { tr with openBlocks := [] } (tr.openBlocks.map .blockStop)

/-! ## Events -/

/-- The usage account and the error signal every event passes through, and the event as it goes on. -/
def observe (tr : Translator D W) : IrStreamEvent → Translator D W × IrStreamEvent
  | .messageStart role usage _ _ model =>
    ({ tr with startUsage := usage.or tr.startUsage }, .messageStart role usage none none model)
  | .messageDelta stopReason stopSequence usage =>
    let usage := usage.backfill tr.startUsage
    (tr.accumulate usage, .messageDelta stopReason stopSequence usage)
  | .error err => (tr.recordError err, .error err)
  | ev => (tr, ev)

def isTerminal : IrStreamEvent → Bool
  | .messageDelta (some _) _ _ | .messageStop => true
  | _ => false

def isDelta : IrStreamEvent → Bool
  | .messageDelta .. => true
  | _ => false

/-- The fold of trailing usage into the deferred terminal delta; none where the event goes on. -/
def foldTerminal (tr : Translator D W) (ev : IrStreamEvent) : Option (Translator D W) :=
  if tr.framing.foldsTerminalUsage then
    match ev, tr.pendingTerminal with
    | .messageDelta (some _) _ usage, some (reason, seq, acc) =>
      some { tr with pendingTerminal := some (reason, seq, mergeTrailingUsage acc usage) }
    | .messageDelta (some reason) seq usage, none => some { tr with pendingTerminal := some (reason, seq, usage) }
    | .messageStop, some _ => some { tr with pendingStop := true }
    | .messageDelta none _ usage, some (reason, seq, acc) =>
      some { tr with pendingTerminal := some (reason, seq, mergeTrailingUsage acc usage) }
    | _, _ => none
  else none

/-- One event per group of at most as many citations as the client's protocol takes. -/
def citationFanOut (ev : IrStreamEvent) : Option (List IrStreamEvent) :=
  match cfg.ingress.writer.maxCitationsPerDelta, ev with
  | some maxPerEvent, .blockDelta index (.citations citations) =>
    if citations.length > maxPerEvent then
      some ((citations.toChunks maxPerEvent).map (fun group => .blockDelta index (.citations group)))
    else none
  | _, _ => none

/-- The modeled exception an event-stream client gets in place of an error event. -/
def exceptionFrame : IrStreamEvent → Option Bytes
  | .error err =>
    if cfg.ingressEventstream then
      (cfg.ingress.writer.writeResponseException err).map (fun (name, message) =>
        encodeExceptionFrame lib name message)
    else none
  | _ => none

/-- The framing's own split of a stop delta into the stop and the usage frame. -/
def combinedStop (tr : Translator D W) : IrStreamEvent → Option (List IrStreamEvent × StreamFraming)
  | .messageDelta (some reason) seq usage =>
    match tr.framing.onCombinedStopDelta reason seq usage with
    | (some events, framing) => some (events, framing)
    | (none, _) => none
  | _ => none

/-- The framing's own decision about a usage-only delta. -/
def usageOnly (tr : Translator D W) : IrStreamEvent → Option (Bool × StreamFraming)
  | .messageDelta none _ _ =>
    match tr.framing.onUsageOnlyDelta with
    | (some shouldEmit, framing) => some (shouldEmit, framing)
    | (none, _) => none
  | _ => none

/-- The event past the framing's special cases: the guard against deltas after the stop, the citation fan-out,
the ping after an Anthropic start. -/
def emitPlain (tr : Translator D W) (ev : IrStreamEvent) : Translator D W × Bytes :=
  if tr.messageStopped && isDelta ev then (tr, [])
  else
    let tr := match ev with
      | .messageStop => { tr with messageStopped := true }
      | _ => tr
    match citationFanOut cfg ev with
    | some events => emitAll lib elapsed cfg tr events
    | none =>
      let (tr, out) := emitIrEvent lib elapsed cfg tr ev
      match ev with
      | .messageStart .. =>
        (tr, out ++ if cfg.ingress.name = protoAnthropic then anthropicPingSseFrame else [])
      | _ => (tr, out)

def translateOne (tr : Translator D W) (ev : IrStreamEvent) : Translator D W × Bytes :=
  let (tr, ev) := tr.observe (remapEvent cfg.ingress.name ev)
  match exceptionFrame lib cfg ev with
  | some frame => (tr, frame)
  | none =>
    let (tr, closed) := if isTerminal ev then closeOpenBlocks lib elapsed cfg tr else (tr, [])
    match combinedStop tr ev with
    | some (events, framing) =>
      let (tr, out) := emitAll lib elapsed cfg { tr with framing := framing } events
      (tr, closed ++ out)
    | none =>
      match foldTerminal tr ev with
      | some tr => (tr, closed)
      | none =>
        match usageOnly tr ev with
        | some (shouldEmit, framing) =>
          let tr := { tr with framing := framing }
          let (tr, out) := if shouldEmit then emitIrEvent lib elapsed cfg tr ev else (tr, [])
          (tr, closed ++ out)
        | none =>
          let (tr, out) := emitPlain lib elapsed cfg tr ev
          (tr, closed ++ out)

def translateAll (tr : Translator D W) : List IrStreamEvent → Translator D W × Bytes
  | [] => (tr, [])
  | ev :: evs =>
    let (tr, out) := translateOne lib elapsed cfg tr ev
    let (tr, outs) := translateAll tr evs
    (tr, out ++ outs)

/-- Translate one frame of the backend. -/
def translateEvent (tr : Translator D W) (eventType : String) (data : Json) : Translator D W × Bytes :=
  let (events, decode) := cfg.egress.reader.readResponseEvents eventType data tr.decode
  translateAll lib elapsed cfg { tr with decode := decode } events

/-- The usage account and the error signal of one event of a same-protocol stream. -/
def accountEvent (tr : Translator D W) : IrStreamEvent → Translator D W
  | .messageStart _ usage _ _ _ => { tr with startUsage := usage.or tr.startUsage }
  | .error err => tr.recordError err
  | .messageDelta _ _ usage => tr.accumulate (usage.backfill tr.startUsage)
  | _ => tr

def extractUsageOnly (tr : Translator D W) (eventType : String) (data : Json) : Translator D W :=
  let (events, decode) := cfg.egress.reader.readResponseEvents eventType data tr.decode
  events.foldl accountEvent { tr with decode := decode }

/-! ## Frames -/

/-- What becomes of a same-protocol frame's bytes. -/
inductive FrameFate where
  | kept | suppressed
  | stripped (rewritten : Bytes)

/-- The events of the same-protocol Anthropic stream that are decoded. -/
def anthropicDecoded : List String := ["message_start", "message_delta", "error"]

/-- Handle one SSE frame: the bytes it translates to, and what becomes of its own. -/
def handleFrame (tr : Translator D W) (frame : Bytes) : Translator D W × Bytes × FrameFate :=
  match parseSseFrame frame with
  | none => (tr, [], .kept)
  | some (eventType, dataStr) =>
    if dataStr = "" ∨ dataStr = sseDoneSentinel then (tr, [], .kept)
    else if cfg.sameProto ∧ cfg.egress.name = protoAnthropic ∧ eventType ∉ anthropicDecoded then (tr, [], .kept)
    else
      match lib.parseStr dataStr with
      | none => (tr, [], .kept)
      | some data =>
        if cfg.sameProto then
          let tr := extractUsageOnly cfg tr eventType data
          if tr.framing.suppressSameProtoFrame data then (tr, [], .suppressed)
          else if tr.framing.stripSameProtoUsage data then
            (tr, [], .stripped (rewriteFrameStripUsage frame dataStr))
          else (tr, [], .kept)
        else
          let (tr, out) := translateEvent lib elapsed cfg tr eventType data
          (tr, out, .kept)

/-- Handle one event-stream frame. -/
def handleEventFrame (tr : Translator D W) (eventType : String) (payload : Bytes) : Translator D W × Bytes :=
  match lib.fromSlice payload with
  | none => (tr, [])
  | some data =>
    let data := data.mapObject (Json.insertMember "type" (.string eventType))
    if cfg.sameProto then (extractUsageOnly cfg tr eventType data, [])
    else translateEvent lib elapsed cfg tr eventType data

def handleEventFrames (tr : Translator D W) : List (String × Bytes) → Translator D W × Bytes
  | [] => (tr, [])
  | (eventType, payload) :: frames =>
    let (tr, out) := handleEventFrame lib elapsed cfg tr eventType payload
    let (tr, outs) := handleEventFrames tr frames
    (tr, out ++ outs)

/-- `buf[from..to]`. -/
def slice (buf : Bytes) (start stop : Nat) : Bytes := (buf.take stop).drop start

theorem consumed_lt {buf : Bytes} {scanned consumed rel termLen : Nat}
    (h : findFrameTerminator (buf.drop (min (max (scanned - 3) consumed) buf.length)) = some (rel, termLen)) :
    consumed < min (max (scanned - 3) consumed) buf.length + rel + termLen ∧
      min (max (scanned - 3) consumed) buf.length + rel + termLen ≤ buf.length := by
  have hb := findFrameTerminator_bounds h
  rw [List.length_drop] at hb
  omega

/-- The scan of the buffer. `consumed` is the start of the next frame, `scanned` is how far a terminator has
been looked for, `emitFrom` is the start of the bytes that have yet to go out verbatim. -/
def drainSse (buf : Bytes) (tr : Translator D W) (scanned consumed emitFrom : Nat) (out : Bytes) :
    Translator D W × Nat × Nat × Bytes :=
  let searchFrom := min (max (scanned - 3) consumed) buf.length
  match _h : findFrameTerminator (buf.drop searchFrom) with
  | some (rel, termLen) =>
    let stop := searchFrom + rel + termLen
    let (tr, translated, fate) := handleFrame lib elapsed cfg tr (slice buf consumed stop)
    match fate with
    | .kept => drainSse buf tr stop stop emitFrom (out ++ translated)
    | .suppressed => drainSse buf tr stop stop stop (out ++ slice buf emitFrom consumed)
    | .stripped rewritten => drainSse buf tr stop stop stop (out ++ slice buf emitFrom consumed ++ rewritten)
  | none => (tr, consumed, emitFrom, out)
termination_by buf.length - consumed
decreasing_by all_goals have := consumed_lt _h; omega

end Translator

namespace StreamTranslate

variable {D W : Type} (lib : WireLib) (elapsedMs : Nat)

/-- Build a translator over known protocols; `initDecode` and `initWriter` are the states a stream starts in. -/
def build (protocolFor : String → Option (Protocol D W)) (initDecode : D) (initWriter : W)
    (ingress egress : String) (sameProto : Bool) : Option (StreamTranslate D W) := do
  let ingressProto ← protocolFor ingress
  let egressProto ← protocolFor egress
  some
    { ingress := ingressProto, egress := egressProto
      emitDone := ingressProto.writer.emitsSseDoneTerminator
      egressEventstream := egressProto.writer.ingressIsEventstream
      ingressEventstream := ingressProto.writer.ingressIsEventstream
      sameProto := sameProto
      decode := initDecode, writer := initWriter
      framing := StreamFraming.fresh ingressProto.writer.framingKind
      startUsage := none, messageStopped := false, lastUsage := none, terminalError := none
      pendingTerminal := none, pendingStop := false, openBlocks := []
      buf := [], scanned := 0, aborted := false, started := false }

/-- `StreamTranslate::new`: across two protocols. -/
def new (protocolFor : String → Option (Protocol D W)) (initDecode : D) (initWriter : W)
    (ingress egress : String) : Option (StreamTranslate D W) :=
  if ingress = egress then none else build protocolFor initDecode initWriter ingress egress false

/-- `StreamTranslate::new_same_proto`. -/
def newSameProto (protocolFor : String → Option (Protocol D W)) (initDecode : D) (initWriter : W)
    (proto : String) : Option (StreamTranslate D W) :=
  build protocolFor initDecode initWriter proto proto true

def setClientIncludeUsage (t : StreamTranslate D W) (opted : Bool) : StreamTranslate D W :=
  { t with framing := t.framing.setClientIncludeUsage opted }

/-- The latency an event may report. The clock reading is the parameter `elapsedMs`, held constant. -/
def elapsed (t : StreamTranslate D W) : Option Nat := if t.started then some elapsedMs else none

def abort (t : StreamTranslate D W) : StreamTranslate D W := { t with aborted := true, buf := [], scanned := 0 }

/-- `feed` on binary framing. -/
def feedEventstream (t : StreamTranslate D W) : StreamTranslate D W × Bytes :=
  let (frames, status, rest, sink) := drainFramesChecked t.buf
  let (tr, out) := Translator.handleEventFrames lib (t.elapsed elapsedMs) t.toStreamConfig t.toTranslator frames
  let t := { t with toTranslator := tr, buf := rest }
  let t := if status = .malformedPrelude ∨ t.buf.length > maxBuf then t.abort else t
  (t, (if t.sameProto then sink else []) ++ out)

/-- `feed` on SSE. -/
def feedSse (t : StreamTranslate D W) : StreamTranslate D W × Bytes :=
  let (tr, consumed, emitFrom, out) :=
    Translator.drainSse lib (t.elapsed elapsedMs) t.toStreamConfig t.buf t.toTranslator t.scanned 0 0 []
  let out := if t.sameProto then out ++ Translator.slice t.buf emitFrom consumed else out
  let t := { t with toTranslator := tr, buf := t.buf.drop consumed, scanned := (t.buf.drop consumed).length }
  let t := if t.buf.length > maxBuf then t.abort else t
  (t, out)

/-- Take in a chunk. -/
def feed (t : StreamTranslate D W) (chunk : Bytes) : StreamTranslate D W × Bytes :=
  if t.aborted then (t, [])
  else
    let t := { t with started := true, buf := t.buf ++ chunk }
    if t.egressEventstream then t.feedEventstream lib elapsedMs else t.feedSse lib elapsedMs

/-- The terminal frame of an abandoned stream. -/
def finishAborted (t : StreamTranslate D W) : StreamTranslate D W × Bytes :=
  match t.framing.abortExceptionType with
  | some excType => (t, encodeExceptionFrame lib excType streamAbortDetail)
  | none =>
    let err : IrError := ⟨.serverError, some streamAbortDetail, none⟩
    let (tr, out) := Translator.emitIrEvent lib (t.elapsed elapsedMs) t.toStreamConfig t.toTranslator (.error err)
    ({ t with toTranslator := tr }, out ++ if t.emitDone then sseDoneFrame else [])

/-- The deferred terminal delta, with its stop. -/
def pendingEvents (tr : Translator D W) : List IrStreamEvent :=
  match tr.pendingTerminal with
  | some (reason, seq, usage) =>
    .messageDelta (some reason) seq usage :: if tr.pendingStop then [.messageStop] else []
  | none => []

/-- The end of the input. -/
def finish (t : StreamTranslate D W) : StreamTranslate D W × Bytes :=
  if t.aborted then t.finishAborted lib elapsedMs
  -- the backend's own terminator went out with its frames; what is still buffered is dropped
  else if t.sameProto then (t, [])
  else
    let elapsed := t.elapsed elapsedMs
    let (tr, closed) := Translator.closeOpenBlocks lib elapsed t.toStreamConfig t.toTranslator
    let (owed, framing) := tr.framing.onFinish
    let (tr, trailing) := Translator.emitAll lib elapsed t.toStreamConfig { tr with framing := framing } owed.toList
    let (tr, flushed) := Translator.emitAll lib elapsed t.toStreamConfig { tr with pendingTerminal := none }
      (pendingEvents tr)
    ({ t with toTranslator := tr }, closed ++ trailing ++ flushed ++ if t.emitDone then sseDoneFrame else [])

def usage (t : StreamTranslate D W) : Option IrUsage := t.lastUsage

/-- Feed the chunks in turn. -/
def feedAll (t : StreamTranslate D W) : List Bytes → StreamTranslate D W × Bytes
  | [] => (t, [])
  | c :: cs =>
    let (t, out) := t.feed lib elapsedMs c
    let (t, outs) := feedAll t cs
    (t, out ++ outs)

/-- A whole stream: everything that goes out, and the translator at its end. -/
def run (t : StreamTranslate D W) (chunks : List Bytes) : StreamTranslate D W × Bytes :=
  let (t, out) := t.feedAll lib elapsedMs chunks
  let (t, tail) := t.finish lib elapsedMs
  (t, out ++ tail)

end StreamTranslate

end Busbar
