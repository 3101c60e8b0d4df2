import Busbar.Governance.Ledger
import Busbar.Proto.Account

/-!
# The response body

`FirstByteBody` stands between the backend's body and the client. It hands the bytes on, translated where the
protocols differ, and settles the request: a broken stream is held against the lane, the lane's budget unit
goes back where nothing usable arrived, and the tokens are ledgered to the key.

* `FirstByteBody.pollNext`: one poll, which may take in several answers of the body behind it.
* `FirstByteBody.drop`: the body is let go of, at its end or before.
* `FirstByteBody.life`: polls, and perhaps a drop.
-/

namespace Busbar

/-- What the body behind this one answers a poll with: a chunk, with the buffering cap and the latency as they
are read then, a transport error or a timeout, or the end. -/
inductive Answer where
  | pending
  | data (chunk : Bytes) (cap elapsedMs : Nat)
  | failed
  | finished (elapsedMs : Nat)

/-- What a poll of this body gives its caller. -/
inductive Polled where
  | pending
  | item (bytes : Bytes)
  | error (message : String)
  | finished

structure ServingLane where
  model : String
  provider : String
  deriving DecidableEq, Repr

/-- The lanes, and whether a failure recorded against one of them trips its breaker. -/
structure App where
  lanes : List ServingLane
  trips : String → Nat → String → Bool

/-- Where the tokens of a request are charged. -/
structure UsageSink where
  cost : CostModel
  key : VirtualKey
  pool : String
  chargedAt : Nat

/-- What the body asks of the operation it answers. -/
structure Operation where
  tapsNonstreamUsage : Bool
  extractUsage : String → Bytes → Option IrUsage

/-- The reframing of a Gemini stream into a JSON array. -/
structure JsonArrayFramer (J : Type) where
  feed : J → Bytes → J × Bytes
  finishForTranslate : J → Bool → J × Bytes
  finishWithServerError : J → String → J × Bytes

/-- What is done to settle the request. -/
inductive Settlement where
  | transient (pool : String) (laneIdx : Nat) (what : String)
  | tripped (pool : String) (laneIdx : Nat)
  | refund (laneIdx : Nat)
  | billed (sink : UsageSink) (lane : ServingLane) (usage : Option IrUsage) (tier : TierTokens)
  | truncated

structure FirstByteBody (D W J : Type) where
  inner : List Answer
  firstByteSent : Bool
  isSse : Bool
  ingressProtocol : String
  op : Operation
  ingressEventstream : Bool
  permit : Bool
  app : Option App
  laneIdx : Nat
  pool : String
  translate : Option (StreamTranslate D W)
  jsonArray : Option J
  usageSink : Option UsageSink
  budgetSpent : Bool
  ended : Bool
  streamFailed : Bool
  nonstreamBuf : Bytes

def midStreamGenericDetail : String := streamAbortDetail

def tierTokens (usage : IrUsage) : TierTokens :=
  ⟨usage.inputTokens, usage.outputTokens, usage.cacheReadInputTokens.getD 0,
    usage.cacheCreationInputTokens.getD 0⟩

/-- The tokens of a settlement go to the budget ledger. -/
def Settlement.ledger (cells : Cells) : Settlement → Cells
  | .billed sink lane _ tier => recordUsage sink.cost cells sink.key sink.pool lane.model tier sink.chargedAt
  | _ => cells

/-- What the bodies share: the wire libraries, the protocols, the framer, and the state of a fresh writer. -/
structure Proxy (D W J : Type) where
  lib : WireLib
  dialects : Dialects D W
  framer : JsonArrayFramer J
  freshWriter : W

/-- The terminal error frame of the client's protocol; of OpenAI's for a protocol that is not known. -/
def Proxy.midStreamErrorBytes {D W J : Type} (px : Proxy D W J) (ingressProtocol : String) (ingressEventstream : Bool)
    (message : String) : Bytes :=
  let err : IrError := ⟨.serverError, some message, none⟩
  let writer := ((px.dialects.protocolFor ingressProtocol).map Protocol.writer).getD px.dialects.openai.2
  let sse : Bytes :=
    match (writer.writeResponseEvent px.freshWriter (.error err)).1 with
    | some (eventType, data) => writeSseFrame px.lib.toJsonLib eventType data
    | none =>
      writeSseFrame px.lib.toJsonLib ""
        (.object [("error", .object [("message", .string message), ("type", .string "api_error")])])
  if ingressEventstream then
    match writer.writeResponseException err with
    | some (name, text) => encodeExceptionFrame px.lib name text
    | none => sse
  else sse

namespace FirstByteBody

variable {D W J : Type} (px : Proxy D W J)

def new (inner : List Answer) (isSse : Bool) (ingressProtocol : String) (op : Operation) (app : App) (laneIdx : Nat)
    (pool : String) (translate : Option (StreamTranslate D W)) (jsonArray : Option J)
    (usageSink : Option UsageSink) (budgetSpent : Bool) : FirstByteBody D W J :=
  let proto := px.dialects.protocolFor ingressProtocol
  { inner := inner, firstByteSent := false, isSse := isSse
    ingressProtocol := (proto.map Protocol.name).getD protoOpenAi
    op := op
    ingressEventstream := (proto.map (fun p => p.writer.ingressIsEventstream)).getD false
    permit := true, app := some app, laneIdx := laneIdx, pool := pool, translate := translate
    jsonArray := jsonArray, usageSink := usageSink, budgetSpent := budgetSpent
    ended := false, streamFailed := false, nonstreamBuf := [] }

/-- Bytes that go out; nothing does for the part of a frame. -/
def out (bytes : Bytes) : Option Bytes := if bytes = [] then none else some bytes

/-- Hold a failure against the lane. -/
def recordTransient (b : FirstByteBody D W J) (what : String) : List Settlement :=
  match b.app with
  | some app =>
    .transient b.pool b.laneIdx what ::
      if app.trips b.pool b.laneIdx what then [.tripped b.pool b.laneIdx] else []
  | none => []

/-- Give the lane's budget unit back, if it was taken. -/
def refundBudget (b : FirstByteBody D W J) : FirstByteBody D W J × List Settlement :=
  if b.budgetSpent then ({ b with budgetSpent := false }, (b.app.map (fun _ => .refund b.laneIdx)).toList)
  else (b, [])

/-- Ledger and meter the tokens to the serving lane's model. -/
def ledgerAndMeter (b : FirstByteBody D W J) (sink : UsageSink) (usage : Option IrUsage) (tier : TierTokens) :
    List Settlement :=
  match b.app.bind (fun app => app.lanes[b.laneIdx]?) with
  | some lane => [.billed sink lane usage tier]
  | none => []

def terminalError (b : FirstByteBody D W J) : Option String := b.translate.bind (fun t => t.terminalError)

def translateAborted (b : FirstByteBody D W J) : Bool := (b.translate.map (fun t => t.aborted)).getD false

def tierOf (usage : Option IrUsage) : TierTokens := (usage.map tierTokens).getD .zero

/-- Keep a copy of a passed-on body that is not a stream, as far as the cap goes, to read its usage from. -/
def tapNonstream (b : FirstByteBody D W J) (chunk : Bytes) (cap : Nat) : FirstByteBody D W J × List Settlement :=
  if !b.isSse && b.op.tapsNonstreamUsage && b.usageSink.isSome && decide (b.nonstreamBuf.length < cap) then
    let remaining := cap - b.nonstreamBuf.length
    if chunk.length ≤ remaining then ({ b with nonstreamBuf := b.nonstreamBuf ++ chunk }, [])
    else ({ b with nonstreamBuf := b.nonstreamBuf ++ chunk.take remaining }, [.truncated])
  else (b, [])

/-- Reframe for a client that reads a JSON array. -/
def reframe (b : FirstByteBody D W J) (bytes : Bytes) (plain : Option Bytes) :
    FirstByteBody D W J × Option Bytes :=
  match b.jsonArray with
  | some framer =>
    let (framer, framed) := px.framer.feed framer bytes
    ({ b with jsonArray := some framer }, out framed)
  | none => (b, plain)

/-- A chunk; nothing to hand on while it only begins a frame. -/
def onData (b : FirstByteBody D W J) (chunk : Bytes) (cap elapsedMs : Nat) :
    FirstByteBody D W J × List Settlement × Option Bytes :=
  let b := { b with firstByteSent := true }
  match b.translate with
  | some t =>
    let (t, bytes) := t.feed px.lib elapsedMs chunk
    let (b, ready) := reframe px { b with translate := some t } bytes (out bytes)
    (b, [], ready)
  | none =>
    let (b, settled) := b.tapNonstream chunk cap
    let (b, ready) := reframe px b chunk (some chunk)
    (b, settled, ready)

/-- A transport error. After the first byte of a stream the client is told in its own framing; otherwise the
body ends with an error and the lane's budget unit goes back. -/
def onError (b : FirstByteBody D W J) : FirstByteBody D W J × List Settlement × Polled :=
  let b := { b with streamFailed := true }
  if b.firstByteSent && b.isSse then
    let settled := b.recordTransient "mid-stream"
    let b := { b with permit := false, ended := true }
    match b.jsonArray with
    | some framer =>
      let (framer, bytes) := px.framer.finishWithServerError framer midStreamGenericDetail
      ({ b with jsonArray := some framer }, settled, .item bytes)
    | none =>
      (b, settled, .item (px.midStreamErrorBytes b.ingressProtocol b.ingressEventstream midStreamGenericDetail))
  else
    let settled := b.recordTransient (if b.firstByteSent then "mid-body-transport" else "pre-first-byte-transport")
    let (b, refunded) := b.refundBudget
    ({ b with permit := false, ended := true }, settled ++ refunded, .error midStreamGenericDetail)

/-- The failure a stream ends with: the backend's error event, or a translation that gave up. -/
def recordFailedEnd (b : FirstByteBody D W J) : List Settlement :=
  if b.isSse && b.firstByteSent && (b.terminalError.isSome || b.translateAborted) then
    b.recordTransient (if b.terminalError.isSome then "stream-terminal-error" else "stream-translate-abort")
  else []

/-- The client's terminator, with whatever the translation still owed. -/
def terminator (b : FirstByteBody D W J) (elapsedMs : Nat) : FirstByteBody D W J × Bytes :=
  let aborted := b.translateAborted
  let (translate, tail) :=
    match b.translate with
    | some t =>
      let (t, tail) := t.finish px.lib elapsedMs
      (some t, tail)
    | none => (none, [])
  let b := { b with translate := translate }
  match b.jsonArray with
  | some framer =>
    -- an abort is reported by the framer itself, its tail would report it twice
    let (framer, wrapped) := if aborted then (framer, []) else px.framer.feed framer tail
    let (framer, close) := px.framer.finishForTranslate framer aborted
    ({ b with jsonArray := some framer }, wrapped ++ close)
  | none => (b, tail)

/-- The usage to bill at the end: the translator's, or what the operation reads from the kept copy. -/
def takeUsage (b : FirstByteBody D W J) : FirstByteBody D W J × Option IrUsage :=
  if b.usageSink.isNone then (b, none)
  else
    match b.translate with
    | some t => (b, t.usage)
    | none =>
      if !b.isSse && !b.nonstreamBuf.isEmpty then
        ({ b with nonstreamBuf := [] }, b.op.extractUsage b.ingressProtocol b.nonstreamBuf)
      else (b, none)

/-- Bill the stream at its end, unless it failed. -/
def billEnd (b : FirstByteBody D W J) (aborted : Bool) : FirstByteBody D W J × List Settlement :=
  let (b, usage) := b.takeUsage
  match b.usageSink with
  | some sink =>
    let settled :=
      if b.terminalError.isSome || aborted then [] else b.ledgerAndMeter sink usage (tierOf usage)
    ({ b with usageSink := none }, settled)
  | none => (b, [])

def onEnd (b : FirstByteBody D W J) (elapsedMs : Nat) : FirstByteBody D W J × List Settlement × Polled :=
  let aborted := b.translateAborted
  let failed := b.recordFailedEnd
  let (b, done) := b.terminator px elapsedMs
  let (b, billed) := { b with permit := false, ended := true }.billEnd aborted
  (b, failed ++ billed, if done = [] then .finished else .item done)

/-- The answers of the body behind this one, until one of them ends the poll. -/
def pollInner (b : FirstByteBody D W J) : List Answer → FirstByteBody D W J × List Settlement × Polled
  | [] => ({ b with inner := [] }, [], .pending)
  | .pending :: inner => ({ b with inner := inner }, [], .pending)
  | .data chunk cap elapsedMs :: inner =>
    match b.onData px chunk cap elapsedMs with
    | (b, settled, some bytes) => ({ b with inner := inner }, settled, .item bytes)
    | (b, settled, none) =>
      let (b, more, polled) := pollInner b inner
      (b, settled ++ more, polled)
  | .failed :: inner => { b with inner := inner }.onError px
  | .finished elapsedMs :: inner => { b with inner := inner }.onEnd px elapsedMs

def pollNext (b : FirstByteBody D W J) : FirstByteBody D W J × List Settlement × Polled :=
  if b.ended then (b, [], .finished) else b.pollInner px b.inner

/-- The body is dropped: a stream cut short gives the budget unit back and bills the tokens read so far. -/
def drop (b : FirstByteBody D W J) : FirstByteBody D W J × List Settlement :=
  let (b, refunded) := if !b.ended then b.refundBudget else (b, [])
  match b.usageSink with
  | none => (b, refunded)
  | some sink =>
    let b := { b with usageSink := none }
    if b.streamFailed || b.terminalError.isSome || b.translateAborted then (b, refunded)
    else
      let usage := b.translate.bind (fun t => t.usage)
      let tier := tierOf usage
      (b, refunded ++ if tier.isZero then [] else b.ledgerAndMeter sink usage tier)

/-- The body after a number of polls, and what was settled in them. -/
def polls (b : FirstByteBody D W J) : Nat → FirstByteBody D W J × List Settlement
  | 0 => (b, [])
  | n + 1 =>
    let (b, settled) := b.polls n
    let (b, more, _) := b.pollNext px
    (b, settled ++ more)

/-- A number of polls, and the drop if there is one. -/
def life (b : FirstByteBody D W J) (n : Nat) (dropped : Bool) : List Settlement :=
  let (b, settled) := b.polls px n
  settled ++ if dropped then b.drop.2 else []

end FirstByteBody

end Busbar
