import Busbar.Proto.Anthropic
import Busbar.Proto.Chunking

/-!
# The usage account

What is billed, and whether the stream is held to have failed, is a fold over the events the reader takes out
of the frames. Nothing the client's side does to an event reaches the account, so it is the same whether the
frames are translated or passed on, and the frames a passthrough does not decode would not have moved it.

* `Account.frame`: the account after one frame.
* `Translator.translateEvent_account`, `extractUsageOnly_account`: both routes keep it.
* `billing_route_independent`: the account at the end, over frames and over chunks.
-/

namespace Busbar

variable {D W : Type}

/-- What billing and the breaker read of a translator, with the state of its reader. -/
structure Account (D : Type) where
  decode : D
  startUsage : Option IrUsage
  lastUsage : Option IrUsage
  terminalError : Option String

namespace Account

def event (acc : Account D) : IrStreamEvent → Account D
  | .messageStart _ usage _ _ _ => { acc with startUsage := usage.or acc.startUsage }
  | .messageDelta _ _ usage =>
    { acc with
      lastUsage := some (mergeTrailingUsage (acc.lastUsage.getD .zero) (usage.backfill acc.startUsage)) }
  | .error err => { acc with terminalError := some (err.providerSignal.getD upstreamStreamError) }
  | _ => acc

def events (acc : Account D) (evs : List IrStreamEvent) : Account D := evs.foldl event acc

/-- Read a frame, and book what is in it. -/
def frame (reader : ProtocolReader D) (acc : Account D) (eventType : String) (data : Json) : Account D :=
  let (evs, decode) := reader.readResponseEvents eventType data acc.decode
  { acc with decode := decode }.events evs

theorem event_idle {ev : IrStreamEvent} (h : Anthropic.Idle ev) (acc : Account D) : acc.event ev = acc := by
  cases ev with
  | messageStart | messageDelta | error => exact h.elim
  | _ => rfl

theorem events_idle {evs : List IrStreamEvent} (h : ∀ ev ∈ evs, Anthropic.Idle ev) (acc : Account D) :
    acc.events evs = acc := by
  induction evs with
  | nil => rfl
  | cons ev evs ih =>
    rw [events, List.foldl_cons, event_idle (h ev (List.mem_cons_self ..))]
    exact ih fun e he => h e (List.mem_cons_of_mem _ he)

end Account

namespace Translator

variable {lib : WireLib} {elapsed : Option Nat} {cfg : StreamConfig D W}

def account (tr : Translator D W) : Account D := ⟨tr.decode, tr.startUsage, tr.lastUsage, tr.terminalError⟩

/-! ## Emission keeps the account -/

theorem account_trackBlock (tr : Translator D W) (ev : IrStreamEvent) : (tr.trackBlock ev).account = tr.account := by
  cases ev <;> rfl

@[simp] theorem account_emitIrEvent (tr : Translator D W) (ev : IrStreamEvent) :
    (emitIrEvent lib elapsed cfg tr ev).1.account = tr.account := by
  have ht := account_trackBlock tr ev
  simp only [emitIrEvent]
  split
  · exact ht
  split
  · exact ht
  split
  · exact ht
  · exact ht

@[simp] theorem account_emitAll (tr : Translator D W) (evs : List IrStreamEvent) :
    (emitAll lib elapsed cfg tr evs).1.account = tr.account := by
  induction evs generalizing tr with
  | nil => rfl
  | cons ev evs ih => simp only [emitAll, ih, account_emitIrEvent]

@[simp] theorem account_closeOpenBlocks (tr : Translator D W) :
    (closeOpenBlocks lib elapsed cfg tr).1.account = tr.account := by
  rw [closeOpenBlocks, account_emitAll]
  rfl

theorem account_emitPlain (tr : Translator D W) (ev : IrStreamEvent) :
    (emitPlain lib elapsed cfg tr ev).1.account = tr.account := by
  unfold emitPlain
  split
  · rfl
  -- the flag that the stop was seen is no part of the account
  cases citationFanOut cfg ev with
  | some events =>
    simp only [account_emitAll]
    cases ev <;> rfl
  | none => cases ev <;> exact account_emitIrEvent _ _

theorem account_foldTerminal {tr tr' : Translator D W} {ev : IrStreamEvent} (h : foldTerminal tr ev = some tr') :
    tr'.account = tr.account := by
  unfold foldTerminal at h
  split at h
  · split at h <;> first | (cases h; rfl) | cases h
  · cases h

/-! ## Both routes keep the same account -/

theorem account_observe (tr : Translator D W) (ev : IrStreamEvent) :
    (tr.observe ev).1.account = tr.account.event ev := by
  cases ev <;> rfl

theorem event_remapEvent (acc : Account D) (name : String) (ev : IrStreamEvent) :
    acc.event (remapEvent name ev) = acc.event ev := by
  unfold remapEvent
  split <;> rfl

variable (lib elapsed cfg) in
/-- The blocks a terminal event closes ahead of it. -/
theorem account_closeIf (tr : Translator D W) (ev : IrStreamEvent) :
    (if isTerminal ev then closeOpenBlocks lib elapsed cfg tr else (tr, [])).1.account = tr.account := by
  split
  · exact account_closeOpenBlocks tr
  · rfl

theorem translateOne_account (tr : Translator D W) (ev : IrStreamEvent) :
    (translateOne lib elapsed cfg tr ev).1.account = tr.account.event ev := by
  have hobs := account_observe tr (remapEvent cfg.ingress.name ev)
  rw [event_remapEvent] at hobs
  simp only [translateOne]
  split
  · exact hobs
  rw [← hobs, ← account_closeIf lib elapsed cfg
    (tr.observe (remapEvent cfg.ingress.name ev)).1 (tr.observe (remapEvent cfg.ingress.name ev)).2]
  split
  · exact account_emitAll _ _
  split
  · rename_i hfold
    exact account_foldTerminal hfold
  split
  · split
    · exact account_emitIrEvent _ _
    · rfl
  · exact account_emitPlain _ _

theorem translateAll_account (tr : Translator D W) (evs : List IrStreamEvent) :
    (translateAll lib elapsed cfg tr evs).1.account = tr.account.events evs := by
  induction evs generalizing tr with
  | nil => rfl
  | cons ev evs ih =>
    simp only [translateAll, ih, translateOne_account]
    rfl

variable (lib elapsed cfg) in
/-- **Translation books a frame.** -/
theorem translateEvent_account (tr : Translator D W) (eventType : String) (data : Json) :
    (translateEvent lib elapsed cfg tr eventType data).1.account =
      tr.account.frame cfg.egress.reader eventType data := by
  simp only [translateEvent, translateAll_account]
  rfl

theorem accountEvent_account (tr : Translator D W) (ev : IrStreamEvent) :
    (accountEvent tr ev).account = tr.account.event ev := by
  cases ev <;> rfl

theorem foldl_accountEvent (tr : Translator D W) (evs : List IrStreamEvent) :
    (evs.foldl accountEvent tr).account = tr.account.events evs := by
  induction evs generalizing tr with
  | nil => rfl
  | cons ev evs ih =>
    rw [List.foldl_cons, ih, accountEvent_account]
    rfl

variable (cfg) in
/-- **The side-channel books a frame.** -/
theorem extractUsageOnly_account (tr : Translator D W) (eventType : String) (data : Json) :
    (extractUsageOnly cfg tr eventType data).account = tr.account.frame cfg.egress.reader eventType data := by
  simp only [extractUsageOnly, foldl_accountEvent]
  rfl

end Translator

/-! ## The frames a passthrough does not decode -/

theorem not_mem_anthropicDecoded {eventType : String} (h : eventType ∉ Translator.anthropicDecoded) :
    eventType ≠ Anthropic.evtMessageStart ∧ eventType ≠ Anthropic.evtMessageDelta ∧
      eventType ≠ Anthropic.evtError := by
  simp only [Translator.anthropicDecoded, List.mem_cons, List.not_mem_nil, or_false, not_or] at h
  exact h

theorem Account.frame_undecoded (acc : Account D) {eventType : String} (h : eventType ∉ Translator.anthropicDecoded)
    (data : Json) : acc.frame Anthropic.reader eventType data = acc := by
  obtain ⟨hstart, hdelta, herror⟩ := not_mem_anthropicDecoded h
  simp only [Account.frame, Anthropic.reader, Anthropic.readResponseEvents_state]
  exact Account.events_idle (Anthropic.readResponseEvents_idle data acc.decode hstart hdelta herror) acc

/-! ## One backend, two routes -/

/-- A stream that is translated and one that is passed on, with the same backend behind them. -/
structure SameBackend (x s : StreamConfig D W) : Prop where
  translates : x.sameProto = false
  passes : s.sameProto = true
  egress : x.egress = s.egress
  binary : x.egressEventstream = s.egressEventstream
  anthropic : s.egress.name = protoAnthropic → s.egress.reader = Anthropic.reader

namespace Translator

variable {lib : WireLib} {elapsed : Option Nat}

/-- What a passthrough does with a frame: Anthropic's are decoded by their type. -/
def observeFrame (cfg : StreamConfig D W) (tr : Translator D W) (eventType : String) (data : Json) :
    Translator D W :=
  if cfg.egress.name = protoAnthropic ∧ eventType ∉ anthropicDecoded then tr
  else extractUsageOnly cfg tr eventType data

theorem observeFrame_account {cfg : StreamConfig D W}
    (h : cfg.egress.name = protoAnthropic → cfg.egress.reader = Anthropic.reader) (tr : Translator D W)
    (eventType : String) (data : Json) :
    (observeFrame cfg tr eventType data).account = tr.account.frame cfg.egress.reader eventType data := by
  unfold observeFrame
  split
  · rename_i hgate
    rw [h hgate.1, Account.frame_undecoded _ hgate.2]
  · exact extractUsageOnly_account cfg tr eventType data

variable {x s : StreamConfig D W}

theorem handleFrame_account (h : SameBackend x s) {tr tr' : Translator D W} (ha : tr.account = tr'.account)
    (frame : Bytes) : (handleFrame lib elapsed x tr frame).1.account =
      (handleFrame lib elapsed s tr' frame).1.account := by
  unfold handleFrame
  cases parseSseFrame frame with
  | none => exact ha
  | some p =>
    obtain ⟨eventType, dataStr⟩ := p
    dsimp only
    by_cases hskip : dataStr = "" ∨ dataStr = sseDoneSentinel
    · rw [if_pos hskip, if_pos hskip]
      exact ha
    rw [if_neg hskip, if_neg hskip, if_neg (by simp [h.translates])]
    by_cases hgate : s.sameProto = true ∧ s.egress.name = protoAnthropic ∧ eventType ∉ anthropicDecoded
    · -- the frame goes by undecoded: what translation reads in it books nothing
      rw [if_pos hgate]
      cases lib.parseStr dataStr with
      | none => exact ha
      | some data =>
        simp only [h.translates, Bool.false_eq_true, if_false]
        rw [translateEvent_account, h.egress, h.anthropic hgate.2.1, Account.frame_undecoded _ hgate.2.2, ha]
    rw [if_neg hgate]
    cases lib.parseStr dataStr with
    | none => exact ha
    | some data =>
      have hx := translateEvent_account lib elapsed x tr eventType data
      have hs := extractUsageOnly_account s tr' eventType data
      rw [h.egress, ha, ← hs] at hx
      simp only [h.translates, h.passes, Bool.false_eq_true, if_false, if_true]
      split
      · exact hx
      split
      · exact hx
      · exact hx

theorem handleEventFrame_account (h : SameBackend x s) {tr tr' : Translator D W} (ha : tr.account = tr'.account)
    (eventType : String) (payload : Bytes) : (handleEventFrame lib elapsed x tr eventType payload).1.account =
      (handleEventFrame lib elapsed s tr' eventType payload).1.account := by
  unfold handleEventFrame
  cases lib.fromSlice payload with
  | none => exact ha
  | some data =>
    simp only [h.translates, h.passes, Bool.false_eq_true, if_false, if_true]
    rw [translateEvent_account, extractUsageOnly_account, h.egress, ha]

end Translator

theorem StreamConfig.onFrame_account (lib : WireLib) (elapsed : Option Nat) {x s : StreamConfig D W}
    (h : SameBackend x s) {tr tr' : Translator D W} (ha : tr.account = tr'.account) (frame : Bytes) :
    (x.onFrame lib elapsed tr frame).1.account = (s.onFrame lib elapsed tr' frame).1.account := by
  unfold StreamConfig.onFrame
  rw [h.binary]
  split
  · exact Translator.handleEventFrame_account h ha _ _
  · exact Translator.handleFrame_account h ha frame

namespace StreamTranslate

variable {lib : WireLib} {elapsedMs : Nat} {x s : StreamTranslate D W}

/-- The two streams have come equally far. -/
structure Level (x s : StreamTranslate D W) : Prop where
  scanned : x.Scanned
  scanned' : s.Scanned
  account : x.account = s.account
  rest : x.abs.2 = s.abs.2

theorem feed_level (hb : SameBackend x.toStreamConfig s.toStreamConfig) (h : Level x s) (chunk : Bytes) :
    Level (x.feed lib elapsedMs chunk).1 (s.feed lib elapsedMs chunk).1 := by
  obtain ⟨hx, -, -, hsx, -⟩ := feed_abs lib elapsedMs h.scanned chunk
  obtain ⟨hs, -, -, hss, -⟩ := feed_abs lib elapsedMs h.scanned' chunk
  have hframer : x.framer = s.framer := by simp only [StreamConfig.framer, hb.binary]
  have hrel := Framer.feed_related (F := s.framer) (R := fun a b : Translator D W => a.account = b.account)
    (fun a b f hab => StreamConfig.onFrame_account lib (some elapsedMs) hb hab f)
    x.abs s.abs h.account h.rest chunk
  rw [hframer] at hx
  refine ⟨hsx, hss, ?_, ?_⟩
  · have hx' := congrArg Prod.fst hx
    have hs' := congrArg Prod.fst hs
    rw [show (x.feed lib elapsedMs chunk).1.toTranslator = _ from hx',
      show (s.feed lib elapsedMs chunk).1.toTranslator = _ from hs']
    exact hrel.1
  · rw [hx, hs, hrel.2]

theorem feedAll_level (hb : SameBackend x.toStreamConfig s.toStreamConfig) (h : Level x s) (chunks : List Bytes) :
    Level (x.feedAll lib elapsedMs chunks).1 (s.feedAll lib elapsedMs chunks).1 := by
  induction chunks generalizing x s with
  | nil => exact h
  | cons c cs ih =>
    obtain ⟨-, -, hx, -⟩ := feed_abs lib elapsedMs h.scanned c
    obtain ⟨-, -, hs, -⟩ := feed_abs lib elapsedMs h.scanned' c
    simp only [feedAll]
    refine ih ?_ (feed_level hb h c)
    rw [hx, hs]
    exact hb

/-- What is owed to the client at the end is written, not booked. -/
theorem finish_account (t : StreamTranslate D W) : (t.finish lib elapsedMs).1.account = t.account := by
  unfold finish
  split
  · unfold finishAborted
    cases t.framing.abortExceptionType with
    | some excType => rfl
    | none => exact Translator.account_emitIrEvent _ _
  split
  · rfl
  · exact (Translator.account_emitAll _ _).trans
      ((Translator.account_emitAll _ _).trans (Translator.account_closeOpenBlocks t.toTranslator))

theorem run_account (t : StreamTranslate D W) (chunks : List Bytes) :
    (t.run lib elapsedMs chunks).1.account = (t.feedAll lib elapsedMs chunks).1.account := by
  rw [run_eq]
  exact finish_account _

end StreamTranslate

/-! ## The protocols by name -/

/-- The dialects but for Anthropic's reader. -/
structure Dialects (D W : Type) where
  anthropicWriter : ProtocolWriter W
  bedrock : ProtocolReader D × ProtocolWriter W
  cohere : ProtocolReader D × ProtocolWriter W
  gemini : ProtocolReader D × ProtocolWriter W
  openai : ProtocolReader D × ProtocolWriter W
  responses : ProtocolReader D × ProtocolWriter W

def Dialects.protocolFor (d : Dialects D W) (name : String) : Option (Protocol D W) :=
  if name = protoAnthropic then some ⟨protoAnthropic, Anthropic.reader, d.anthropicWriter⟩
  else if name = protoBedrock then some ⟨protoBedrock, d.bedrock.1, d.bedrock.2⟩
  else if name = protoCohere then some ⟨protoCohere, d.cohere.1, d.cohere.2⟩
  else if name = protoGemini then some ⟨protoGemini, d.gemini.1, d.gemini.2⟩
  else if name = protoOpenAi then some ⟨protoOpenAi, d.openai.1, d.openai.2⟩
  else if name = protoResponses then some ⟨protoResponses, d.responses.1, d.responses.2⟩
  else none

/-- A protocol goes by the name it is asked for. -/
theorem Dialects.protocolFor_name {d : Dialects D W} {name : String} {p : Protocol D W}
    (h : d.protocolFor name = some p) : p.name = name := by
  unfold protocolFor at h
  repeat' split at h
  all_goals first | (cases h; symm; assumption) | cases h

theorem Dialects.anthropic_reader {d : Dialects D W} {name : String} {p : Protocol D W}
    (h : d.protocolFor name = some p) (hn : p.name = protoAnthropic) : p.reader = Anthropic.reader := by
  have hname : name = protoAnthropic := (protocolFor_name h).symm.trans hn
  rw [protocolFor, if_pos hname] at h
  cases h
  rfl

namespace StreamTranslate

variable {lib : WireLib} {elapsedMs : Nat}

/-- A translated stream and a passed-on one, as they are built. -/
theorem build_level {d : Dialects D W} {initDecode : D} {initWriter : W} {ingress egress : String}
    {x s : StreamTranslate D W} (hx : new d.protocolFor initDecode initWriter ingress egress = some x)
    (hs : newSameProto d.protocolFor initDecode initWriter egress = some s) (opted opted' : Bool) :
    SameBackend x.toStreamConfig s.toStreamConfig ∧
      Level (x.setClientIncludeUsage opted) (s.setClientIncludeUsage opted') := by
  unfold new at hx
  split at hx
  · cases hx
  have hfx := build_fresh hx opted
  have hfs := build_fresh hs opted'
  simp only [newSameProto, build, Option.bind_eq_bind, Option.bind_eq_some_iff, Option.some.injEq] at hx hs
  obtain ⟨p, hp, q, hq, rfl⟩ := hx
  obtain ⟨q₁, hq₁, q₂, hq₂, rfl⟩ := hs
  cases hq.symm.trans hq₁
  cases hq.symm.trans hq₂
  exact ⟨⟨rfl, rfl, rfl, rfl, Dialects.anthropic_reader hq⟩, ⟨hfx.isScanned, hfs.isScanned, rfl, rfl⟩⟩

/-- Frames handled one by one, with the bytes they translate to left out. -/
def translateFrames (lib : WireLib) (elapsed : Option Nat) (x : StreamTranslate D W) (frames : List (String × Json)) :
    Translator D W :=
  frames.foldl (fun tr frame => (Translator.translateEvent lib elapsed x.toStreamConfig tr frame.1 frame.2).1)
    x.toTranslator

def observeFrames (s : StreamTranslate D W) (frames : List (String × Json)) : Translator D W :=
  frames.foldl (fun tr frame => Translator.observeFrame s.toStreamConfig tr frame.1 frame.2) s.toTranslator

theorem foldl_account (cfg : StreamConfig D W) {f : Translator D W → String × Json → Translator D W}
    (hf : ∀ tr frame, (f tr frame).account = tr.account.frame cfg.egress.reader frame.1 frame.2)
    (frames : List (String × Json)) (tr : Translator D W) : (frames.foldl f tr).account =
      frames.foldl (fun acc frame => acc.frame cfg.egress.reader frame.1 frame.2) tr.account := by
  induction frames generalizing tr with
  | nil => rfl
  | cons frame frames ih => rw [List.foldl_cons, ih, hf, List.foldl_cons]

variable (lib elapsedMs) in
/-- **What is billed does not depend on the route**: the usage account and the error signal of a translated
stream and of a passed-on one are the same, frame by frame and over any bytes in any chunks. -/
theorem billing_route_independent {d : Dialects D W} {initDecode : D} {initWriter : W} {ingress egress : String}
    {x s : StreamTranslate D W} (hx : new d.protocolFor initDecode initWriter ingress egress = some x)
    (hs : newSameProto d.protocolFor initDecode initWriter egress = some s) :
    (∀ (elapsed : Option Nat) (frames : List (String × Json)),
      (x.translateFrames lib elapsed frames).lastUsage = (s.observeFrames frames).lastUsage ∧
        (x.translateFrames lib elapsed frames).terminalError = (s.observeFrames frames).terminalError) ∧
      ∀ (opted opted' : Bool) (chunks : List Bytes),
        let translated := ((x.setClientIncludeUsage opted).run lib elapsedMs chunks).1
        let passed := ((s.setClientIncludeUsage opted').run lib elapsedMs chunks).1
        translated.usage = passed.usage ∧ translated.terminalError = passed.terminalError := by
  refine ⟨fun elapsed frames => ?_, fun opted opted' chunks => ?_⟩
  · obtain ⟨hb, hl⟩ := build_level hx hs true true
    have hacc : x.account = s.account := hl.account
    have htr : (x.translateFrames lib elapsed frames).account = frames.foldl
        (fun acc frame => acc.frame s.egress.reader frame.1 frame.2) x.account :=
      foldl_account s.toStreamConfig
        (fun tr frame => by rw [Translator.translateEvent_account, hb.egress]) frames x.toTranslator
    have hob : (s.observeFrames frames).account = frames.foldl
        (fun acc frame => acc.frame s.egress.reader frame.1 frame.2) s.account :=
      foldl_account s.toStreamConfig
        (fun tr frame => Translator.observeFrame_account hb.anthropic tr frame.1 frame.2) frames s.toTranslator
    have h : (x.translateFrames lib elapsed frames).account = (s.observeFrames frames).account := by
      rw [htr, hob, hacc]
    exact ⟨congrArg Account.lastUsage h, congrArg Account.terminalError h⟩
  · obtain ⟨hb, hl⟩ := build_level hx hs opted opted'
    have h : ((x.setClientIncludeUsage opted).feedAll lib elapsedMs chunks).1.account =
        ((s.setClientIncludeUsage opted').feedAll lib elapsedMs chunks).1.account :=
      (feedAll_level (x := x.setClientIncludeUsage opted) (s := s.setClientIncludeUsage opted') hb hl chunks).account
    rw [← run_account, ← run_account] at h
    exact ⟨congrArg Account.lastUsage h, congrArg Account.terminalError h⟩

section Witness

/-- Dialects that write nothing, and of which only Anthropic reads. -/
def muteDialects : Dialects Unit Unit where
  anthropicWriter := muteProtocol.writer
  bedrock := (muteProtocol.reader, muteProtocol.writer)
  cohere := (muteProtocol.reader, muteProtocol.writer)
  gemini := (muteProtocol.reader, muteProtocol.writer)
  openai := (muteProtocol.reader, muteProtocol.writer)
  responses := (muteProtocol.reader, muteProtocol.writer)

def anthropicPassthrough : StreamTranslate Unit Unit :=
  let anthropic : Protocol Unit Unit := ⟨protoAnthropic, Anthropic.reader, muteProtocol.writer⟩
  { muteTranslator true with ingress := anthropic, egress := anthropic }

def openAiOverAnthropic : StreamTranslate Unit Unit :=
  { anthropicPassthrough with
    sameProto := false, ingress := ⟨protoOpenAi, muteProtocol.reader, muteProtocol.writer⟩ }

def deltaFrame : String × Json :=
  (Anthropic.evtMessageDelta, .object [("delta", .object []),
    ("usage", .object [("output_tokens", .number (.posInt 5))])])

theorem build_openAiOverAnthropic :
    new muteDialects.protocolFor () () protoOpenAi protoAnthropic = some openAiOverAnthropic := rfl

theorem build_anthropicPassthrough :
    newSameProto muteDialects.protocolFor () () protoAnthropic = some anthropicPassthrough := rfl

theorem billing_route_independent_delta :
    (openAiOverAnthropic.translateFrames muteLib none [deltaFrame]).lastUsage = some ⟨0, 5, none, none⟩ ∧
      (openAiOverAnthropic.translateFrames muteLib none [deltaFrame]).lastUsage =
        (anthropicPassthrough.observeFrames [deltaFrame]).lastUsage :=
  ⟨rfl, ((billing_route_independent muteLib 0 build_openAiOverAnthropic build_anthropicPassthrough).1 none
    [deltaFrame]).1⟩

end Witness

end StreamTranslate

end Busbar
