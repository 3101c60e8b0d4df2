import Busbar.Proto.Account

/-!
# The course of a stream

What a translated stream asks of the client's writer, and in which order, does not depend on the writer: it is
decided by the usage account, the open blocks and the state of the framing. `Course` is that much of the
translator, its steps give out emissions instead of bytes, and the pen puts the emissions on the wire.

* `Course.step`, `Course.finish`: the emissions of an event, and those of the end.
* `Pen.write`: the frames of an emission.
* `Translator.translateAll_course`: the translator is its course, written by its pen.
* `StreamTranslate.run_course`: a stream in chunks is the course of the events read from it.
-/

namespace Busbar

variable {D W : Type}

/-- What is handed to the client's writer, or goes out past it. -/
inductive Emission where
  | event (ev : IrStreamEvent)
  | exception (name message : String)
  | ping

/-- How a framing ends a stream: with the usage folded into the terminal delta, with a frame of its own for it,
or with neither. -/
inductive Ending where
  | folds
  | plain
  | metadata (fr : BedrockStreamFraming)

structure Course where
  startUsage : Option IrUsage
  lastUsage : Option IrUsage
  messageStopped : Bool
  pendingTerminal : Option (IrStopReason × Option String × IrUsage)
  pendingStop : Bool
  openBlocks : List Nat
  ending : Ending

def StreamFraming.ending : StreamFraming → Ending
  | passthrough => .folds
  | openAi _ => .plain
  | bedrock fr => .metadata fr

def Translator.course (tr : Translator D W) : Course where
  startUsage := tr.startUsage
  lastUsage := tr.lastUsage
  messageStopped := tr.messageStopped
  pendingTerminal := tr.pendingTerminal
  pendingStop := tr.pendingStop
  openBlocks := tr.openBlocks
  ending := tr.framing.ending

namespace Course

open Translator (insertSorted isTerminal isDelta citationFanOut)

variable (cfg : StreamConfig D W)

def track (c : Course) : IrStreamEvent → Course
  | .blockStart index _ => { c with openBlocks := insertSorted index c.openBlocks }
  | .blockStop index => { c with openBlocks := c.openBlocks.filter (· ≠ index) }
  | _ => c

/-- Hand events to the writer. -/
def emit (c : Course) (evs : List IrStreamEvent) : Course × List Emission :=
  (evs.foldl track c, evs.map .event)

/-- Close what is open. -/
def close (c : Course) : Course × List Emission :=
  emit { c with openBlocks := [] } (c.openBlocks.map .blockStop)

def observe (c : Course) : IrStreamEvent → Course × IrStreamEvent
  | .messageStart role usage _ _ model =>
    ({ c with startUsage := usage.or c.startUsage }, .messageStart role usage none none model)
  | .messageDelta stopReason stopSequence usage =>
    let usage := usage.backfill c.startUsage
    ({ c with lastUsage := some (mergeTrailingUsage (c.lastUsage.getD .zero) usage) },
      .messageDelta stopReason stopSequence usage)
  | ev => (c, ev)

/-- The exception that takes an error's place on binary framing. -/
def exception : IrStreamEvent → Option (String × String)
  | .error err => if cfg.ingressEventstream then cfg.ingress.writer.writeResponseException err else none
  | _ => none

/-- An event the framing leaves alone. -/
def plain (c : Course) (ev : IrStreamEvent) : Course × List Emission :=
  if c.messageStopped && isDelta ev then (c, [])
  else
    let c := match ev with
      | .messageStop => { c with messageStopped := true }
      | _ => c
    match citationFanOut cfg ev with
    | some events => c.emit events
    | none =>
      match ev with
      | .messageStart .. =>
        (c, .event ev :: if cfg.ingress.name = protoAnthropic then [.ping] else [])
      | _ => c.emit [ev]

/-- An event of the end of the stream goes the framing's way, every other one its own. -/
def answer (c : Course) (ev : IrStreamEvent) : Course × List Emission :=
  match c.ending, ev, c.pendingTerminal with
  | .metadata fr, .messageDelta (some reason) seq usage, _ =>
    let (events, fr) := fr.onCombinedStopDelta reason seq usage
    { c with ending := .metadata fr }.emit events
  | .metadata fr, .messageDelta none _ _, _ =>
    let (shouldEmit, fr) := fr.onUsageOnlyDelta
    if shouldEmit then { c with ending := .metadata fr }.emit [ev] else ({ c with ending := .metadata fr }, [])
  | .folds, .messageDelta (some _) _ usage, some (reason, seq, acc) =>
    ({ c with pendingTerminal := some (reason, seq, mergeTrailingUsage acc usage) }, [])
  | .folds, .messageDelta (some reason) seq usage, none =>
    ({ c with pendingTerminal := some (reason, seq, usage) }, [])
  | .folds, .messageDelta none _ usage, some (reason, seq, acc) =>
    ({ c with pendingTerminal := some (reason, seq, mergeTrailingUsage acc usage) }, [])
  | .folds, .messageStop, some _ => ({ c with pendingStop := true }, [])
  | _, _, _ => c.plain cfg ev

def step (c : Course) (ev : IrStreamEvent) : Course × List Emission :=
  let (c, ev) := c.observe (remapEvent cfg.ingress.name ev)
  match exception cfg ev with
  | some (name, message) => (c, [.exception name message])
  | none =>
    let (c, closed) := if isTerminal ev then c.close else (c, [])
    let (c, answered) := c.answer cfg ev
    (c, closed ++ answered)

def run (c : Course) : List IrStreamEvent → Course × List Emission
  | [] => (c, [])
  | ev :: evs =>
    let (c, out) := c.step cfg ev
    let (c, outs) := run c evs
    (c, out ++ outs)

/-- The usage frame a framing still owes at the end. -/
def owed (c : Course) : Course × List IrStreamEvent :=
  match c.ending with
  | .metadata fr =>
    let (ev, fr) := fr.onFinish
    ({ c with ending := .metadata fr }, ev.toList)
  | _ => (c, [])

/-- The deferred terminal delta, with its stop. -/
def pendingEvents (c : Course) : List IrStreamEvent :=
  match c.pendingTerminal with
  | some (reason, seq, usage) =>
    .messageDelta (some reason) seq usage :: if c.pendingStop then [.messageStop] else []
  | none => []

def finish (c : Course) : Course × List Emission :=
  let (c, closed) := c.close
  let (c, trailing) := c.owed
  let (c, trailed) := c.emit trailing
  let (c, flushed) := { c with pendingTerminal := none }.emit c.pendingEvents
  (c, closed ++ trailed ++ flushed)

theorem emit_lastUsage (c : Course) (evs : List IrStreamEvent) : (c.emit evs).1.lastUsage = c.lastUsage := by
  induction evs generalizing c with
  | nil => rfl
  | cons ev evs ih =>
    have hhead : (c.track ev).lastUsage = c.lastUsage := by cases ev <;> rfl
    exact (ih (c.track ev)).trans hhead

theorem close_openBlocks (c : Course) : c.close.1.openBlocks = [] := by
  have hfold : ∀ (is : List Nat) (c : Course), c.openBlocks = [] →
      ((is.map IrStreamEvent.blockStop).foldl track c).openBlocks = [] := by
    intro is
    induction is with
    | nil => exact fun c hc => hc
    | cons i is ih => exact fun c hc => ih _ (by simp [track, hc])
  exact hfold c.openBlocks { c with openBlocks := [] } rfl

theorem close_idle {c : Course} (h : c.openBlocks = []) : c.close.2 = [] := by
  simp only [close, emit, h, List.map_nil]

theorem emit_ending (c : Course) (evs : List IrStreamEvent) : (c.emit evs).1.ending = c.ending := by
  induction evs generalizing c with
  | nil => rfl
  | cons ev evs ih =>
    have hhead : (c.track ev).ending = c.ending := by cases ev <;> rfl
    exact (ih (c.track ev)).trans hhead

theorem finish_lastUsage (c : Course) : c.finish.1.lastUsage = c.lastUsage := by
  have howed : ∀ c : Course, c.owed.1.lastUsage = c.lastUsage := fun c => by unfold owed; split <;> rfl
  simp only [finish, emit_lastUsage, howed, close]

/-- The terminal frame of an abandoned stream. -/
def finishAborted (c : Course) : List Emission :=
  match c.ending with
  | .metadata _ => [.exception excInternalServer streamAbortDetail]
  | _ => [.event (.error ⟨.serverError, some streamAbortDetail, none⟩)]

/-- All that is emitted for a sequence of events and the end of the stream, abandoned or not. -/
def whole (c : Course) (evs : List IrStreamEvent) (aborted : Bool) : List Emission :=
  let (c, out) := c.run cfg evs
  out ++ if aborted then c.finishAborted else c.finish.2

theorem run_append (c : Course) (evs evs' : List IrStreamEvent) : c.run cfg (evs ++ evs') =
    (((c.run cfg evs).1.run cfg evs').1, (c.run cfg evs).2 ++ ((c.run cfg evs).1.run cfg evs').2) := by
  induction evs generalizing c with
  | nil => rfl
  | cons ev evs ih => simp only [List.cons_append, run, ih, List.append_assoc]

end Course

/-! ## The pen -/

/-- A frame as the client gets it. -/
inductive ClientFrame where
  | event (eventType : String) (data : Json)
  | exception (name message : String)
  | ping

/-- What the framing does to a chunk on its way out. -/
inductive Nib where
  | inert
  | chunks (fr : OpenAiStreamFraming)
  | metrics

structure Pen (W : Type) where
  writer : W
  nib : Nib

def StreamFraming.nib : StreamFraming → Nib
  | passthrough => .inert
  | openAi fr => .chunks fr
  | bedrock _ => .metrics

def Translator.pen (tr : Translator D W) : Pen W := ⟨tr.writer, tr.framing.nib⟩

namespace ClientFrame

variable (lib : WireLib) (cfg : StreamConfig D W)

def bytes : ClientFrame → Bytes
  | event eventType data =>
    if cfg.ingressEventstream then encodeFrame lib eventType (lib.toVec data)
    else writeSseFrame lib.toJsonLib eventType data
  | exception name message => encodeExceptionFrame lib name message
  | ping => anthropicPingSseFrame

end ClientFrame

namespace Pen

variable (lib : WireLib) (elapsed : Option Nat) (cfg : StreamConfig D W)

/-- The chunk as it goes out, and the one that trails it. -/
def finishChunk (nib : Nib) (eventType : String) (data : Json) : Nib × List ClientFrame :=
  if cfg.ingressEventstream then
    match nib with
    | .metrics => (nib, [.event eventType (injectLatency eventType data elapsed)])
    | nib => (nib, [.event eventType data])
  else
    match nib with
    | .chunks fr =>
      let (trailing, data, fr) := fr.onEgressChunk data
      (.chunks fr, .event eventType data :: (trailing.map (.event eventType)).toList)
    | nib => (nib, [.event eventType data])

def write (p : Pen W) : Emission → Pen W × List ClientFrame
  | .exception name message => (p, [.exception name message])
  | .ping => (p, [.ping])
  | .event ev =>
    let (wrote, writer) := cfg.ingress.writer.writeResponseEvent p.writer ev
    match wrote with
    | none => (⟨writer, p.nib⟩, [])
    | some (eventType, data) =>
      let (nib, frames) := finishChunk elapsed cfg p.nib eventType data
      (⟨writer, nib⟩, frames)

def writeAll (p : Pen W) : List Emission → Pen W × List ClientFrame
  | [] => (p, [])
  | em :: ems =>
    let (p, frames) := p.write elapsed cfg em
    let (p, more) := writeAll p ems
    (p, frames ++ more)

theorem writeAll_append (p : Pen W) (ems ems' : List Emission) : p.writeAll elapsed cfg (ems ++ ems') =
    (((p.writeAll elapsed cfg ems).1.writeAll elapsed cfg ems').1,
      (p.writeAll elapsed cfg ems).2 ++ ((p.writeAll elapsed cfg ems).1.writeAll elapsed cfg ems').2) := by
  induction ems generalizing p with
  | nil => rfl
  | cons em ems ih => simp only [List.cons_append, writeAll, ih, List.append_assoc]

end Pen

/-! ## The translator is its course, written by its pen -/

variable (lib : WireLib) (elapsed : Option Nat) (cfg : StreamConfig D W)

/-- What the translator did from `tr` on is what the course did, put on the wire by the pen. -/
structure Plays (tr : Translator D W) (did : Translator D W × Bytes) (c : Course × List Emission) : Prop where
  course : did.1.course = c.1
  pen : did.1.pen = (tr.pen.writeAll elapsed cfg c.2).1
  bytes : did.2 = (tr.pen.writeAll elapsed cfg c.2).2.flatMap (ClientFrame.bytes lib cfg)

variable {lib elapsed cfg}

theorem Plays.silent (tr : Translator D W) : Plays lib elapsed cfg tr (tr, []) (tr.course, []) := ⟨rfl, rfl, rfl⟩

theorem Plays.of_pen {tr tr' : Translator D W} {did : Translator D W × Bytes} {c : Course × List Emission}
    (hpen : tr.pen = tr'.pen) (h : Plays lib elapsed cfg tr' did c) : Plays lib elapsed cfg tr did c := by
  obtain ⟨h₁, h₂, h₃⟩ := h
  rw [← hpen] at h₂ h₃
  exact ⟨h₁, h₂, h₃⟩

theorem Plays.append {tr : Translator D W} {did did' : Translator D W × Bytes} {c c' : Course × List Emission}
    (h : Plays lib elapsed cfg tr did c) (h' : Plays lib elapsed cfg did.1 did' c') :
    Plays lib elapsed cfg tr (did'.1, did.2 ++ did'.2) (c'.1, c.2 ++ c'.2) := by
  obtain ⟨h₁, h₂, h₃⟩ := h
  obtain ⟨h₁', h₂', h₃'⟩ := h'
  rw [h₂] at h₂' h₃'
  refine ⟨h₁', ?_, ?_⟩
  · rw [Pen.writeAll_append]
    exact h₂'
  · rw [Pen.writeAll_append, List.flatMap_append, ← h₃, ← h₃']

namespace Translator

variable (lib elapsed cfg) in
theorem plays_emitIrEvent (tr : Translator D W) (ev : IrStreamEvent) :
    Plays lib elapsed cfg tr (emitIrEvent lib elapsed cfg tr ev) (tr.course.track ev, [.event ev]) := by
  have hcourse : (tr.trackBlock ev).course = tr.course.track ev := by cases ev <;> rfl
  have hpen : (tr.trackBlock ev).pen = tr.pen := by cases ev <;> rfl
  obtain ⟨tb, htb⟩ : ∃ tb, tb = tr.trackBlock ev := ⟨_, rfl⟩
  rw [← htb] at hcourse hpen
  obtain ⟨wrote, hwrote⟩ : ∃ wrote, cfg.ingress.writer.writeResponseEvent tb.writer ev = wrote := ⟨_, rfl⟩
  refine Plays.of_pen hpen.symm ?_
  simp only [emitIrEvent, ← htb, ← hcourse, hwrote]
  obtain ⟨_ | ⟨outEt, outData⟩, writer⟩ := wrote
  · refine ⟨rfl, ?_, ?_⟩ <;> simp [Pen.writeAll, Pen.write, pen, hwrote]
  by_cases he : cfg.ingressEventstream = true
  · simp only [he, if_true]
    refine ⟨rfl, ?_, ?_⟩ <;>
      cases hfr : tb.framing <;>
      simp [Pen.writeAll, Pen.write, Pen.finishChunk, pen, hwrote, he, hfr, StreamFraming.nib,
        StreamFraming.injectStreamingMetrics, ClientFrame.bytes]
  · simp only [he, Bool.false_eq_true, if_false]
    cases hfr : tb.framing with
    | openAi fr =>
      rcases hchunk : fr.onEgressChunk outData with ⟨_ | trailing, data, fr'⟩ <;>
        refine ⟨?_, ?_, ?_⟩ <;>
        simp [Pen.writeAll, Pen.write, Pen.finishChunk, pen, course, hwrote, he, hfr, hchunk, StreamFraming.nib,
          StreamFraming.ending, StreamFraming.onEgressChunk, ClientFrame.bytes]
    | _ =>
      refine ⟨?_, ?_, ?_⟩ <;>
        simp [Pen.writeAll, Pen.write, Pen.finishChunk, pen, course, hwrote, he, hfr, StreamFraming.nib,
          StreamFraming.ending, StreamFraming.onEgressChunk, ClientFrame.bytes]

variable (lib elapsed cfg) in
theorem plays_emitAll (tr : Translator D W) (evs : List IrStreamEvent) :
    Plays lib elapsed cfg tr (emitAll lib elapsed cfg tr evs) (tr.course.emit evs) := by
  induction evs generalizing tr with
  | nil => exact Plays.silent tr
  | cons ev evs ih =>
    have hhead := plays_emitIrEvent lib elapsed cfg tr ev
    have htail := ih (emitIrEvent lib elapsed cfg tr ev).1
    rw [hhead.course] at htail
    exact hhead.append htail

variable (lib elapsed cfg) in
theorem plays_closeOpenBlocks (tr : Translator D W) :
    Plays lib elapsed cfg tr (closeOpenBlocks lib elapsed cfg tr) tr.course.close := by
  have h := plays_emitAll lib elapsed cfg { tr with openBlocks := [] } (tr.openBlocks.map .blockStop)
  exact ⟨h.course, h.pen, h.bytes⟩

/-- The ping has no writer to pass through. -/
theorem plays_ping (tr : Translator D W) :
    Plays lib elapsed cfg tr (tr, anthropicPingSseFrame) (tr.course, [.ping]) :=
  ⟨rfl, rfl, (List.append_nil _).symm⟩

variable (lib elapsed cfg) in
theorem plays_emitOne (tr : Translator D W) (ev : IrStreamEvent) :
    Plays lib elapsed cfg tr (emitIrEvent lib elapsed cfg tr ev) (tr.course.emit [ev]) :=
  plays_emitIrEvent lib elapsed cfg tr ev

variable (lib elapsed cfg) in
theorem plays_emitPlain (tr : Translator D W) (ev : IrStreamEvent) :
    Plays lib elapsed cfg tr (emitPlain lib elapsed cfg tr ev) (tr.course.plain cfg ev) := by
  unfold emitPlain Course.plain
  rw [show tr.course.messageStopped = tr.messageStopped from rfl]
  by_cases hguard : (tr.messageStopped && isDelta ev) = true
  · rw [if_pos hguard, if_pos hguard]
    exact Plays.silent tr
  rw [if_neg hguard, if_neg hguard]
  cases hfan : citationFanOut cfg ev with
  | some events =>
    cases ev with
    | messageStop =>
      have h := plays_emitAll lib elapsed cfg { tr with messageStopped := true } events
      exact ⟨h.course, h.pen, h.bytes⟩
    | _ => exact plays_emitAll lib elapsed cfg tr events
  | none =>
    cases ev with
    | messageStop =>
      have h := plays_emitOne lib elapsed cfg { tr with messageStopped := true } .messageStop
      exact ⟨h.course, h.pen, h.bytes⟩
    | messageStart role usage id created model =>
      have h := plays_emitIrEvent lib elapsed cfg tr (.messageStart role usage id created model)
      by_cases hname : cfg.ingress.name = protoAnthropic
      · have hping := h.append (plays_ping (emitIrEvent lib elapsed cfg tr
          (.messageStart role usage id created model)).1)
        simp only [if_pos hname]
        exact ⟨hping.course.trans h.course, hping.pen, hping.bytes⟩
      · simp only [if_neg hname, List.append_nil]
        exact ⟨h.course, h.pen, h.bytes⟩
    | _ => exact plays_emitOne lib elapsed cfg tr _

theorem course_observe (tr : Translator D W) (ev : IrStreamEvent) :
    (tr.observe ev).1.course = (tr.course.observe ev).1 ∧ (tr.observe ev).2 = (tr.course.observe ev).2 ∧
      (tr.observe ev).1.pen = tr.pen := by
  cases ev <;> exact ⟨rfl, rfl, rfl⟩

theorem exceptionFrame_eq (ev : IrStreamEvent) : exceptionFrame lib cfg ev =
    (Course.exception cfg ev).map (fun (name, message) => encodeExceptionFrame lib name message) := by
  cases ev with
  | error err =>
    simp only [exceptionFrame, Course.exception]
    split <;> rfl
  | _ => rfl

/-- What becomes of an event behind the closed blocks. -/
def answered (lib : WireLib) (elapsed : Option Nat) (cfg : StreamConfig D W) (tr : Translator D W)
    (ev : IrStreamEvent) : Translator D W × Bytes :=
  match combinedStop tr ev with
  | some (events, framing) => emitAll lib elapsed cfg { tr with framing := framing } events
  | none =>
    match foldTerminal tr ev with
    | some tr => (tr, [])
    | none =>
      match usageOnly tr ev with
      | some (shouldEmit, framing) =>
        if shouldEmit then emitIrEvent lib elapsed cfg { tr with framing := framing } ev
        else ({ tr with framing := framing }, [])
      | none => emitPlain lib elapsed cfg tr ev

variable (lib elapsed cfg) in
theorem plays_answered (tr : Translator D W) (ev : IrStreamEvent) :
    Plays lib elapsed cfg tr (answered lib elapsed cfg tr ev) (tr.course.answer cfg ev) := by
  have hplain := plays_emitPlain lib elapsed cfg tr ev
  obtain ⟨decode, writer, framing, startUsage, messageStopped, lastUsage, terminalError, pending, pendingStop,
    openBlocks⟩ := tr
  cases framing with
  | passthrough =>
    cases ev with
    | messageDelta stopReason seq usage =>
      rcases stopReason with _ | reason <;> rcases pending with _ | ⟨reason', seq', acc⟩ <;>
        first | exact hplain | exact ⟨rfl, rfl, rfl⟩
    | messageStop =>
      rcases pending with _ | ⟨reason', seq', acc⟩ <;> first | exact hplain | exact ⟨rfl, rfl, rfl⟩
    | _ => exact hplain
  | openAi fr =>
    cases ev with
    | messageDelta stopReason seq usage => rcases stopReason with _ | reason <;> exact hplain
    | _ => exact hplain
  | bedrock fr =>
    cases ev with
    | messageDelta stopReason seq usage =>
      rcases stopReason with _ | reason
      · -- the first usage there is goes out, whichever side of the stop it is on
        have hemit := plays_emitOne lib elapsed cfg ⟨decode, writer, .bedrock fr.onUsageOnlyDelta.2, startUsage,
          messageStopped, lastUsage, terminalError, pending, pendingStop, openBlocks⟩ (.messageDelta none seq usage)
        cases h : fr.onUsageOnlyDelta.1 with
        | true =>
          simp only [answered, combinedStop, foldTerminal, usageOnly, StreamFraming.foldsTerminalUsage,
            StreamFraming.onUsageOnlyDelta, Course.answer, course, StreamFraming.ending, h, Bool.false_eq_true, if_true,
            if_false]
          exact ⟨hemit.course, hemit.pen, hemit.bytes⟩
        | false =>
          simp only [answered, combinedStop, foldTerminal, usageOnly, StreamFraming.foldsTerminalUsage,
            StreamFraming.onUsageOnlyDelta, Course.answer, course, StreamFraming.ending, h, Bool.false_eq_true,
            if_false]
          exact ⟨rfl, rfl, rfl⟩
      · have hemit := plays_emitAll lib elapsed cfg ⟨decode, writer,
          .bedrock (fr.onCombinedStopDelta reason seq usage).2, startUsage, messageStopped, lastUsage, terminalError,
          pending, pendingStop, openBlocks⟩ (fr.onCombinedStopDelta reason seq usage).1
        exact ⟨hemit.course, hemit.pen, hemit.bytes⟩
    | _ => exact hplain

variable (lib elapsed cfg) in
/-- The blocks a terminal event closes ahead of it. -/
theorem plays_closeIf (tr : Translator D W) (ev : IrStreamEvent) :
    Plays lib elapsed cfg tr (if isTerminal ev then closeOpenBlocks lib elapsed cfg tr else (tr, []))
      (if isTerminal ev then tr.course.close else (tr.course, [])) := by
  split
  · exact plays_closeOpenBlocks lib elapsed cfg tr
  · exact Plays.silent tr

variable (lib elapsed cfg) in
theorem plays_translateOne (tr : Translator D W) (ev : IrStreamEvent) :
    Plays lib elapsed cfg tr (translateOne lib elapsed cfg tr ev) (tr.course.step cfg ev) := by
  obtain ⟨hcourse, hev, hpen⟩ := course_observe tr (remapEvent cfg.ingress.name ev)
  refine Plays.of_pen hpen.symm ?_
  unfold Course.step
  simp only [translateOne, ← hcourse, ← hev]
  generalize tr.observe (remapEvent cfg.ingress.name ev) = seen
  obtain ⟨tr₁, ev₁⟩ := seen
  rw [exceptionFrame_eq]
  cases Course.exception cfg ev₁ with
  | some p => exact ⟨rfl, rfl, (List.append_nil _).symm⟩
  | none =>
    have hclose := plays_closeIf lib elapsed cfg tr₁ ev₁
    dsimp only [Option.map_none] at hclose ⊢
    generalize (if isTerminal ev₁ then closeOpenBlocks lib elapsed cfg tr₁ else (tr₁, [])) = closed at hclose ⊢
    generalize (if isTerminal ev₁ then tr₁.course.close else (tr₁.course, [])) = closing at hclose ⊢
    have hans := plays_answered lib elapsed cfg closed.1 ev₁
    rw [hclose.course] at hans
    have happ := hclose.append hans
    unfold answered at happ
    cases hcs : combinedStop closed.1 ev₁ with
    | some p =>
      simp only [hcs] at happ
      exact happ
    | none =>
      simp only [hcs] at happ
      cases hft : foldTerminal closed.1 ev₁ with
      | some tr₂ =>
        simp only [hft, List.append_nil] at happ
        exact happ
      | none =>
        simp only [hft] at happ
        rcases huo : usageOnly closed.1 ev₁ with _ | ⟨_ | _, framing⟩
        all_goals
          simp only [huo, if_true, Bool.false_eq_true, if_false, List.append_nil] at happ ⊢
          exact happ

variable (lib elapsed cfg) in
/-- **The translator is its course, written by its pen.** -/
theorem translateAll_course (tr : Translator D W) (evs : List IrStreamEvent) :
    Plays lib elapsed cfg tr (translateAll lib elapsed cfg tr evs) (tr.course.run cfg evs) := by
  induction evs generalizing tr with
  | nil => exact Plays.silent tr
  | cons ev evs ih =>
    have hhead := plays_translateOne lib elapsed cfg tr ev
    have htail := ih (translateOne lib elapsed cfg tr ev).1
    rw [hhead.course] at htail
    exact hhead.append htail

/-! ## The end -/

variable (lib elapsed cfg) in
/-- A framing that owes a usage frame writes it ahead of the deferred terminal delta. -/
theorem plays_end (tr : Translator D W) :
    let closed := closeOpenBlocks lib elapsed cfg tr
    let owed := closed.1.framing.onFinish
    let trailing := emitAll lib elapsed cfg { closed.1 with framing := owed.2 } owed.1.toList
    let flushed := emitAll lib elapsed cfg { trailing.1 with pendingTerminal := none }
      (StreamTranslate.pendingEvents trailing.1)
    Plays lib elapsed cfg tr (flushed.1, closed.2 ++ trailing.2 ++ flushed.2) tr.course.finish := by
  intro closed owed trailing flushed
  have hclose : Plays lib elapsed cfg tr closed tr.course.close := plays_closeOpenBlocks lib elapsed cfg tr
  have howed : ({ closed.1 with framing := owed.2 } : Translator D W).course = closed.1.course.owed.1 ∧
      owed.1.toList = closed.1.course.owed.2 ∧
      closed.1.pen = ({ closed.1 with framing := owed.2 } : Translator D W).pen := by
    simp only [owed, Course.owed, course, pen]
    cases closed.1.framing <;> exact ⟨rfl, rfl, rfl⟩
  have htrail : Plays lib elapsed cfg closed.1 trailing (closed.1.course.owed.1.emit closed.1.course.owed.2) := by
    have h := plays_emitAll lib elapsed cfg { closed.1 with framing := owed.2 } owed.1.toList
    rw [← howed.1, ← howed.2.1]
    exact Plays.of_pen howed.2.2 h
  have hflush : Plays lib elapsed cfg trailing.1 flushed
      (({ trailing.1.course with pendingTerminal := none } : Course).emit trailing.1.course.pendingEvents) := by
    have h := plays_emitAll lib elapsed cfg { trailing.1 with pendingTerminal := none }
      (StreamTranslate.pendingEvents trailing.1)
    exact ⟨h.course, h.pen, h.bytes⟩
  rw [hclose.course] at htrail
  rw [htrail.course] at hflush
  exact (hclose.append htrail).append hflush

/-! ## Frames -/

end Translator

namespace StreamConfig

variable (lib) (cfg)

/-- What a frame of the backend carries, if it carries anything. -/
def decoded (frame : Bytes) : Option (String × Json) :=
  if cfg.egressEventstream then
    (lib.fromSlice (decodeFrame frame).2).map fun data =>
      ((decodeFrame frame).1, data.mapObject (Json.insertMember "type" (.string (decodeFrame frame).1)))
  else
    match parseSseFrame frame with
    | some (eventType, dataStr) =>
      if dataStr = "" ∨ dataStr = sseDoneSentinel then none
      else (lib.parseStr dataStr).map fun data => (eventType, data)
    | none => none

/-- The events of a frame, by what was read ahead of it. -/
def readFrame (decode : D) (frame : Bytes) : List IrStreamEvent × D :=
  match cfg.decoded lib frame with
  | some (eventType, data) => cfg.egress.reader.readResponseEvents eventType data decode
  | none => ([], decode)

def readFrames (decode : D) : List Bytes → List IrStreamEvent
  | [] => []
  | frame :: frames => (cfg.readFrame lib decode frame).1 ++ readFrames (cfg.readFrame lib decode frame).2 frames

theorem readFrames_append (decode : D) (fs fs' : List Bytes) : ∃ decode',
    cfg.readFrames lib decode (fs ++ fs') = cfg.readFrames lib decode fs ++ cfg.readFrames lib decode' fs' := by
  induction fs generalizing decode with
  | nil => exact ⟨decode, rfl⟩
  | cons f fs ih =>
    obtain ⟨decode', h⟩ := ih (cfg.readFrame lib decode f).2
    exact ⟨decode', by simp only [List.cons_append, readFrames, h, List.append_assoc]⟩

end StreamConfig

theorem Account.events_decode (acc : Account D) (evs : List IrStreamEvent) : (acc.events evs).decode = acc.decode := by
  induction evs generalizing acc with
  | nil => rfl
  | cons ev evs ih =>
    have hhead : (acc.event ev).decode = acc.decode := by cases ev <;> rfl
    exact (ih _).trans hhead

namespace Translator

variable (lib elapsed cfg) in
theorem decode_translateAll (tr : Translator D W) (evs : List IrStreamEvent) :
    (translateAll lib elapsed cfg tr evs).1.decode = tr.decode := by
  have h : (translateAll lib elapsed cfg tr evs).1.account = tr.account.events evs := translateAll_account tr evs
  have hdecode := congrArg Account.decode h
  rwa [Account.events_decode] at hdecode

variable (lib elapsed cfg) in
theorem translateEvent_course (tr : Translator D W) (eventType : String) (data : Json) :
    let read := cfg.egress.reader.readResponseEvents eventType data tr.decode
    let did := translateEvent lib elapsed cfg tr eventType data
    Plays lib elapsed cfg tr did (tr.course.run cfg read.1) ∧ did.1.decode = read.2 := by
  intro read did
  have h := translateAll_course lib elapsed cfg { tr with decode := read.2 } read.1
  exact ⟨⟨h.course, h.pen, h.bytes⟩, decode_translateAll lib elapsed cfg { tr with decode := read.2 } read.1⟩

variable (lib elapsed) in
/-- A frame does to the course what the events read from it do. -/
theorem onFrame_course (hx : cfg.sameProto = false) (tr : Translator D W) (frame : Bytes) :
    Plays lib elapsed cfg tr (cfg.onFrame lib elapsed tr frame)
        (tr.course.run cfg (cfg.readFrame lib tr.decode frame).1) ∧
      (cfg.onFrame lib elapsed tr frame).1.decode = (cfg.readFrame lib tr.decode frame).2 := by
  unfold StreamConfig.onFrame StreamConfig.readFrame StreamConfig.decoded
  cases cfg.egressEventstream with
  | true =>
    simp only [if_true, onEventFrame, handleEventFrame, hx, Bool.false_eq_true, if_false, List.nil_append]
    cases lib.fromSlice (decodeFrame frame).2 with
    | none => exact ⟨Plays.silent tr, rfl⟩
    | some data => exact translateEvent_course lib elapsed cfg tr _ _
  | false =>
    simp only [Bool.false_eq_true, if_false, onSseFrame, handleFrame]
    cases parseSseFrame frame with
    | none =>
      simp only [emitted, hx, Bool.false_eq_true, if_false, and_true]
      exact Plays.silent tr
    | some p =>
      obtain ⟨eventType, dataStr⟩ := p
      dsimp only
      by_cases hskip : dataStr = "" ∨ dataStr = sseDoneSentinel
      · simp only [if_pos hskip, emitted, hx, Bool.false_eq_true, if_false, and_true]
        exact Plays.silent tr
      simp only [if_neg hskip, hx, Bool.false_eq_true, false_and, if_false]
      cases lib.parseStr dataStr with
      | none =>
        simp only [emitted, hx, Bool.false_eq_true, if_false]
        exact ⟨Plays.silent tr, rfl⟩
      | some data =>
        simp only [emitted, hx, Bool.false_eq_true, if_false]
        exact translateEvent_course lib elapsed cfg tr eventType data

variable (lib elapsed) in
theorem consume_course (hx : cfg.sameProto = false) (fs : List Bytes) (tr : Translator D W) :
    let did := Framer.consume (cfg.onFrame lib elapsed) tr fs
    Plays lib elapsed cfg tr did (tr.course.run cfg (cfg.readFrames lib tr.decode fs)) ∧
      ∀ fs', cfg.readFrames lib tr.decode (fs ++ fs') =
        cfg.readFrames lib tr.decode fs ++ cfg.readFrames lib did.1.decode fs' := by
  induction fs generalizing tr with
  | nil => exact ⟨Plays.silent tr, fun _ => rfl⟩
  | cons f fs ih =>
    obtain ⟨hhead, hdecode⟩ := onFrame_course lib elapsed hx tr f
    obtain ⟨htail, hread⟩ := ih (cfg.onFrame lib elapsed tr f).1
    rw [hhead.course, hdecode] at htail
    refine ⟨?_, fun fs' => ?_⟩
    · simp only [StreamConfig.readFrames, Course.run_append]
      exact hhead.append htail
    · rw [hdecode] at hread
      simp only [List.cons_append, StreamConfig.readFrames, hread fs', List.append_assoc]
      rfl

end Translator

/-! ## Streams -/

namespace StreamTranslate

variable (lib) (elapsedMs : Nat)

/-- The frames a stream in chunks is read from are those at the front of its bytes. -/
theorem feedAll_course {t : StreamTranslate D W} (hs : t.Scanned) (hx : t.sameProto = false) (chunks : List Bytes) :
    let r := t.feedAll lib elapsedMs chunks
    ∃ fs, fs <+: (t.framer.drain (t.buf ++ chunks.flatten)).1 ∧
      Plays lib (some elapsedMs) t.toStreamConfig t.toTranslator (r.1.toTranslator, r.2)
        (t.course.run t.toStreamConfig (t.readFrames lib t.decode fs)) ∧
      r.1.toStreamConfig = t.toStreamConfig ∧
      (t.aborted = false ∧ chunks ≠ [] ∨ t.started = true → r.1.started = true) := by
  induction chunks generalizing t with
  | nil => exact ⟨[], List.nil_prefix, Plays.silent _, rfl, by simp [feedAll]⟩
  | cons c cs ih =>
    cases ha : t.aborted with
    | true =>
      rw [feedAll_aborted ha]
      exact ⟨[], List.nil_prefix, Plays.silent _, rfl, by simp⟩
    | false =>
      obtain ⟨habs, hout, hcfg, hs', hstart⟩ := feed_abs lib elapsedMs hs c
      obtain ⟨hplay, hread⟩ := Translator.consume_course lib (some elapsedMs) hx
        (t.framer.drain (t.buf ++ c)).1 t.toTranslator
      have hdrain := Framer.drain_append (F := t.framer) (t.buf ++ c) cs.flatten
      rw [abs_live ha, Framer.feed_some] at habs hout
      simp only [feedAll]
      set r := t.feed lib elapsedMs c with hr
      set d := t.framer.drain (t.buf ++ c) with hd
      set did := Framer.consume (t.onFrame lib (some elapsedMs)) t.toTranslator d.1 with hdid
      have htr : r.1.toTranslator = did.1 := congrArg Prod.fst habs
      have hhead : Plays lib (some elapsedMs) t.toStreamConfig t.toTranslator (r.1.toTranslator, r.2)
          (t.course.run t.toStreamConfig (t.readFrames lib t.decode d.1)) := by rw [htr, hout]; exact hplay
      have hstarted : r.1.started = true := hstart (Or.inl ha)
      rw [List.flatten_cons, ← List.append_assoc]
      cases ha' : r.1.aborted with
      | true =>
        -- malformed or too long: what was cut from the buffer is the last of it
        rw [feedAll_aborted ha', List.append_nil]
        refine ⟨d.1, ?_, hhead, hcfg, fun _ => hstarted⟩
        rw [hdrain]
        rcases d with ⟨fs, _ | rest⟩
        · exact List.prefix_rfl
        · exact List.prefix_append _ _
      | false =>
        obtain ⟨fs, hpre, htail, hcfg', hstart'⟩ := ih hs' (by rw [hcfg]; exact hx)
        rw [abs_live ha'] at habs
        obtain ⟨hrest, -⟩ := Option.filter_eq_some_iff.1 (congrArg Prod.snd habs).symm
        rw [hcfg] at hpre htail hcfg'
        rw [hhead.course] at htail
        refine ⟨d.1 ++ fs, ?_, ?_, hcfg', fun _ => hstart' (Or.inr hstarted)⟩
        · rw [hdrain]
          rcases d with ⟨ds, o⟩
          cases hrest
          exact (List.prefix_append_right_inj ds).2 hpre
        · rw [hread fs, ← htr, Course.run_append]
          exact hhead.append htail

/-- The end of a translated stream: what the course still emits, and the `[DONE]` literal. -/
theorem finish_course {t : StreamTranslate D W} (hx : t.sameProto = false) :
    let r := t.finish lib elapsedMs
    ∃ bytes done, (done = [] ∨ t.emitDone = true ∧ done = sseDoneFrame) ∧ r.2 = bytes ++ done ∧
      r.1.aborted = t.aborted ∧
      Plays lib (t.elapsed elapsedMs) t.toStreamConfig t.toTranslator (r.1.toTranslator, bytes)
        (if t.aborted then (t.course, t.course.finishAborted) else t.course.finish) := by
  have hdone : (if t.emitDone then sseDoneFrame else []) = [] ∨
      t.emitDone = true ∧ (if t.emitDone then sseDoneFrame else []) = sseDoneFrame := by
    cases t.emitDone
    · exact Or.inl rfl
    · exact Or.inr ⟨rfl, rfl⟩
  cases ha : t.aborted with
  | true =>
    simp only [finish, ha, if_true, finishAborted]
    cases hfr : t.framing with
    | bedrock fr =>
      have hc : t.course.finishAborted = [.exception excInternalServer streamAbortDetail] := by
        simp only [Course.finishAborted, Translator.course, hfr, StreamFraming.ending]
      rw [hc]
      exact ⟨_, [], Or.inl rfl, (List.append_nil _).symm, ha, rfl, rfl, (List.append_nil _).symm⟩
    | passthrough | openAi =>
      have hc : t.course.finishAborted = [.event (.error ⟨.serverError, some streamAbortDetail, none⟩)] := by
        simp only [Course.finishAborted, Translator.course, hfr, StreamFraming.ending]
      rw [hc]
      exact ⟨_, _, hdone, rfl, rfl, Translator.plays_emitIrEvent lib (t.elapsed elapsedMs) t.toStreamConfig
        t.toTranslator (.error ⟨.serverError, some streamAbortDetail, none⟩)⟩
  | false =>
    simp only [finish, ha, hx, Bool.false_eq_true, if_false]
    have h := Translator.plays_end lib (t.elapsed elapsedMs) t.toStreamConfig t.toTranslator
    exact ⟨_, _, hdone, rfl, trivial, h⟩

/-- A stream that was given nothing has nothing to emit. -/
theorem Fresh.whole_nil {t : StreamTranslate D W} (hf : t.Fresh) :
    t.course.whole t.toStreamConfig [] false = [] := by
  have hfinish : t.course.finish.2 = [] := by
    have howed := hf.owed
    simp only [Course.finish, Course.close, Course.emit, Course.owed, Course.pendingEvents, Translator.course,
      hf.openBlocks, hf.pending, List.map_nil, List.foldl_nil, List.nil_append]
    cases hfr : t.framing with
    | bedrock fr =>
      rw [hfr] at howed
      have hnone : fr.onFinish.1 = none := congrArg Prod.fst howed
      simp only [StreamFraming.ending, hnone, Option.toList_none]
      rfl
    | _ => rfl
  simp only [Course.whole, Course.run, hfinish, Bool.false_eq_true, if_false, List.append_nil]

/-- **A stream in chunks is the course of what was read from it**, on the wire as the pen writes it. -/
theorem run_course {t : StreamTranslate D W} (hf : t.Fresh) (hx : t.sameProto = false) (chunks : List Bytes) :
    let r := t.run lib elapsedMs chunks
    ∃ fs done, fs <+: (t.framer.drain chunks.flatten).1 ∧ (done = [] ∨ t.emitDone = true ∧ done = sseDoneFrame) ∧
      r.2 = (t.pen.writeAll (some elapsedMs) t.toStreamConfig (t.course.whole t.toStreamConfig
        (t.readFrames lib t.decode fs) r.1.aborted)).2.flatMap (ClientFrame.bytes lib t.toStreamConfig) ++ done ∧
      r.1.usage = (t.course.run t.toStreamConfig (t.readFrames lib t.decode fs)).1.lastUsage := by
  intro r
  obtain ⟨fs, hpre, hfed, hcfg, hstart⟩ := feedAll_course lib elapsedMs hf.isScanned hx chunks
  rw [hf.buf, List.nil_append] at hpre
  obtain ⟨bytes, done, hdone, hout, hab, hfin⟩ := finish_course lib elapsedMs
    (t := (t.feedAll lib elapsedMs chunks).1) (by rw [hcfg]; exact hx)
  have hr : r = (((t.feedAll lib elapsedMs chunks).1.finish lib elapsedMs).1,
      (t.feedAll lib elapsedMs chunks).2 ++ ((t.feedAll lib elapsedMs chunks).1.finish lib elapsedMs).2) :=
    run_eq t chunks
  by_cases hne : chunks = []
  · subst hne
    obtain ⟨hidle, htr, hlive⟩ := finish_idle lib elapsedMs hf.live hf.openBlocks hf.owed hf.pending
    refine ⟨[], if !t.sameProto && t.emitDone then sseDoneFrame else [], List.nil_prefix, ?_, ?_, ?_⟩
    · cases t.sameProto <;> cases t.emitDone <;> simp
    · rw [hr, show (t.feedAll lib elapsedMs []) = (t, []) from rfl, hlive, StreamConfig.readFrames, hf.whole_nil]
      exact hidle
    · rw [hr, show (t.feedAll lib elapsedMs []) = (t, []) from rfl, usage, htr]
      rfl
  have helapsed : (t.feedAll lib elapsedMs chunks).1.elapsed elapsedMs = some elapsedMs := by
    rw [elapsed, if_pos (hstart (Or.inl ⟨hf.live, hne⟩))]
  rw [helapsed, hcfg] at hfin
  rw [hfed.course] at hfin
  rw [hcfg] at hdone
  have hall := hfed.append hfin
  refine ⟨fs, done, hpre, hdone, ?_, ?_⟩
  · rw [hr, hout, ← List.append_assoc, hab]
    refine congrArg (· ++ done) (hall.bytes.trans ?_)
    unfold Course.whole
    split <;> rfl
  · have hend := congrArg Course.lastUsage hall.course
    rw [hr]
    refine hend.trans ?_
    split
    · rfl
    · exact Course.finish_lastUsage _

/-! ## Events -/

/-- What goes out for a sequence of events and the end of the stream. -/
def translateWhole (t : StreamTranslate D W) (evs : List IrStreamEvent) : Bytes :=
  let (tr, out) := Translator.translateAll lib (t.elapsed elapsedMs) t.toStreamConfig t.toTranslator evs
  out ++ (({ t with toTranslator := tr } : StreamTranslate D W).finish lib elapsedMs).2

/-- The frames of a sequence of events and the end of the stream. -/
def clientFrames (t : StreamTranslate D W) (elapsed : Option Nat) (evs : List IrStreamEvent) : List ClientFrame :=
  (t.pen.writeAll elapsed t.toStreamConfig (t.course.whole t.toStreamConfig evs false)).2

theorem translateWhole_eq {t : StreamTranslate D W} (ha : t.aborted = false) (hx : t.sameProto = false)
    (evs : List IrStreamEvent) :
    ∃ done, (done = [] ∨ t.emitDone = true ∧ done = sseDoneFrame) ∧ t.translateWhole lib elapsedMs evs =
      (t.clientFrames (t.elapsed elapsedMs) evs).flatMap (ClientFrame.bytes lib t.toStreamConfig) ++ done := by
  have hall := Translator.translateAll_course lib (t.elapsed elapsedMs) t.toStreamConfig t.toTranslator evs
  rcases htr : Translator.translateAll lib (t.elapsed elapsedMs) t.toStreamConfig t.toTranslator evs with ⟨tr, out⟩
  rw [htr] at hall
  obtain ⟨bytes, done, hdone, hout, -, hfin⟩ := finish_course lib elapsedMs
    (t := { t with toTranslator := tr }) hx
  rw [if_neg (by simp [ha])] at hfin
  rw [show ({ t with toTranslator := tr } : StreamTranslate D W).course = _ from hall.course] at hfin
  have h := (hall.append hfin).bytes
  refine ⟨done, hdone, ?_⟩
  simp only [translateWhole, htr]
  rw [hout, ← List.append_assoc]
  exact congrArg (· ++ done) h

end StreamTranslate

end Busbar
