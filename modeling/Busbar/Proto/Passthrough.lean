import Busbar.Proto.Chunking

/-!
# Same-protocol passthrough

On a same-protocol stream whose framing leaves every frame alone, the complete frames go out as they came in.
What follows the last of them stays in the buffer, and the end of the input does not flush it.

* `run_sameProto`: what goes out is the complete frames.
* `passthrough_exact_iff`: the stream goes out exactly iff it ends with a complete frame.
* `unterminated_tail_is_dropped`: the stream that does not.
-/

namespace Busbar

variable {D W : Type} {lib : WireLib}

namespace Translator

variable {elapsed : Option Nat} {cfg : StreamConfig D W}

theorem accountEvent_framing (tr : Translator D W) (ev : IrStreamEvent) : (accountEvent tr ev).framing = tr.framing := by
  cases ev <;> rfl

theorem extractUsageOnly_framing (tr : Translator D W) (eventType : String) (data : Json) :
    (extractUsageOnly cfg tr eventType data).framing = tr.framing := by
  have hfold : ∀ (evs : List IrStreamEvent) (tr : Translator D W), (evs.foldl accountEvent tr).framing = tr.framing := by
    intro evs
    induction evs with
    | nil => intro tr; rfl
    | cons ev evs ih => intro tr; rw [List.foldl_cons, ih, accountEvent_framing]
  exact hfold _ _

theorem onSseFrame_verbatim (hs : cfg.sameProto = true) {tr : Translator D W} (hv : tr.framing.Verbatim)
    (frame : Bytes) : (onSseFrame lib elapsed cfg tr frame).2 = frame ∧
      (onSseFrame lib elapsed cfg tr frame).1.framing.Verbatim := by
  unfold onSseFrame handleFrame
  cases parseSseFrame frame with
  | none => exact ⟨if_pos hs, hv⟩
  | some p =>
    obtain ⟨eventType, dataStr⟩ := p
    dsimp only
    by_cases hskip : dataStr = "" ∨ dataStr = sseDoneSentinel
    · rw [if_pos hskip]; exact ⟨if_pos hs, hv⟩
    rw [if_neg hskip]
    by_cases hgate : cfg.sameProto = true ∧ cfg.egress.name = protoAnthropic ∧ eventType ∉ anthropicDecoded
    · rw [if_pos hgate]; exact ⟨if_pos hs, hv⟩
    rw [if_neg hgate]
    cases lib.parseStr dataStr with
    | none => exact ⟨if_pos hs, hv⟩
    | some data =>
      have hfr : (extractUsageOnly cfg tr eventType data).framing = tr.framing := extractUsageOnly_framing _ _ _
      obtain ⟨hsup, hstrip⟩ := StreamFraming.suppress_strip_eq_false hv data
      simp only [hs, if_true, hfr, hsup, hstrip, Bool.false_eq_true, if_false, emitted]
      exact ⟨trivial, hv⟩

theorem onEventFrame_verbatim (hs : cfg.sameProto = true) {tr : Translator D W} (hv : tr.framing.Verbatim)
    (frame : Bytes) : (onEventFrame lib elapsed cfg tr frame).2 = frame ∧
      (onEventFrame lib elapsed cfg tr frame).1.framing.Verbatim := by
  unfold onEventFrame
  refine ⟨?_, ?_⟩
  · simp only [handleEventFrame_same hs, hs, if_true, List.append_nil]
  · unfold handleEventFrame
    cases lib.fromSlice (decodeFrame frame).2 with
    | none => exact hv
    | some data =>
      simp only [hs, if_true, extractUsageOnly_framing]
      exact hv

end Translator

theorem StreamConfig.onFrame_verbatim {elapsed : Option Nat} {cfg : StreamConfig D W} (hs : cfg.sameProto = true)
    {tr : Translator D W} (hv : tr.framing.Verbatim) (frame : Bytes) :
    (cfg.onFrame lib elapsed tr frame).2 = frame ∧ (cfg.onFrame lib elapsed tr frame).1.framing.Verbatim := by
  unfold StreamConfig.onFrame
  split
  · exact Translator.onEventFrame_verbatim hs hv frame
  · exact Translator.onSseFrame_verbatim hs hv frame

namespace StreamTranslate

variable {elapsedMs : Nat}

theorem finish_aborted (t : StreamTranslate D W) : (t.finish lib elapsedMs).1.aborted = t.aborted := by
  unfold finish
  split
  · unfold finishAborted
    cases t.framing.abortExceptionType <;> rfl
  · split <;> rfl

/-- On a same-protocol stream that is not abandoned, the complete frames go out and nothing else does. -/
theorem run_sameProto {t : StreamTranslate D W} (hf : t.Fresh) (hs : t.sameProto = true)
    (hv : t.framing.Verbatim) {chunks : List Bytes} (hlive : (t.run lib elapsedMs chunks).1.aborted = false) :
    (t.run lib elapsedMs chunks).2 = (t.framer.drain chunks.flatten).1.flatten ∧
      (t.framer.drain chunks.flatten).2.isSome = true := by
  rw [run_eq] at hlive ⊢
  have hlive' : (t.feedAll lib elapsedMs chunks).1.aborted = false := by rw [← finish_aborted]; exact hlive
  obtain ⟨h₁, h₂, -⟩ := feedAll_abs lib elapsedMs hf.isScanned chunks (Or.inr hlive')
  rw [Framer.feedAll_eq_feed (hf.settled _), abs_live hf.live, Framer.feed_some, hf.buf, List.nil_append,
    abs_live hlive'] at h₁
  have hout := congrArg Prod.snd h₁
  have hrest := congrArg (fun r => r.1.2) h₁
  dsimp only at hout hrest
  have hfin : ((t.feedAll lib elapsedMs chunks).1.finish lib elapsedMs).2 = [] := by
    have hs' : (t.feedAll lib elapsedMs chunks).1.sameProto = true := by rw [h₂]; exact hs
    simp only [finish, hlive', hs', Bool.false_eq_true, if_false, if_true]
  rw [hfin, List.append_nil, hout]
  refine ⟨Framer.consume_verbatim (I := fun tr : Translator D W => tr.framing.Verbatim)
    (fun tr f htr => StreamConfig.onFrame_verbatim hs htr f) hv _, ?_⟩
  rw [← hrest]; rfl

theorem newSameProto_spec {protocolFor : String → Option (Protocol D W)} {initDecode : D} {initWriter : W}
    {proto : String} {t₀ : StreamTranslate D W} (hb : newSameProto protocolFor initDecode initWriter proto = some t₀)
    {opted : Bool} (hopt : ∀ p, protocolFor proto = some p → p.writer.framingKind = .openAi → opted = true) :
    t₀.sameProto = true ∧ (t₀.setClientIncludeUsage opted).framing.Verbatim := by
  simp only [newSameProto, build, Option.bind_eq_bind, Option.bind_eq_some_iff, Option.some.injEq] at hb
  obtain ⟨p, hp, p', hp', rfl⟩ := hb
  refine ⟨rfl, ?_⟩
  have hk := hopt p hp
  show ((StreamFraming.fresh p.writer.framingKind).setClientIncludeUsage opted).Verbatim
  cases hkind : p.writer.framingKind with
  | openAi => exact hk hkind
  | passthrough => trivial
  | bedrock => trivial

variable (lib elapsedMs) in
/-- **Passthrough is exact iff the stream ends with a complete frame**: for every framing but OpenAI's, and
OpenAI's for a client that asked for usage. -/
theorem passthrough_exact_iff {protocolFor : String → Option (Protocol D W)} {initDecode : D} {initWriter : W}
    {proto : String} {t₀ : StreamTranslate D W} (hb : newSameProto protocolFor initDecode initWriter proto = some t₀)
    (opted : Bool) (hopt : ∀ p, protocolFor proto = some p → p.writer.framingKind = .openAi → opted = true)
    (chunks : List Bytes)
    (hlive : ((t₀.setClientIncludeUsage opted).run lib elapsedMs chunks).1.aborted = false) :
    ((t₀.setClientIncludeUsage opted).run lib elapsedMs chunks).2 = chunks.flatten ↔
      t₀.framer.Framed chunks.flatten := by
  obtain ⟨hs, hv⟩ := newSameProto_spec hb hopt
  obtain ⟨hout, hsome⟩ := run_sameProto (build_fresh hb opted) hs hv hlive
  obtain ⟨rest, hrest⟩ := Option.isSome_iff_exists.1 hsome
  have hcut := Framer.drain_flatten hrest
  rw [hout, show t₀.framer = (t₀.setClientIncludeUsage opted).framer from rfl, ← Framer.drain_rest_nil_iff, hrest,
    Option.some.injEq]
  constructor
  · intro h
    rw [h] at hcut
    exact List.append_right_eq_self.1 hcut
  · rintro rfl
    rwa [List.append_nil] at hcut

/-- `data: {}` and a line feed, but no blank line. -/
def unterminated : Bytes := [0x64, 0x61, 0x74, 0x61, 0x3A, 0x20, 0x7B, 0x7D, 0x0A]

theorem unterminated_run : ((muteTranslator true).run muteLib 0 [unterminated]).1.aborted = false ∧
    ((muteTranslator true).run muteLib 0 [unterminated]).2 = [] := by
  have hfeed : (muteTranslator true).feed muteLib 0 unterminated =
      ({ muteTranslator true with started := true, buf := unterminated, scanned := 9 }, []) := by
    rw [feed_live rfl, if_neg (by decide), feedSse, Translator.drainSse_none (by decide)]
    rfl
  rw [run_eq]
  simp only [feedAll, hfeed]
  exact ⟨rfl, rfl⟩

/-- **An unterminated tail is dropped as it stands.** -/
theorem unterminated_tail_is_dropped : ¬ ∀ (lib : WireLib) (elapsedMs : Nat)
    (protocolFor : String → Option (Protocol Unit Unit)) (proto : String) (t₀ : StreamTranslate Unit Unit),
    newSameProto protocolFor () () proto = some t₀ → ∀ (opted : Bool),
    (∀ p, protocolFor proto = some p → p.writer.framingKind = .openAi → opted = true) →
    ∀ chunks : List Bytes, ((t₀.setClientIncludeUsage opted).run lib elapsedMs chunks).1.aborted = false →
    ((t₀.setClientIncludeUsage opted).run lib elapsedMs chunks).2 = chunks.flatten := by
  intro h
  have hrun := h muteLib 0 (fun _ => some muteProtocol) protoAnthropic (muteTranslator true) (build_mute true) false
    (fun p hp hk => by cases hp; cases hk) [unterminated] unterminated_run.1
  rw [show (muteTranslator true).setClientIncludeUsage false = muteTranslator true from rfl,
    unterminated_run.2] at hrun
  cases hrun

theorem passthrough_exact_tail : ¬ sseFramer.Framed unterminated := fun h => by
  have hrun := (passthrough_exact_iff muteLib 0 (build_mute true) false
    (fun p hp hk => by cases hp; cases hk) [unterminated] unterminated_run.1).2
    (by rw [show (muteTranslator true).framer = sseFramer from rfl]; exact h)
  rw [show (muteTranslator true).setClientIncludeUsage false = muteTranslator true from rfl,
    unterminated_run.2] at hrun
  cases hrun

end StreamTranslate

end Busbar
