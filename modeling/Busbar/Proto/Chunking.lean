import Busbar.Proto.Stream

/-!
# A stream in chunks

The translator reads frames off its input as a framer does, whatever cursors it keeps, so the way the
transport cuts the input makes no difference.

* `Translator.drainSse_eq`: the scan with its three cursors handles the frames of the buffer.
* `StreamTranslate.feed_abs`: feeding a chunk is what the framer's reader does.
* `StreamTranslate.chunking_independent`: a stream in chunks does what it does in one piece.
-/

namespace Busbar

variable {D W : Type} (lib : WireLib)

namespace Translator

variable (elapsed : Option Nat) (cfg : StreamConfig D W)

/-- What goes out for a frame. -/
def emitted (frame translated : Bytes) : FrameFate → Bytes
  | .kept => if cfg.sameProto then frame else translated
  | .suppressed => []
  | .stripped rewritten => rewritten

def onSseFrame (tr : Translator D W) (frame : Bytes) : Translator D W × Bytes :=
  let (tr, translated, fate) := handleFrame lib elapsed cfg tr frame
  (tr, emitted cfg frame translated fate)

def onEventFrame (tr : Translator D W) (frame : Bytes) : Translator D W × Bytes :=
  let (tr, out) := handleEventFrame lib elapsed cfg tr (decodeFrame frame).1 (decodeFrame frame).2
  (tr, (if cfg.sameProto then frame else []) ++ out)

variable {lib elapsed cfg}

variable (lib elapsed cfg) in
/-- Translation keeps no frame's fate but `kept`; a same-protocol stream translates nothing. -/
theorem handleFrame_fate (tr : Translator D W) (frame : Bytes) :
    (cfg.sameProto = true → (handleFrame lib elapsed cfg tr frame).2.1 = []) ∧
      (cfg.sameProto = false → (handleFrame lib elapsed cfg tr frame).2.2 = .kept) := by
  unfold handleFrame
  cases parseSseFrame frame with
  | none => exact ⟨fun _ => rfl, fun _ => rfl⟩
  | some p =>
    obtain ⟨eventType, dataStr⟩ := p
    dsimp only
    by_cases hskip : dataStr = "" ∨ dataStr = sseDoneSentinel
    · rw [if_pos hskip]; exact ⟨fun _ => rfl, fun _ => rfl⟩
    rw [if_neg hskip]
    by_cases hgate : cfg.sameProto = true ∧ cfg.egress.name = protoAnthropic ∧ eventType ∉ anthropicDecoded
    · rw [if_pos hgate]; exact ⟨fun _ => rfl, fun _ => rfl⟩
    rw [if_neg hgate]
    cases lib.parseStr dataStr with
    | none => exact ⟨fun _ => rfl, fun _ => rfl⟩
    | some data =>
      cases hs : cfg.sameProto with
      | false => exact ⟨nofun, fun _ => rfl⟩
      | true =>
        refine ⟨fun _ => ?_, nofun⟩
        simp only [if_true]
        split
        · rfl
        · split <;> rfl

theorem slice_append {buf : Bytes} {i j k : Nat} (hij : i ≤ j) (hjk : j ≤ k) :
    slice buf i j ++ slice buf j k = slice buf i k := by
  unfold slice
  rw [List.drop_take, List.drop_take, List.drop_take]
  have h : k - i = (j - i) + (k - j) := by omega
  rw [h, List.take_add, List.drop_drop, Nat.add_sub_cancel' hij]

theorem slice_self (buf : Bytes) (i : Nat) : slice buf i i = [] := by
  rw [slice, List.drop_take, Nat.sub_self, List.take_zero]

/-- What has gone out, and the bytes that go out with the next flush. -/
def flushed (cfg : StreamConfig D W) (buf : Bytes) (consumed emitFrom : Nat) (out : Bytes) : Bytes :=
  if cfg.sameProto then out ++ slice buf emitFrom consumed else out

theorem drainSse_none {buf : Bytes} {tr : Translator D W} {scanned consumed emitFrom : Nat} {out : Bytes}
    (h : findFrameTerminator (buf.drop (min (max (scanned - 3) consumed) buf.length)) = none) :
    drainSse lib elapsed cfg buf tr scanned consumed emitFrom out = (tr, consumed, emitFrom, out) := by
  rw [drainSse]
  split
  · rename_i h'; cases h.symm.trans h'
  · rfl

variable (lib elapsed cfg) in
/-- A frame found: the scan goes on behind it, with nothing lost from what goes out. -/
theorem drainSse_some {buf : Bytes} (tr : Translator D W) {scanned consumed emitFrom rel termLen stop : Nat}
    (out : Bytes)
    (h : findFrameTerminator (buf.drop (min (max (scanned - 3) consumed) buf.length)) = some (rel, termLen))
    (hstop : stop = min (max (scanned - 3) consumed) buf.length + rel + termLen) (hemit : emitFrom ≤ consumed) :
    let on := onSseFrame lib elapsed cfg tr (slice buf consumed stop)
    ∃ emitFrom' out', emitFrom' ≤ stop ∧
      drainSse lib elapsed cfg buf tr scanned consumed emitFrom out
        = drainSse lib elapsed cfg buf on.1 stop stop emitFrom' out' ∧
      flushed cfg buf stop emitFrom' out' = flushed cfg buf consumed emitFrom out ++ on.2 := by
  intro on
  have hlt := (consumed_lt h).1
  rw [← hstop] at hlt
  obtain ⟨hsame, hcross⟩ := handleFrame_fate lib elapsed cfg tr
    (slice buf consumed stop)
  rcases hh : handleFrame lib elapsed cfg tr (slice buf consumed stop) with ⟨tr', translated, fate⟩
  have hon : on = (tr', emitted cfg (slice buf consumed stop) translated fate) := by
    simp only [on, onSseFrame, hh]
  rw [hh] at hsame hcross
  rw [hon, drainSse]
  split
  swap
  · rename_i h'; cases h.symm.trans h'
  rename_i rel' termLen' h'
  cases h.symm.trans h'
  simp only [← hstop, hh]
  cases fate with
  | kept =>
    refine ⟨emitFrom, out ++ translated, by omega, rfl, ?_⟩
    cases hs : cfg.sameProto with
    | false => simp only [flushed, emitted, hs, Bool.false_eq_true, if_false]
    | true =>
      have ht : translated = [] := hsame hs
      simp only [flushed, emitted, hs, if_true, ht, List.append_nil, List.append_assoc]
      rw [slice_append hemit (by omega)]
  | suppressed =>
    have hs : cfg.sameProto = true := by
      by_contra hne
      cases hcross (by simpa using hne)
    refine ⟨stop, out ++ slice buf emitFrom consumed, le_rfl, rfl, ?_⟩
    simp only [flushed, emitted, hs, if_true, slice_self, List.append_nil]
  | stripped rewritten =>
    have hs : cfg.sameProto = true := by
      by_contra hne
      cases hcross (by simpa using hne)
    refine ⟨stop, out ++ slice buf emitFrom consumed ++ rewritten, le_rfl, rfl, ?_⟩
    simp only [flushed, emitted, hs, if_true, slice_self, List.append_nil]

/-- What stands at a cursor, where no terminator ends in the part that was scanned: the search may start three bytes before
the end of that part. -/
theorem front_at_cursor {buf : Bytes} {scanned consumed : Nat} (hcon : consumed ≤ scanned) (hscan : scanned ≤ buf.length)
    (hclean : findFrameTerminator ((buf.drop consumed).take (scanned - consumed)) = none) :
    let searchFrom := min (max (scanned - 3) consumed) buf.length
    sseFramer.front (buf.drop consumed) = match findFrameTerminator (buf.drop searchFrom) with
      | some (rel, termLen) =>
        .frame (slice buf consumed (searchFrom + rel + termLen)) (buf.drop (searchFrom + rel + termLen))
      | none => .more := by
  intro searchFrom
  have hfrom : searchFrom = consumed + (scanned - consumed - 3) := by
    simp only [searchFrom]
    omega
  have hresume := findFrameTerminator_resume hclean
  rw [List.drop_drop, ← hfrom] at hresume
  cases hf : findFrameTerminator (buf.drop searchFrom) with
  | none =>
    rw [hf, Option.map_none] at hresume
    exact sseFramer_more.2 hresume
  | some t =>
    obtain ⟨rel, termLen⟩ := t
    rw [hf, Option.map_some] at hresume
    rw [sseFramer_frame hresume]
    simp only [slice, List.drop_take, List.drop_drop, Front.frame.injEq]
    exact ⟨by congr 1; omega, by congr 1; omega⟩

variable (lib elapsed cfg) in
/-- The scan with its cursors handles the frames of the buffer. -/
theorem drainSse_eq {buf : Bytes} {scanned consumed emitFrom : Nat} (tr : Translator D W) (out : Bytes)
    (hemit : emitFrom ≤ consumed) (hcon : consumed ≤ scanned) (hscan : scanned ≤ buf.length)
    (hclean : findFrameTerminator ((buf.drop consumed).take (scanned - consumed)) = none) :
    let r := drainSse lib elapsed cfg buf tr scanned consumed emitFrom out
    let d := sseFramer.drain (buf.drop consumed)
    let c := Framer.consume (onSseFrame lib elapsed cfg) tr d.1
    r.1 = c.1 ∧ d.2 = some (buf.drop r.2.1) ∧
      flushed cfg buf r.2.1 r.2.2.1 r.2.2.2 = flushed cfg buf consumed emitFrom out ++ c.2 := by
  induction hn : buf.length - consumed using Nat.strongRecOn generalizing tr scanned consumed emitFrom out with
  | _ n ih =>
    have hfront := front_at_cursor hcon hscan hclean
    dsimp only at hfront
    cases hf : findFrameTerminator (buf.drop (min (max (scanned - 3) consumed) buf.length)) with
    | none =>
      rw [hf] at hfront
      rw [drainSse_none hf, Framer.drain_more hfront]
      simp [Framer.consume]
    | some t =>
      obtain ⟨rel, termLen⟩ := t
      rw [hf] at hfront
      obtain ⟨hlt, hle⟩ := consumed_lt hf
      obtain ⟨emitFrom', out', hemit', hrun, hflush⟩ := drainSse_some lib elapsed cfg tr out hf rfl hemit
      set stop := min (max (scanned - 3) consumed) buf.length + rel + termLen with hstop
      have hnil : findFrameTerminator ((buf.drop stop).take (stop - stop)) = none := by
        rw [Nat.sub_self, List.take_zero]; rfl
      have hrec := ih (buf.length - stop) (by omega)
        (onSseFrame lib elapsed cfg tr (slice buf consumed stop)).1 out' hemit' le_rfl hle hnil rfl
      rw [hrun, Framer.drain_frame hfront]
      obtain ⟨h₁, h₂, h₃⟩ := hrec
      refine ⟨h₁, h₂, ?_⟩
      rw [h₃, hflush, List.append_assoc]
      rfl

/-- A same-protocol stream translates nothing. -/
theorem handleEventFrame_same (h : cfg.sameProto = true) (tr : Translator D W) (eventType : String)
    (payload : Bytes) : (handleEventFrame lib elapsed cfg tr eventType payload).2 = [] := by
  unfold handleEventFrame
  cases lib.fromSlice payload with
  | none => rfl
  | some data => simp only [h, if_true]

theorem consume_onEventFrame (tr : Translator D W) (fs : List Bytes) :
    Framer.consume (onEventFrame lib elapsed cfg) tr fs =
      ((handleEventFrames lib elapsed cfg tr (fs.map decodeFrame)).1,
        (if cfg.sameProto then fs.flatten else []) ++
          (handleEventFrames lib elapsed cfg tr (fs.map decodeFrame)).2) := by
  induction fs generalizing tr with
  | nil => cases h : cfg.sameProto <;> rfl
  | cons f fs ih =>
    simp only [Framer.consume, onEventFrame, List.map_cons, handleEventFrames, ih, List.flatten_cons,
      Prod.mk.injEq, true_and]
    cases h : cfg.sameProto with
    | false => simp only [Bool.false_eq_true, if_false, List.nil_append]
    | true => simp only [if_true, handleEventFrame_same h, List.append_nil, List.append_assoc, List.nil_append]

end Translator

/-- How the translator's input is framed. -/
def StreamConfig.framer (cfg : StreamConfig D W) : Framer UInt8 :=
  if cfg.egressEventstream then eventFramer else sseFramer

def StreamConfig.onFrame (elapsed : Option Nat) (cfg : StreamConfig D W) :
    Translator D W → Bytes → Translator D W × Bytes :=
  if cfg.egressEventstream then Translator.onEventFrame lib elapsed cfg else Translator.onSseFrame lib elapsed cfg

namespace StreamTranslate

/-- The translator as a reader of frames. -/
def abs (t : StreamTranslate D W) : Translator D W × Option Bytes :=
  (t.toTranslator, if t.aborted then none else some t.buf)

/-- No terminator ends in the part of the buffer that was scanned; binary framing does not scan. -/
structure Scanned (t : StreamTranslate D W) : Prop where
  bound : t.scanned ≤ t.buf.length
  clean : findFrameTerminator (t.buf.take t.scanned) = none
  binary : t.egressEventstream = true → t.scanned = 0

/-- What is left over still fits the buffer. -/
def fits (rest : Bytes) : Bool := rest.length ≤ maxBuf

variable (elapsedMs : Nat)

theorem feedEventstream_abs {t : StreamTranslate D W} (ha : t.aborted = false) (hscan : t.scanned = 0) :
    let r := t.feedEventstream lib elapsedMs
    let d := eventFramer.drain t.buf
    let c := Framer.consume (Translator.onEventFrame lib (t.elapsed elapsedMs) t.toStreamConfig) t.toTranslator d.1
    r.1.abs = (c.1, d.2.filter fits) ∧ r.2 = c.2 ∧ r.1.toStreamConfig = t.toStreamConfig ∧
      r.1.scanned = 0 ∧ r.1.started = t.started := by
  simp only [feedEventstream, drainFramesChecked_eq, Translator.consume_onEventFrame]
  cases (eventFramer.drain t.buf).2 with
  | none => exact ⟨rfl, rfl, rfl, rfl, rfl⟩
  | some rest =>
    by_cases hfit : rest.length > maxBuf
    · have hf : fits rest = false := by simp [fits, hfit]
      simp only [Option.isSome_some, if_true, reduceCtorEq, Option.getD_some, false_or, if_pos hfit,
        Option.filter_some, hf]
      exact ⟨rfl, rfl, rfl, rfl, rfl⟩
    · have hf : fits rest = true := by simp [fits]; omega
      simp only [Option.isSome_some, if_true, reduceCtorEq, Option.getD_some, false_or, if_neg hfit,
        Option.filter_some, hf]
      exact ⟨by simp only [abs, ha, Bool.false_eq_true, if_false], trivial, trivial, hscan, trivial⟩

theorem feedSse_abs {t : StreamTranslate D W} (ha : t.aborted = false) (hs : t.scanned ≤ t.buf.length)
    (hclean : findFrameTerminator (t.buf.take t.scanned) = none) :
    let r := t.feedSse lib elapsedMs
    let d := sseFramer.drain t.buf
    let c := Framer.consume (Translator.onSseFrame lib (t.elapsed elapsedMs) t.toStreamConfig) t.toTranslator d.1
    r.1.abs = (c.1, d.2.filter fits) ∧ r.2 = c.2 ∧ r.1.toStreamConfig = t.toStreamConfig ∧
      (r.1.scanned ≤ r.1.buf.length ∧ findFrameTerminator (r.1.buf.take r.1.scanned) = none) ∧
      r.1.started = t.started := by
  have heq := Translator.drainSse_eq lib (t.elapsed elapsedMs) t.toStreamConfig t.toTranslator [] le_rfl (Nat.zero_le _)
    hs hclean
  revert heq
  unfold feedSse
  rcases Translator.drainSse lib (t.elapsed elapsedMs) t.toStreamConfig t.buf t.toTranslator t.scanned 0 0 [] with
    ⟨tr, consumed, emitFrom, out⟩
  rintro ⟨htr, hrest, hout⟩
  intro r d c
  have hd : d.2 = some (t.buf.drop consumed) := hrest
  have hmore : findFrameTerminator (t.buf.drop consumed) = none := sseFramer_more.1 (Framer.front_rest hd)
  have hflush : (if t.sameProto then out ++ Translator.slice t.buf emitFrom consumed else out) = c.2 := by
    refine Eq.trans hout ?_
    cases h : t.toStreamConfig.sameProto <;>
      simp only [Translator.flushed, h, Bool.false_eq_true, if_false, if_true, List.nil_append,
        Translator.slice_self] <;> rfl
  simp only [r]
  rw [hd, Option.filter_some]
  by_cases hfit : (t.buf.drop consumed).length > maxBuf
  · have hf : fits (t.buf.drop consumed) = false := by simp only [fits, decide_eq_false_iff_not]; omega
    rw [if_pos hfit, hf]
    exact ⟨Prod.ext htr rfl, hflush, rfl, ⟨le_rfl, rfl⟩, rfl⟩
  · have hf : fits (t.buf.drop consumed) = true := by simp only [fits, decide_eq_true_eq]; omega
    rw [if_neg hfit, hf]
    refine ⟨Prod.ext htr ?_, hflush, rfl, ⟨le_rfl, ?_⟩, rfl⟩
    · simp only [abs, ha, Bool.false_eq_true, if_false, if_true]
    · show findFrameTerminator ((t.buf.drop consumed).take (t.buf.drop consumed).length) = none
      rw [List.take_length]; exact hmore

theorem abs_live {t : StreamTranslate D W} (ha : t.aborted = false) : t.abs = (t.toTranslator, some t.buf) := by
  rw [abs, ha]; rfl

theorem abs_aborted {t : StreamTranslate D W} (ha : t.aborted = true) : t.abs = (t.toTranslator, none) := by
  rw [abs, ha]; rfl

variable {lib elapsedMs} in
theorem feed_aborted {t : StreamTranslate D W} (ha : t.aborted = true) (chunk : Bytes) :
    t.feed lib elapsedMs chunk = (t, []) := by
  rw [feed, if_pos ha]

/-- The translator with a chunk appended to its buffer. -/
def withChunk (t : StreamTranslate D W) (chunk : Bytes) : StreamTranslate D W :=
  { t with started := true, buf := t.buf ++ chunk }

variable {lib elapsedMs} in
theorem feed_live {t : StreamTranslate D W} (ha : t.aborted = false) (chunk : Bytes) :
    t.feed lib elapsedMs chunk = if t.egressEventstream then (t.withChunk chunk).feedEventstream lib elapsedMs
      else (t.withChunk chunk).feedSse lib elapsedMs := by
  rw [feed, if_neg (by simp [ha])]
  rfl

/-- **Feeding a chunk is what the framer's reader does**, except that a rest too long for the buffer abandons
the stream. -/
theorem feed_abs {t : StreamTranslate D W} (hs : t.Scanned) (chunk : Bytes) :
    let r := t.feed lib elapsedMs chunk
    let a := t.framer.feed (t.onFrame lib (some elapsedMs)) t.abs chunk
    r.1.abs = (a.1.1, a.1.2.filter fits) ∧ r.2 = a.2 ∧ r.1.toStreamConfig = t.toStreamConfig ∧ r.1.Scanned ∧
      (t.aborted = false ∨ t.started = true → r.1.started = true) := by
  intro r a
  cases ha : t.aborted with
  | true =>
    have hr : r = (t, []) := feed_aborted ha chunk
    have h : a = ((t.toTranslator, none), []) := by simp only [a, abs_aborted ha]; rfl
    rw [hr, h, abs_aborted ha]
    exact ⟨rfl, rfl, rfl, hs, fun h => by simpa using h⟩
  | false =>
    have hr : r = _ := feed_live ha chunk
    have haT : (t.withChunk chunk).aborted = false := ha
    cases he : t.egressEventstream with
    | true =>
      rw [he, if_pos rfl] at hr
      obtain ⟨h₁, h₂, h₃, h₄, h₅⟩ := feedEventstream_abs lib elapsedMs haT (hs.binary he)
      simp only [a, abs_live ha, Framer.feed_some, StreamConfig.framer, StreamConfig.onFrame, he, if_true]
      rw [hr]
      refine ⟨h₁, h₂, h₃, ⟨?_, ?_, fun _ => h₄⟩, fun _ => h₅⟩
      · rw [h₄]; exact Nat.zero_le _
      · rw [h₄]; rfl
    | false =>
      rw [he, if_neg Bool.false_ne_true] at hr
      have hlen : (t.withChunk chunk).scanned ≤ (t.withChunk chunk).buf.length :=
        hs.bound.trans (by simp [withChunk])
      have hclean : findFrameTerminator ((t.withChunk chunk).buf.take (t.withChunk chunk).scanned) = none := by
        simp only [withChunk, List.take_append_of_le_length hs.bound]; exact hs.clean
      obtain ⟨h₁, h₂, h₃, ⟨h₄, h₅⟩, h₆⟩ := feedSse_abs lib elapsedMs haT hlen hclean
      simp only [a, abs_live ha, Framer.feed_some, StreamConfig.framer, StreamConfig.onFrame, he,
        Bool.false_eq_true, if_false]
      rw [hr]
      refine ⟨h₁, h₂, h₃, ⟨h₄, h₅, fun h => ?_⟩, fun _ => h₆⟩
      rw [h₃] at h
      exact absurd (h.symm.trans he) (by decide)

variable {lib elapsedMs} in
theorem feedAll_aborted {t : StreamTranslate D W} (ha : t.aborted = true) (cs : List Bytes) :
    t.feedAll lib elapsedMs cs = (t, []) := by
  induction cs with
  | nil => rfl
  | cons c cs ih => simp only [feedAll, feed_aborted ha, ih, List.append_nil]

/-- Chunk after chunk, as long as no rest outgrows the buffer. -/
theorem feedAll_abs {t : StreamTranslate D W} (hs : t.Scanned) (cs : List Bytes)
    (hfit : (∀ b, t.abs.2 = some b → b.length + cs.flatten.length ≤ maxBuf) ∨
      (t.feedAll lib elapsedMs cs).1.aborted = false) :
    let r := t.feedAll lib elapsedMs cs
    (r.1.abs, r.2) = t.framer.feedAll (t.onFrame lib (some elapsedMs)) t.abs cs ∧
      r.1.toStreamConfig = t.toStreamConfig ∧
      (t.aborted = false ∧ cs ≠ [] ∨ t.started = true → r.1.started = true) := by
  induction cs generalizing t with
  | nil => exact ⟨rfl, rfl, fun h => by simpa [feedAll] using h⟩
  | cons c cs ih =>
    obtain ⟨habs, hout, hcfg, hs', hstart⟩ := feed_abs lib elapsedMs hs c
    set r := t.feed lib elapsedMs c with hr
    set a := t.framer.feed (t.onFrame lib (some elapsedMs)) t.abs c with ha
    have hroom : (∀ b, t.abs.2 = some b → b.length + (c :: cs).flatten.length ≤ maxBuf) →
        ∀ rest, a.1.2 = some rest → rest.length + cs.flatten.length ≤ maxBuf := fun hlen rest hrest => by
      obtain ⟨b, hb, hle⟩ := Framer.feed_rest_length hrest
      have := hlen b hb
      rw [List.flatten_cons, List.length_append] at this
      omega
    -- the rest is short enough, or the stream would have been abandoned
    have hkeep : a.1.2.filter fits = a.1.2 := by
      cases hrest : a.1.2 with
      | none => rfl
      | some rest =>
        suffices hf : fits rest = true by rw [Option.filter_some, if_pos hf]
        rcases hfit with hlen | hlive
        · have := hroom hlen rest hrest
          simp only [fits, decide_eq_true_eq]; omega
        · by_contra hf
          have hab : r.1.aborted = true := by
            by_contra hne
            have := congrArg Prod.snd habs
            rw [abs_live (by simpa using hne), hrest, Option.filter_some, if_neg hf] at this
            cases this
          simp only [feedAll, ← hr, feedAll_aborted hab] at hlive
          rw [hab] at hlive; cases hlive
    rw [hkeep] at habs
    have hfit' : (∀ b, r.1.abs.2 = some b → b.length + cs.flatten.length ≤ maxBuf) ∨
        (r.1.feedAll lib elapsedMs cs).1.aborted = false := by
      rcases hfit with hlen | hlive
      · left
        intro rest hrest
        rw [habs] at hrest
        exact hroom hlen rest hrest
      · exact Or.inr hlive
    obtain ⟨ih₁, ih₂, ih₃⟩ := ih hs' hfit'
    have hst : r.1.abs = a.1 := habs
    rw [hcfg, hst] at ih₁
    refine ⟨?_, ih₂.trans hcfg, fun h => ih₃ (Or.inr (hstart ?_))⟩
    · simp only [feedAll, ← hr, Framer.feedAll, ← ha]
      rw [← ih₁, hout]
    · rcases h with h | h
      · exact Or.inl h.1
      · exact Or.inr h

variable {lib elapsedMs} in
/-- The end of the input sees the translation state, whether the stream was abandoned, and the clock. -/
theorem finish_congr {t t' : StreamTranslate D W} (hcfg : t.toStreamConfig = t'.toStreamConfig)
    (htr : t.toTranslator = t'.toTranslator) (ha : t.aborted = t'.aborted)
    (he : t.elapsed elapsedMs = t'.elapsed elapsedMs) :
    (t.finish lib elapsedMs).2 = (t'.finish lib elapsedMs).2 ∧
      (t.finish lib elapsedMs).1.toTranslator = (t'.finish lib elapsedMs).1.toTranslator ∧
      (t.finish lib elapsedMs).1.aborted = (t'.finish lib elapsedMs).1.aborted := by
  obtain ⟨cfg, tr, buf, scanned, aborted, started⟩ := t
  obtain ⟨cfg', tr', buf', scanned', aborted', started'⟩ := t'
  dsimp only at hcfg htr ha
  subst hcfg; subst htr; subst ha
  cases aborted with
  | true =>
    simp only [finish, if_true, finishAborted]
    cases tr.framing.abortExceptionType with
    | some excType => exact ⟨rfl, rfl, rfl⟩
    | none => simp only [he, and_self]
  | false =>
    cases hsame : cfg.sameProto with
    | true => simp only [finish, hsame, Bool.false_eq_true, if_false, if_true, and_self]
    | false => simp only [finish, hsame, Bool.false_eq_true, if_false, he, and_self]

/-- A translator that has emitted nothing owes nothing at the end but the `[DONE]` literal. -/
theorem finish_idle {t : StreamTranslate D W} (ha : t.aborted = false) (hopen : t.openBlocks = [])
    (howed : t.framing.onFinish = (none, t.framing)) (hpend : t.pendingTerminal = none) :
    (t.finish lib elapsedMs).2 = (if !t.sameProto && t.emitDone then sseDoneFrame else []) ∧
      (t.finish lib elapsedMs).1.toTranslator = t.toTranslator ∧
      (t.finish lib elapsedMs).1.aborted = false := by
  obtain ⟨cfg, ⟨decode, writer, framing, startUsage, stopped, lastUsage, terminalError, pendingTerminal, pendingStop,
    openBlocks⟩, buf, scanned, aborted, started⟩ := t
  dsimp only at ha hopen howed hpend
  subst ha; subst hopen; subst hpend
  cases hsame : cfg.sameProto with
  | true => simp [finish, hsame]
  | false =>
    simp [finish, hsame, Translator.closeOpenBlocks, Translator.emitAll, howed, pendingEvents]

variable {lib elapsedMs} in
theorem run_eq (t : StreamTranslate D W) (chunks : List Bytes) : t.run lib elapsedMs chunks =
    (((t.feedAll lib elapsedMs chunks).1.finish lib elapsedMs).1,
      (t.feedAll lib elapsedMs chunks).2 ++ ((t.feedAll lib elapsedMs chunks).1.finish lib elapsedMs).2) := rfl

/-- A translator as it is built. -/
structure Fresh (t : StreamTranslate D W) : Prop where
  buf : t.buf = []
  scanned : t.scanned = 0
  live : t.aborted = false
  openBlocks : t.openBlocks = []
  pending : t.pendingTerminal = none
  owed : t.framing.onFinish = (none, t.framing)

theorem build_fresh {protocolFor : String → Option (Protocol D W)} {initDecode : D} {initWriter : W}
    {ingress egress : String} {sameProto : Bool} {t₀ : StreamTranslate D W}
    (hb : build protocolFor initDecode initWriter ingress egress sameProto = some t₀) (opted : Bool) :
    (t₀.setClientIncludeUsage opted).Fresh := by
  simp only [build, Option.bind_eq_bind, Option.bind_eq_some_iff, Option.some.injEq] at hb
  obtain ⟨ingressProto, -, egressProto, -, rfl⟩ := hb
  exact ⟨rfl, rfl, rfl, rfl, rfl, StreamFraming.onFinish_fresh _ opted⟩

theorem Fresh.isScanned {t : StreamTranslate D W} (h : t.Fresh) : t.Scanned :=
  ⟨by rw [h.scanned]; exact Nat.zero_le _, by rw [h.scanned]; rfl, fun _ => h.scanned⟩

theorem Fresh.settled {t : StreamTranslate D W} (h : t.Fresh) (F : Framer UInt8) : Framer.Settled F t.abs := by
  intro b hb
  rw [abs_live h.live, h.buf] at hb
  cases hb
  exact F.front_nil

/-- A fresh translator reads a stream that fits the buffer as the framer's reader does. -/
theorem Fresh.feedAll_abs {t : StreamTranslate D W} (h : t.Fresh) (chunks : List Bytes)
    (hlen : chunks.flatten.length ≤ maxBuf) :
    let r := t.feedAll lib elapsedMs chunks
    (r.1.abs, r.2) = t.framer.feed (t.onFrame lib (some elapsedMs)) t.abs chunks.flatten ∧
      r.1.toStreamConfig = t.toStreamConfig ∧ (chunks ≠ [] → r.1.started = true) := by
  have hfit : ∀ b, t.abs.2 = some b → b.length + chunks.flatten.length ≤ maxBuf := fun b hb => by
    rw [abs_live h.live, h.buf] at hb
    cases hb
    simpa using hlen
  obtain ⟨h₁, h₂, h₃⟩ := StreamTranslate.feedAll_abs lib elapsedMs h.isScanned chunks (Or.inl hfit)
  rw [Framer.feedAll_eq_feed (h.settled _)] at h₁
  exact ⟨h₁, h₂, fun hne => h₃ (Or.inl ⟨h.live, hne⟩)⟩

theorem aborted_eq_of_abs {t t' : StreamTranslate D W} (h : t.abs = t'.abs) :
    t.toTranslator = t'.toTranslator ∧ t.aborted = t'.aborted := by
  refine ⟨congrArg Prod.fst h, ?_⟩
  have h₂ := congrArg Prod.snd h
  cases ha : t.aborted <;> cases ha' : t'.aborted <;> simp_all [abs]

/-- **A stream in chunks does what it does in one piece**: the same bytes go out, with the same usage, the
same error and the same verdict at the end. -/
theorem chunking_independent {protocolFor : String → Option (Protocol D W)} {initDecode : D} {initWriter : W}
    {ingress egress : String} {sameProto : Bool} {t₀ : StreamTranslate D W}
    (hb : build protocolFor initDecode initWriter ingress egress sameProto = some t₀) (opted : Bool)
    (chunks : List Bytes) (hlen : chunks.flatten.length ≤ maxBuf) :
    let t := t₀.setClientIncludeUsage opted
    let cut := t.run lib elapsedMs chunks
    let whole := t.run lib elapsedMs [chunks.flatten]
    cut.2 = whole.2 ∧ cut.1.usage = whole.1.usage ∧ cut.1.terminalError = whole.1.terminalError ∧
      cut.1.aborted = whole.1.aborted := by
  intro t cut whole
  have hf : t.Fresh := build_fresh hb opted
  obtain ⟨hc₁, hc₂, hc₃⟩ := hf.feedAll_abs lib elapsedMs chunks hlen
  obtain ⟨hw₁, hw₂, hw₃⟩ := hf.feedAll_abs lib elapsedMs [chunks.flatten] (by simpa using hlen)
  rw [List.flatten_singleton, ← hc₁] at hw₁
  obtain ⟨htr, ha⟩ := aborted_eq_of_abs (congrArg Prod.fst hw₁)
  have hout := congrArg Prod.snd hw₁
  set A := t.feedAll lib elapsedMs chunks with hA
  set B := t.feedAll lib elapsedMs [chunks.flatten] with hB
  suffices hfin : (A.1.finish lib elapsedMs).2 = (B.1.finish lib elapsedMs).2 ∧
      (A.1.finish lib elapsedMs).1.toTranslator = (B.1.finish lib elapsedMs).1.toTranslator ∧
      (A.1.finish lib elapsedMs).1.aborted = (B.1.finish lib elapsedMs).1.aborted by
    obtain ⟨f₁, f₂, f₃⟩ := hfin
    simp only [cut, whole, run_eq, ← hA, ← hB]
    refine ⟨?_, congrArg Translator.lastUsage f₂, congrArg Translator.terminalError f₂, f₃⟩
    rw [f₁, show B.2 = A.2 from hout]
  by_cases hne : chunks = []
  · -- without a chunk the clock never started, but nothing is owed either
    have hAt : A.1 = t := by rw [hA, hne]; rfl
    have hidleB : B.1.toTranslator = t.toTranslator := by rw [htr, hAt]
    have hliveB : B.1.aborted = false := by rw [ha, hAt]; exact hf.live
    obtain ⟨a₁, a₂, a₃⟩ := finish_idle lib elapsedMs hf.live hf.openBlocks hf.owed hf.pending
    obtain ⟨b₁, b₂, b₃⟩ := finish_idle lib elapsedMs (t := B.1) hliveB
      (by rw [hidleB]; exact hf.openBlocks) (by rw [hidleB]; exact hf.owed) (by rw [hidleB]; exact hf.pending)
    rw [hAt, a₁, a₂, a₃, b₁, b₂, b₃, hidleB, hw₂]
    exact ⟨rfl, rfl, rfl⟩
  · refine finish_congr (hc₂.trans hw₂.symm) htr.symm ha.symm ?_
    rw [elapsed, elapsed, hc₃ hne, hw₃ (by simp)]

section Witness

/-- A protocol that reads and writes nothing. -/
def muteProtocol : Protocol Unit Unit where
  name := protoAnthropic
  reader := ⟨fun _ _ s => ([], s)⟩
  writer := ⟨fun s _ => (none, s), fun _ => none, false, false, some 1, .passthrough⟩

def muteLib : WireLib where
  fromStr _ := none
  fromSlice _ := none
  toVec _ := []
  crc32 _ := 0

def muteTranslator (sameProto : Bool) : StreamTranslate Unit Unit where
  ingress := muteProtocol
  egress := muteProtocol
  emitDone := false
  egressEventstream := false
  ingressEventstream := false
  sameProto := sameProto
  decode := ()
  writer := ()
  framing := .passthrough
  startUsage := none
  messageStopped := false
  lastUsage := none
  terminalError := none
  pendingTerminal := none
  pendingStop := false
  openBlocks := []
  buf := []
  scanned := 0
  aborted := false
  started := false

theorem build_mute (sameProto : Bool) : build (fun _ => some muteProtocol) () () protoAnthropic protoAnthropic sameProto
    = some (muteTranslator sameProto) := rfl

theorem chunking_independent_split :
    ((muteTranslator true).run muteLib 3 [[0x64, 0x0D, 0x0A, 0x0D], [0x0A, 0x64]]).2 =
      ((muteTranslator true).run muteLib 3 [[0x64, 0x0D, 0x0A, 0x0D, 0x0A, 0x64]]).2 :=
  (chunking_independent muteLib 3 (build_mute true) false
    [[0x64, 0x0D, 0x0A, 0x0D], [0x0A, 0x64]] (by decide)).1

end Witness

end StreamTranslate

end Busbar
