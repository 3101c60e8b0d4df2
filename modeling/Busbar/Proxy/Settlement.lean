import Busbar.Proxy.ResponseBody

/-!
# A streamed response settles once

However a body ends, it goes through one of its terminal branches once, and what it leaves behind then is
settled: the sink is taken, or the failure is on record. A drop before that is the one way to both bill and
refund.

* `AtMost`: bounds on what a list of settlements holds.
* `FirstByteBody.polls_outcome`: what a body has settled after any number of polls.
* `FirstByteBody.settles_once`: the outcome of every life of a body.
* `FirstByteBody.ledgered_once`: what the outcome means for the budget ledger.
-/

namespace Busbar

namespace Settlement

def isTransient : Settlement → Bool
  | transient .. => true
  | _ => false

def isRefund : Settlement → Bool
  | refund _ => true
  | _ => false

def isBilled : Settlement → Bool
  | billed .. => true
  | _ => false

end Settlement

open Settlement

/-- Bounds on the failures recorded, the refunds and the bills among the settlements. -/
structure AtMost (settled : List Settlement) (transients refunds bills : Nat) : Prop where
  transient : settled.countP isTransient ≤ transients
  refund : settled.countP isRefund ≤ refunds
  billed : settled.countP isBilled ≤ bills

theorem AtMost.nil : AtMost [] 0 0 0 := ⟨le_rfl, le_rfl, le_rfl⟩

theorem AtMost.append {L L' : List Settlement} {a b c a' b' c' : Nat} (h : AtMost L a b c) (h' : AtMost L' a' b' c') :
    AtMost (L ++ L') (a + a') (b + b') (c + c') := by
  obtain ⟨h₁, h₂, h₃⟩ := h
  obtain ⟨h₁', h₂', h₃'⟩ := h'
  refine ⟨?_, ?_, ?_⟩ <;> rw [List.countP_append] <;> omega

theorem AtMost.mono {L : List Settlement} {a b c a' b' c' : Nat} (h : AtMost L a b c) (ha : a ≤ a') (hb : b ≤ b')
    (hc : c ≤ c') : AtMost L a' b' c' :=
  ⟨h.transient.trans ha, h.refund.trans hb, h.billed.trans hc⟩

namespace FirstByteBody

variable {D W J : Type} {px : Proxy D W J}

/-! ## What each part settles -/

theorem recordTransient_atMost (b : FirstByteBody D W J) (what : String) : AtMost (b.recordTransient what) 1 0 0 := by
  unfold recordTransient
  cases b.app with
  | none => exact AtMost.nil.mono (by omega) le_rfl le_rfl
  | some app =>
    dsimp only
    split
    · exact ⟨le_rfl, le_rfl, le_rfl⟩
    · exact ⟨le_rfl, le_rfl, le_rfl⟩

/-- The unit of a lane's budget that was taken. -/
def unit (spent : Bool) : Nat := if spent then 1 else 0

theorem refundBudget_atMost {b : FirstByteBody D W J} {spent : Bool} (h : b.budgetSpent = spent) :
    AtMost b.refundBudget.2 0 (unit spent) 0 := by
  subst h
  unfold refundBudget unit
  split
  · cases b.app with
    | none => exact AtMost.nil.mono le_rfl (by omega) le_rfl
    | some app => exact ⟨le_rfl, le_rfl, le_rfl⟩
  · exact AtMost.nil

theorem ledgerAndMeter_atMost (b : FirstByteBody D W J) (sink : UsageSink) (usage : Option IrUsage) (tier : TierTokens) :
    AtMost (b.ledgerAndMeter sink usage tier) 0 0 1 := by
  unfold ledgerAndMeter
  split
  · exact ⟨le_rfl, le_rfl, le_rfl⟩
  · exact AtMost.nil.mono le_rfl le_rfl (by omega)

/-! ## Before the end -/

/-- The body as it goes on: nothing is settled and everything is still owed. -/
structure Going (spent : Bool) (b : FirstByteBody D W J) : Prop where
  live : b.ended = false
  spent : b.budgetSpent = spent
  sound : b.streamFailed = false

/-- The body at its end: the sink is taken, or the failure is on record. -/
structure Gone (b : FirstByteBody D W J) : Prop where
  ended : b.ended = true
  quiet : b.usageSink = none ∨ b.streamFailed = true

theorem tapNonstream_spec {spent : Bool} {b : FirstByteBody D W J} (h : Going spent b) (chunk : Bytes) (cap : Nat) :
    Going spent (b.tapNonstream chunk cap).1 ∧ AtMost (b.tapNonstream chunk cap).2 0 0 0 := by
  unfold tapNonstream
  split
  · dsimp only
    split
    · exact ⟨⟨h.live, h.spent, h.sound⟩, AtMost.nil⟩
    · exact ⟨⟨h.live, h.spent, h.sound⟩, ⟨le_rfl, le_rfl, le_rfl⟩⟩
  · exact ⟨h, AtMost.nil⟩

theorem reframe_going {spent : Bool} {b : FirstByteBody D W J} (h : Going spent b) (bytes : Bytes)
    (plain : Option Bytes) : Going spent (b.reframe px bytes plain).1 := by
  unfold reframe
  split
  · exact ⟨h.live, h.spent, h.sound⟩
  · exact h

variable (px) in
/-- A chunk settles nothing. -/
theorem onData_spec {spent : Bool} {b : FirstByteBody D W J} (h : Going spent b) (chunk : Bytes)
    (cap elapsedMs : Nat) :
    Going spent (b.onData px chunk cap elapsedMs).1 ∧ AtMost (b.onData px chunk cap elapsedMs).2.1 0 0 0 := by
  have h' : Going spent { b with firstByteSent := true } := ⟨h.live, h.spent, h.sound⟩
  unfold onData
  dsimp only
  split
  · refine ⟨?_, AtMost.nil⟩
    apply reframe_going
    exact ⟨h.live, h.spent, h.sound⟩
  · obtain ⟨htap, hsettled⟩ := tapNonstream_spec h' chunk cap
    exact ⟨reframe_going htap _ _, hsettled⟩

/-! ## The end -/

variable (px) in
theorem onError_spec {spent : Bool} {b : FirstByteBody D W J} (h : Going spent b) :
    Gone (b.onError px).1 ∧ AtMost (b.onError px).2.1 1 (unit spent) 0 := by
  unfold onError
  dsimp only
  split
  · have hrec := recordTransient_atMost { b with streamFailed := true } "mid-stream"
    split
    · exact ⟨⟨rfl, Or.inr rfl⟩, hrec.mono le_rfl (by omega) le_rfl⟩
    · exact ⟨⟨rfl, Or.inr rfl⟩, hrec.mono le_rfl (by omega) le_rfl⟩
  · have hrefund := refundBudget_atMost (b := { b with streamFailed := true }) h.spent
    refine ⟨⟨rfl, Or.inr ?_⟩, ?_⟩
    · unfold refundBudget
      split <;> rfl
    · have happ := (recordTransient_atMost { b with streamFailed := true }
        (if b.firstByteSent then "mid-body-transport" else "pre-first-byte-transport")).append hrefund
      rw [Nat.zero_add] at happ
      exact happ

/-- What ends with the backend's error event still has it when the terminator is out. -/
theorem terminator_terminalError (b : FirstByteBody D W J) (elapsedMs : Nat) :
    (b.terminator px elapsedMs).1.terminalError = b.terminalError := by
  have htr : ∀ t : StreamTranslate D W, (t.finish px.lib elapsedMs).1.terminalError = t.terminalError :=
    fun t => congrArg Account.terminalError (StreamTranslate.finish_account t)
  unfold terminator terminalError
  dsimp only
  cases b.translate with
  | none => split <;> rfl
  | some t => split <;> exact htr t

theorem takeUsage_frame (b : FirstByteBody D W J) :
    b.takeUsage.1.ended = b.ended ∧ b.takeUsage.1.terminalError = b.terminalError := by
  unfold takeUsage
  split
  · exact ⟨rfl, rfl⟩
  cases ht : b.translate with
  | some t => exact ⟨rfl, rfl⟩
  | none =>
    dsimp only
    split
    · exact ⟨rfl, by simp only [terminalError, ht]⟩
    · exact ⟨rfl, rfl⟩

/-- A stream that failed is not billed at its end. -/
theorem billEnd_spec {b : FirstByteBody D W J} (hend : b.ended = true) (aborted : Bool) :
    Gone (b.billEnd aborted).1 ∧
      AtMost (b.billEnd aborted).2 0 0 (if b.terminalError.isSome || aborted then 0 else 1) := by
  obtain ⟨hended, herr⟩ := takeUsage_frame b
  unfold billEnd
  dsimp only
  split
  · refine ⟨⟨hended.trans hend, Or.inl rfl⟩, ?_⟩
    rw [herr]
    split
    · exact AtMost.nil
    · exact ledgerAndMeter_atMost _ _ _ _
  · rename_i hnone
    exact ⟨⟨hended.trans hend, Or.inl hnone⟩, AtMost.nil.mono le_rfl le_rfl (by omega)⟩

theorem recordFailedEnd_atMost (b : FirstByteBody D W J) :
    AtMost b.recordFailedEnd (if b.terminalError.isSome || b.translateAborted then 1 else 0) 0 0 := by
  unfold recordFailedEnd
  split
  · rename_i hfail
    simp only [Bool.and_eq_true] at hfail
    rw [if_pos hfail.2]
    exact recordTransient_atMost _ _
  · exact AtMost.nil.mono (by omega) le_rfl le_rfl

variable (px) in
/-- The end of the body behind this one: held against the lane, or billed, not both. -/
theorem onEnd_spec (b : FirstByteBody D W J) (elapsedMs : Nat) :
    Gone (b.onEnd px elapsedMs).1 ∧
      (AtMost (b.onEnd px elapsedMs).2.1 1 0 0 ∨ AtMost (b.onEnd px elapsedMs).2.1 0 0 1) := by
  have hfail := recordFailedEnd_atMost b
  obtain ⟨hgone, hbill⟩ := billEnd_spec (b := { (b.terminator px elapsedMs).1 with permit := false, ended := true }) rfl
    b.translateAborted
  have herr : terminalError { (b.terminator px elapsedMs).1 with permit := false, ended := true } =
      b.terminalError := terminator_terminalError b elapsedMs
  rw [herr] at hbill
  have happ := hfail.append hbill
  refine ⟨hgone, ?_⟩
  show AtMost (b.recordFailedEnd ++ _) 1 0 0 ∨ AtMost (b.recordFailedEnd ++ _) 0 0 1
  by_cases hf : (b.terminalError.isSome || b.translateAborted) = true
  · rw [if_pos hf, if_pos hf] at happ
    exact Or.inl happ
  · rw [if_neg hf, if_neg hf] at happ
    exact Or.inr happ

/-! ## A life -/

/-- What a body that started with or without a budget unit can have settled by now. -/
inductive Outcome (spent : Bool) (b : FirstByteBody D W J) (settled : List Settlement) : Prop where
  | going (h : Going spent b) (hs : AtMost settled 0 0 0)
  | failed (h : Gone b) (hs : AtMost settled 1 (unit spent) 0)
  | billed (h : Gone b) (hs : AtMost settled 0 0 1)

theorem Outcome.prepend {spent : Bool} {b : FirstByteBody D W J} {L L' : List Settlement} (hL : AtMost L 0 0 0)
    (h : Outcome spent b L') : Outcome spent b (L ++ L') := by
  have hzero : ∀ n, 0 + n = n := Nat.zero_add
  cases h with
  | going h hs => exact .going h (hL.append hs)
  | failed h hs => exact .failed h (by simpa only [hzero] using hL.append hs)
  | billed h hs => exact .billed h (by simpa only [hzero] using hL.append hs)

/-- One poll, over all the answers it takes in. -/
theorem pollInner_outcome {spent : Bool} (inner : List Answer) {b : FirstByteBody D W J} (h : Going spent b) :
    Outcome spent (b.pollInner px inner).1 (b.pollInner px inner).2.1 := by
  induction inner generalizing b with
  | nil => exact .going ⟨h.live, h.spent, h.sound⟩ AtMost.nil
  | cons answer inner ih =>
    have h' : Going spent { b with inner := inner } := ⟨h.live, h.spent, h.sound⟩
    cases answer with
    | pending => exact .going h' AtMost.nil
    | failed =>
      obtain ⟨hgone, hs⟩ := onError_spec px h'
      exact .failed hgone hs
    | finished elapsedMs =>
      obtain ⟨hgone, hs | hs⟩ := onEnd_spec px { b with inner := inner } elapsedMs
      · exact .failed hgone (hs.mono le_rfl (by omega) le_rfl)
      · exact .billed hgone hs
    | data chunk cap elapsedMs =>
      obtain ⟨hgo, hs⟩ := onData_spec px h chunk cap elapsedMs
      unfold pollInner
      split
      · rename_i b' settled bytes heq
        rw [heq] at hgo hs
        exact .going ⟨hgo.live, hgo.spent, hgo.sound⟩ hs
      · rename_i b' settled heq
        rw [heq] at hgo hs
        exact (ih hgo).prepend hs

theorem pollNext_gone {b : FirstByteBody D W J} (h : Gone b) : b.pollNext px = (b, [], .finished) := by
  rw [pollNext, if_pos h.ended]

variable (px) in
theorem polls_outcome {spent : Bool} {b : FirstByteBody D W J} (h : Going spent b) (n : Nat) :
    Outcome spent (b.polls px n).1 (b.polls px n).2 := by
  induction n with
  | zero => exact .going h AtMost.nil
  | succ n ih =>
    simp only [polls]
    cases ih with
    | going hgo hs =>
      rw [pollNext, if_neg (by rw [hgo.live]; exact Bool.false_ne_true)]
      exact (pollInner_outcome _ hgo).prepend hs
    | failed hgone hs =>
      rw [pollNext_gone hgone, List.append_nil]
      exact .failed hgone hs
    | billed hgone hs =>
      rw [pollNext_gone hgone, List.append_nil]
      exact .billed hgone hs

/-- A body at its end is dropped without a trace. -/
theorem drop_gone {b : FirstByteBody D W J} (h : Gone b) : b.drop.2 = [] := by
  unfold drop
  simp only [h.ended, Bool.not_true, Bool.false_eq_true, if_false]
  split
  · rfl
  · rename_i sink hsink
    rcases h.quiet with hnone | hfailed
    · rw [hnone] at hsink
      cases hsink
    · simp only [hfailed, Bool.true_or, if_true]

theorem drop_going {spent : Bool} {b : FirstByteBody D W J} (h : Going spent b) : AtMost b.drop.2 0 (unit spent) 1 := by
  have hrefund := refundBudget_atMost h.spent
  unfold drop
  simp only [h.live, Bool.not_false, if_true]
  split
  · exact hrefund.mono le_rfl le_rfl (by omega)
  split
  · exact hrefund.mono le_rfl le_rfl (by omega)
  split
  · rw [List.append_nil]
    exact hrefund.mono le_rfl le_rfl (by omega)
  · exact (hrefund.append (ledgerAndMeter_atMost _ _ _ _)).mono le_rfl (by omega) le_rfl

theorem new_going (px : Proxy D W J) (inner : List Answer) (isSse : Bool) (ingressProtocol : String) (op : Operation)
    (app : App) (laneIdx : Nat) (pool : String) (translate : Option (StreamTranslate D W)) (jsonArray : Option J)
    (usageSink : Option UsageSink) (budgetSpent : Bool) :
    Going budgetSpent (new px inner isSse ingressProtocol op app laneIdx pool translate jsonArray usageSink
      budgetSpent) := ⟨rfl, rfl, rfl⟩

/-- **A streamed response settles once.** At most one failure is held against the lane, its budget unit goes back
at most once and only if it was taken, the tokens are billed at most once, and never together with a recorded
failure. A bill and a refund meet only where the body is dropped before its end. -/
theorem settles_once (px : Proxy D W J) (inner : List Answer) (isSse : Bool) (ingressProtocol : String)
    (op : Operation) (app : App) (laneIdx : Nat) (pool : String) (translate : Option (StreamTranslate D W))
    (jsonArray : Option J) (usageSink : Option UsageSink) (budgetSpent : Bool) (n : Nat) (dropped : Bool) :
    let b := new px inner isSse ingressProtocol op app laneIdx pool translate jsonArray usageSink budgetSpent
    let settled := b.life px n dropped
    settled.countP isTransient ≤ 1 ∧ settled.countP isRefund ≤ unit budgetSpent ∧ settled.countP isBilled ≤ 1 ∧
      (settled.countP isBilled = 0 ∨ settled.countP isTransient = 0) ∧
      (settled.countP isBilled = 0 ∨ settled.countP isRefund = 0 ∨
        dropped = true ∧ (b.polls px n).1.ended = false) := by
  intro b settled
  have hgo : Going budgetSpent b := new_going px inner isSse ingressProtocol op app laneIdx pool translate jsonArray
    usageSink budgetSpent
  have hsettled : settled = (b.polls px n).2 ++ if dropped then (b.polls px n).1.drop.2 else [] := rfl
  rcases polls_outcome px hgo n with ⟨hgoing, hs⟩ | ⟨hgone, hs⟩ | ⟨hgone, hs⟩
  · cases hd : dropped with
    | false =>
      rw [hd, if_neg Bool.false_ne_true, List.append_nil] at hsettled
      rw [← hsettled] at hs
      obtain ⟨ht, hr, hb⟩ := hs
      refine ⟨?_, ?_, ?_, Or.inl ?_, Or.inl ?_⟩ <;> omega
    | true =>
      rw [hd, if_pos rfl] at hsettled
      have happ := hs.append (drop_going hgoing)
      rw [← hsettled] at happ
      obtain ⟨ht, hr, hb⟩ := happ
      refine ⟨?_, ?_, ?_, Or.inr ?_, Or.inr (Or.inr ⟨rfl, hgoing.live⟩)⟩ <;> omega
  all_goals
    have hquiet : (if dropped then (b.polls px n).1.drop.2 else []) = [] := by
      split
      · exact drop_gone hgone
      · rfl
    rw [hquiet, List.append_nil] at hsettled
    rw [← hsettled] at hs
    obtain ⟨ht, hr, hb⟩ := hs
  · refine ⟨?_, ?_, ?_, Or.inl ?_, Or.inl ?_⟩ <;> omega
  · refine ⟨?_, ?_, ?_, Or.inr ?_, Or.inr (Or.inl ?_)⟩ <;> omega

/-! ## The budget ledger -/

theorem ledger_unbilled {L : List Settlement} (h : L.countP isBilled = 0) (cells : Cells) :
    L.foldl Settlement.ledger cells = cells := by
  induction L with
  | nil => rfl
  | cons s L ih =>
    rw [List.countP_cons] at h
    have hs : isBilled s = false := by
      by_contra hne
      rw [Bool.not_eq_false] at hne
      rw [if_pos hne] at h
      omega
    rw [List.foldl_cons]
    cases s with
    | billed => cases hs
    | _ => exact ih (by omega)

theorem ledger_billed_once {L : List Settlement} (h : L.countP isBilled ≤ 1) (cells : Cells) :
    L.foldl Settlement.ledger cells = cells ∨ ∃ sink lane usage tier, .billed sink lane usage tier ∈ L ∧
      L.foldl Settlement.ledger cells =
        recordUsage sink.cost cells sink.key sink.pool lane.model tier sink.chargedAt := by
  induction L with
  | nil => exact Or.inl rfl
  | cons s L ih =>
    rw [List.countP_cons] at h
    cases s with
    | billed sink lane usage tier =>
      have hrest : L.countP isBilled = 0 := by
        simp only [isBilled, if_true] at h
        omega
      refine Or.inr ⟨sink, lane, usage, tier, List.mem_cons_self, ?_⟩
      rw [List.foldl_cons, ledger_unbilled hrest]
      rfl
    | _ =>
      rcases ih (by omega) with hsame | ⟨sink, lane, usage, tier, hmem, heq⟩
      · exact Or.inl hsame
      · exact Or.inr ⟨sink, lane, usage, tier, List.mem_cons_of_mem _ hmem, heq⟩

/-- **A body's tokens reach the budget ledger once or not at all**, at the time the request was charged. -/
theorem ledgered_once (inner : List Answer) (isSse : Bool) (ingressProtocol : String) (op : Operation) (app : App)
    (laneIdx : Nat) (pool : String) (translate : Option (StreamTranslate D W)) (jsonArray : Option J)
    (usageSink : Option UsageSink) (budgetSpent : Bool) (n : Nat) (dropped : Bool) (cells : Cells) :
    let b := new px inner isSse ingressProtocol op app laneIdx pool translate jsonArray usageSink budgetSpent
    let settled := b.life px n dropped
    settled.foldl Settlement.ledger cells = cells ∨ ∃ sink lane usage tier, .billed sink lane usage tier ∈ settled ∧
      settled.foldl Settlement.ledger cells =
        recordUsage sink.cost cells sink.key sink.pool lane.model tier sink.chargedAt :=
  ledger_billed_once (settles_once px inner isSse ingressProtocol op app laneIdx pool translate jsonArray usageSink
    budgetSpent n dropped).2.2.1 cells

/-! ## A cancelled stream -/

section Cancelled

def deltaText : String := "\x7b\"delta\":\x7b\x7d,\"usage\":\x7b\"output_tokens\":5\x7d\x7d"

/-- The usage frame of an Anthropic stream. -/
def deltaBytes : Bytes := utf8 ("event: message_delta\ndata: " ++ deltaText ++ "\n\n")

def deltaLib : WireLib where
  fromStr s := if s = deltaText then some StreamTranslate.deltaFrame.2 else none
  fromSlice _ := none
  toVec _ := []
  crc32 _ := 0

def deltaProxy : Proxy Unit Unit Unit where
  lib := deltaLib
  dialects := StreamTranslate.muteDialects
  framer := ⟨fun _ _ => ((), []), fun _ _ => ((), []), fun _ _ => ((), [])⟩
  freshWriter := ()

theorem deltaBytes_length : deltaBytes.length = 67 + 2 := by decide +kernel

theorem deltaBytes_framed : sseFramer.drain deltaBytes = ([deltaBytes], some []) := by
  have hterm : findFrameTerminator deltaBytes = some (67, 2) := by decide +kernel
  have hfront : sseFramer.front deltaBytes = .frame deltaBytes [] := by
    simp only [sseFramer, hterm, ← deltaBytes_length, List.take_length, List.drop_length]
  have hframes : ∀ f ∈ [deltaBytes], sseFramer.front f = .frame f [] := by simpa using hfront
  simpa using Framer.drain_of_frames hframes

/-- The frame handled: the translator behind it, and what goes out for it. -/
def deltaHandled : Translator Unit Unit × Bytes :=
  Translator.onSseFrame deltaLib (some 0) StreamTranslate.anthropicPassthrough.toStreamConfig
    StreamTranslate.anthropicPassthrough.toTranslator deltaBytes

theorem deltaBytes_parsed : parseSseFrame deltaBytes = some (Anthropic.evtMessageDelta, deltaText) := by
  rw [parseSseFrame, deltaBytes, fromUtf8_utf8]
  decide +kernel

theorem deltaText_parsed : deltaLib.parseStr deltaText = some StreamTranslate.deltaFrame.2 := by
  have hdepth : exceedsMaxDepth (utf8 deltaText) maxJsonDepth = false := by decide +kernel
  rw [JsonLib.parseStr, hdepth, if_neg Bool.false_ne_true]
  simp only [deltaLib, if_true]

theorem deltaHandled_spec : deltaHandled.1.lastUsage = some ⟨0, 5, none, none⟩ ∧
    deltaHandled.1.terminalError = none ∧ deltaHandled.2 = deltaBytes := by
  have hne : ¬ (deltaText = "" ∨ deltaText = sseDoneSentinel) := by decide +kernel
  have hdecoded : Anthropic.evtMessageDelta ∈ Translator.anthropicDecoded := by decide
  simp only [deltaHandled, Translator.onSseFrame, Translator.handleFrame, deltaBytes_parsed, deltaText_parsed,
    if_neg hne, hdecoded, not_true_eq_false, and_false, if_false]
  exact ⟨rfl, rfl, rfl⟩

theorem feed_deltaBytes : ∃ t' : StreamTranslate Unit Unit,
    StreamTranslate.anthropicPassthrough.feed deltaLib 0 deltaBytes = (t', deltaBytes) ∧
      t'.usage = some ⟨0, 5, none, none⟩ ∧ t'.terminalError = none ∧ t'.aborted = false := by
  have hfresh : StreamTranslate.anthropicPassthrough.Fresh :=
    StreamTranslate.build_fresh StreamTranslate.build_anthropicPassthrough true
  obtain ⟨habs, hout, -⟩ := StreamTranslate.feed_abs deltaLib 0 hfresh.isScanned deltaBytes
  obtain ⟨husage, herror, hsame⟩ := deltaHandled_spec
  have hread : sseFramer.feed (Translator.onSseFrame deltaLib (some 0)
      StreamTranslate.anthropicPassthrough.toStreamConfig)
      (StreamTranslate.anthropicPassthrough.toTranslator, some []) deltaBytes =
        ((deltaHandled.1, some []), deltaBytes) := by
    rw [Framer.feed_some, List.nil_append, deltaBytes_framed]
    simp only [Framer.consume, List.append_nil, ← deltaHandled.eq_1, hsame]
  have hframer : StreamTranslate.anthropicPassthrough.framer = sseFramer := rfl
  have hon : StreamTranslate.anthropicPassthrough.onFrame deltaLib (some 0) =
      Translator.onSseFrame deltaLib (some 0) StreamTranslate.anthropicPassthrough.toStreamConfig := rfl
  have hstart : StreamTranslate.anthropicPassthrough.abs =
      (StreamTranslate.anthropicPassthrough.toTranslator, some []) := rfl
  rw [hframer, hon, hstart, hread] at habs hout
  rcases hfed : StreamTranslate.anthropicPassthrough.feed deltaLib 0 deltaBytes with ⟨t', bytes⟩
  rw [hfed] at habs hout
  have htr : t'.toTranslator = deltaHandled.1 := congrArg Prod.fst habs
  have hrest : (if t'.aborted then none else some t'.buf) = some [] := congrArg Prod.snd habs
  refine ⟨t', congrArg (Prod.mk t') hout, ?_, ?_, ?_⟩
  · rw [StreamTranslate.usage, htr, husage]
  · rw [htr, herror]
  · cases hab : t'.aborted with
    | false => rfl
    | true =>
      rw [hab] at hrest
      cases hrest

def deltaSink : UsageSink :=
  ⟨⟨none, [], fun _ => none, [], 0⟩, ⟨"k", "", "", none, true, 0, none, [], none, none, 0⟩, "", 0⟩

/-- A stream of one frame, that took a unit of its lane's budget. -/
def deltaBody (t : StreamTranslate Unit Unit) : FirstByteBody Unit Unit Unit :=
  new deltaProxy [.data deltaBytes 0 0] true protoAnthropic ⟨false, fun _ _ => none⟩
    ⟨[⟨"m", "p"⟩], fun _ _ _ => false⟩ 0 "" (some t) none (some deltaSink) true

/-- The client goes away behind the first frame: the unit goes back, and five tokens are billed. -/
theorem deltaBody_life {t t' : StreamTranslate Unit Unit} (hfeed : t.feed deltaLib 0 deltaBytes = (t', deltaBytes))
    (husage : t'.usage = some ⟨0, 5, none, none⟩) (herror : t'.terminalError = none) (haborted : t'.aborted = false) :
    ((deltaBody t).life deltaProxy 1 true).countP isBilled = 1 ∧
      ((deltaBody t).life deltaProxy 1 true).countP isRefund = 1 := by
  have hdata : (deltaBody t).onData deltaProxy deltaBytes 0 0 =
      ({ deltaBody t with firstByteSent := true, translate := some t' }, [], some deltaBytes) := by
    have hready : out deltaBytes = some deltaBytes :=
      if_neg (List.ne_nil_of_length_pos (by rw [deltaBytes_length]; omega))
    have hlib : deltaProxy.lib = deltaLib := rfl
    simp only [onData, deltaBody, new, hlib, hfeed, reframe, hready]
  have hpoll : (deltaBody t).pollNext deltaProxy =
      ({ deltaBody t with firstByteSent := true, translate := some t', inner := [] }, [], .item deltaBytes) := by
    show (deltaBody t).pollInner deltaProxy [.data deltaBytes 0 0] = _
    rw [pollInner, hdata]
  have hdrop : (drop { deltaBody t with firstByteSent := true, translate := some t', inner := [] }).2 =
      [.refund 0, .billed deltaSink ⟨"m", "p"⟩ (some ⟨0, 5, none, none⟩) ⟨0, 5, 0, 0⟩] := by
    simp [drop, deltaBody, new, refundBudget, terminalError, translateAborted, ledgerAndMeter, tierOf, tierTokens,
      TierTokens.isZero, herror, haborted, husage]
  simp only [life, polls, hpoll, List.append_nil, List.nil_append, if_true, hdrop]
  exact ⟨rfl, rfl⟩

/-- **A stream that is cancelled is refunded and billed.** -/
theorem cancelled_is_refunded_and_billed : ¬ ∀ (px : Proxy Unit Unit Unit) (inner : List Answer) (isSse : Bool)
    (ingressProtocol : String) (op : Operation) (app : App) (laneIdx : Nat) (pool : String)
    (translate : Option (StreamTranslate Unit Unit)) (jsonArray : Option Unit) (usageSink : Option UsageSink)
    (budgetSpent : Bool) (n : Nat) (dropped : Bool),
    let b := new px inner isSse ingressProtocol op app laneIdx pool translate jsonArray usageSink budgetSpent
    let settled := b.life px n dropped
    settled.countP isTransient ≤ 1 ∧ settled.countP isRefund ≤ unit budgetSpent ∧ settled.countP isBilled ≤ 1 ∧
      (settled.countP isBilled = 0 ∨ settled.countP isTransient = 0) ∧
      (settled.countP isBilled = 0 ∨ settled.countP isRefund = 0) := by
  intro h
  obtain ⟨-, -, -, -, hnever⟩ := h deltaProxy [.data deltaBytes 0 0] true protoAnthropic ⟨false, fun _ _ => none⟩
    ⟨[⟨"m", "p"⟩], fun _ _ _ => false⟩ 0 "" (some StreamTranslate.anthropicPassthrough) none (some deltaSink) true
    1 true
  obtain ⟨t', hfeed, husage, herror, haborted⟩ := feed_deltaBytes
  obtain ⟨hbilled, hrefund⟩ := deltaBody_life hfeed husage herror haborted
  rcases hnever with hnone | hnone
  · exact absurd (hbilled.symm.trans hnone) (by decide)
  · exact absurd (hrefund.symm.trans hnone) (by decide)

end Cancelled

end FirstByteBody

end Busbar
