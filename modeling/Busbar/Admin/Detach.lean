import Busbar.Admin.Chain

/-!
# When the audit log detaches

Before it appends, the write-through reads the tail of the durable log and takes a tail ahead of its own
watermark for another writer's. With one writer the store is ahead exactly while an append was applied whose
call returned an error: the next tail read then detaches the log, though the record is its own.

* `observed_ahead`: what the single-writer check sees.
* `write_through_persists`: past the check, calls that succeed persist every entry the ring can still supply.
* `detaches_iff`: a run keeps its sink if and only if no tail is read between such an append and the
  acknowledgement of its retry.
-/

namespace Busbar.Audit

open Run

variable {sha256Hex : String → String} {s : System} {unacked : Bool}

/-- The event is the tail read of the single-writer check, and it succeeds. -/
def ReadsTail (s : System) (e : Event) : Prop := e = .advance .ok ∧ ∃ n, s.writing = some (.check n)

/-- **What the check sees**: a tail ahead of the watermark exactly while an append is not acknowledged. -/
theorem observed_ahead (h : s.Inv sha256Hex unacked) {n : Nat} (hw : s.writing = some (.check n)) :
    (s.advance sha256Hex .ok (.check n)).log.sink = (s.log.sink && !unacked) := by
  have hk : (Writing.check n).Knows sha256Hex s := h.knows _ (by rw [hw]; rfl)
  have hlen := (h.joined hk).2
  obtain ⟨-, -, hseq⟩ := readTail_last h.whole Nat.zero_lt_one
    (rfl : readTail s.store 1 .ok = some (listAuditTail s.store 1))
  simp only [System.advance, readTail, hseq, hlen]
  cases unacked with
  | false => simp
  | true => simp

theorem sink_boot (store : DurableLog) (read : Call) : (System.boot sha256Hex store read).log.sink = true := by
  unfold System.boot AuditLog.restoreFromStore
  dsimp only
  repeat' split
  all_goals rfl

theorem sink_rebase (log : AuditLog) (durableMax : Nat) (anchorHash : String) :
    (log.rebaseNondurableSuffix sha256Hex durableMax anchorHash).2.sink = log.sink := by
  unfold AuditLog.rebaseNondurableSuffix
  dsimp only
  split <;> rfl

/-- A section other than the check, or a check that cannot read, keeps the sink. -/
theorem sink_advance {call : Call} {w : Writing} (hread : call = .ok → ∀ n, w ≠ .check n) :
    (s.advance sha256Hex call w).log.sink = s.log.sink := by
  unfold System.advance
  cases w with
  | start n =>
    dsimp only
    repeat' split
    all_goals rfl
  | rebase n durableMax anchorHash => exact sink_rebase _ _ _
  | floor n durableMax => rfl
  | check n =>
    cases call with
    | ok => exact absurd rfl (hread rfl n)
    | failed => rfl
    | lostAck => rfl
  | backfill seq n =>
    dsimp only
    repeat' split
    all_goals rfl
  | append r n =>
    dsimp only
    repeat' split
    all_goals rfl

/-- **One event keeps the sink** unless it reads the tail while an append is not acknowledged. -/
theorem sink_step (h : s.Inv sha256Hex unacked) (hs : s.log.sink = true) (e : Event) :
    (s.step sha256Hex e).log.sink = true ↔ ¬ (unacked = true ∧ ReadsTail s e) := by
  have hkeeps : (s.step sha256Hex e).log.sink = true → ¬ ReadsTail s e →
      ((s.step sha256Hex e).log.sink = true ↔ ¬ (unacked = true ∧ ReadsTail s e)) :=
    fun hsink hno => ⟨fun _ hr => hno hr.2, fun _ => hsink⟩
  cases e with
  | restart read => exact hkeeps (sink_boot s.store read) fun hr => by cases hr.1
  | record m => exact hkeeps hs fun hr => by cases hr.1
  | valve i noFlusher =>
    refine hkeeps ?_ fun hr => by cases hr.1
    simp only [System.step]
    repeat' split
    all_goals exact hs
  | flushDurable =>
    refine hkeeps ?_ fun hr => by cases hr.1
    simp only [System.step]
    split <;> exact hs
  | lock i =>
    refine hkeeps ?_ fun hr => by cases hr.1
    simp only [System.step]
    split <;> exact hs
  | advance call =>
    simp only [System.step]
    rcases hw : s.writing with _ | w
    · refine ⟨fun _ hr => ?_, fun _ => hs⟩
      obtain ⟨-, -, n, hn⟩ := hr
      rw [hw] at hn
      cases hn
    by_cases hread : call = .ok ∧ ∃ n, w = .check n
    · obtain ⟨rfl, n, rfl⟩ := hread
      have hreads : ReadsTail s (.advance .ok) := ⟨rfl, n, hw⟩
      dsimp only
      rw [observed_ahead h hw, hs]
      simp [hreads]
    · have hno : ¬ ReadsTail s (.advance call) := by
        rintro ⟨hcall, n, hn⟩
        rw [hw] at hn
        exact hread ⟨Event.advance.inj hcall, n, Option.some.inj hn⟩
      have hsame : (s.advance sha256Hex call w).log.sink = s.log.sink :=
        sink_advance fun hc n hn => hread ⟨hc, n, hn⟩
      exact ⟨fun _ hr => hno hr.2, fun _ => hsame.trans hs⟩

/-! ## Progress -/

/-- In a chain, what comes later has all that lies between. -/
theorem Intact.between {l : List AuditRecord} (h : Intact sha256Hex l) {a b : AuditRecord} (ha : a ∈ l) (hb : b ∈ l)
    (hlt : a.seq < b.seq) : ∃ c ∈ l, c.seq = a.seq + 1 := by
  obtain ⟨i, hi⟩ := List.mem_iff_getElem?.1 ha
  obtain ⟨j, hj⟩ := List.mem_iff_getElem?.1 hb
  have hij : i < j := by
    by_contra hge
    obtain ⟨d, hd⟩ := Nat.exists_eq_add_of_le (Nat.le_of_not_lt hge)
    rw [hd] at hi
    have := h.seq_getElem hj hi
    omega
  have hjlt := (List.getElem?_eq_some_iff.1 hj).1
  have hnext : l[i + 1]? = some l[i + 1] := List.getElem?_eq_getElem (by omega)
  exact ⟨l[i + 1], List.getElem_mem _, h.seq_getElem hi hnext⟩

/-- The ring can still supply the entry after the watermark, or has none to supply. -/
def AuditLog.Retains (log : AuditLog) : Prop :=
  ∀ e ∈ log.entries, log.durableHigh < e.seq → ∃ e' ∈ log.entries, e'.seq = log.durableHigh + 1

/-- The system after sections of the write-through whose store calls all succeed. -/
def System.advances (sha256Hex : String → String) (s : System) (k : Nat) : System :=
  exec (System.step sha256Hex) s (List.replicate k (.advance .ok))

theorem advances_add (s : System) (j k : Nat) :
    s.advances sha256Hex (j + k) = (s.advances sha256Hex j).advances sha256Hex k := by
  unfold System.advances
  rw [List.replicate_add, exec_append]

/-- Where the backfill finds the next entry, its two sections append it and go on. -/
theorem backfill_round (h : s.Inv sha256Hex false) (hu : s.log.durableUnreconciled = false) {n : Nat}
    (hw : s.writing = some (.backfill (s.log.durableHigh + 1) n)) (hn : s.log.durableHigh + 1 ≤ n) {e : AuditEntry}
    (hf : s.log.entries.find? (fun e => e.seq = s.log.durableHigh + 1) = some e) :
    e.seq = s.log.durableHigh + 1 ∧ (s.advances sha256Hex 2).Inv sha256Hex false ∧ s.advances sha256Hex 2 = { s with
      store := s.store ++ [toRecord e]
      log := { s.log with durableHigh := s.log.durableHigh + 1 }
      writing := some (.backfill (s.log.durableHigh + 1 + 1) n) } := by
  have hsome := List.find?_some hf
  have hseq : e.seq = s.log.durableHigh + 1 := of_decide_eq_true hsome
  have hfetch : s.step sha256Hex (.advance .ok) = { s with writing := some (.append (toRecord e) n) } := by
    simp only [System.step, hw, System.advance, if_neg (not_lt.2 hn), hf]
  have hinv := h.step (.advance .ok)
  have hsame : s.unackedAfter false (.advance .ok) = false := by
    simp only [System.unackedAfter, hw]
  rw [hfetch, hsame] at hinv
  obtain ⟨-, hready, -⟩ := hinv.knows _ rfl
  have happ : appendAudit s.store (toRecord e) = (true, s.store ++ [toRecord e]) := by
    rcases append_cases hinv hu hready with ⟨-, -, happ⟩ | ⟨hf, -⟩
    · exact happ
    · cases hf
  have hrec : (toRecord e).seq = s.log.durableHigh + 1 := hseq
  have htwo : s.advances sha256Hex 2 = (s.step sha256Hex (.advance .ok)).step sha256Hex (.advance .ok) := rfl
  rw [htwo, hfetch]
  refine ⟨hseq, hinv.step (.advance .ok), ?_⟩
  simp only [System.step, System.advance, happ, if_true, hrec]
  rw [Nat.max_eq_right (Nat.le_succ _)]

/-- The backfill persists the ring's entries one by one; `d` bounds how far it has to go. -/
theorem backfill_persists (d : Nat) {s : System} (h : s.Inv sha256Hex false) (hu : s.log.durableUnreconciled = false)
    {n : Nat} (hw : s.writing = some (.backfill (s.log.durableHigh + 1) n)) (hret : s.log.Retains)
    (hd : ∀ e ∈ s.log.entries, e.seq ≤ n → e.seq ≤ s.log.durableHigh + d) :
    ∃ k, let s' := s.advances sha256Hex k
      s'.writing = none ∧ s'.log.sink = s.log.sink ∧ ∀ e ∈ s.log.entries, e.seq ≤ n → toRecord e ∈ s'.store := by
  induction d using Nat.strongRecOn generalizing s with | ind d ih => ?_
  obtain ⟨hjoined, hlen⟩ := h.joined hu
  have hheld : ∀ e ∈ s.log.entries, e.seq ≤ s.log.durableHigh → toRecord e ∈ s.store :=
    fun e he hle => hjoined.held e he (by rw [hlen]; exact hle)
  -- the last section, when nothing is left to append
  have hstop : (∀ e ∈ s.log.entries, e.seq ≤ n → e.seq ≤ s.log.durableHigh) →
      s.step sha256Hex (.advance .ok) = { s with writing := none } →
      ∃ k, let s' := s.advances sha256Hex k
        s'.writing = none ∧ s'.log.sink = s.log.sink ∧ ∀ e ∈ s.log.entries, e.seq ≤ n → toRecord e ∈ s'.store := by
    intro hall hstep
    have hone : s.advances sha256Hex 1 = { s with writing := none } := hstep
    refine ⟨1, ?_⟩
    rw [hone]
    exact ⟨rfl, rfl, fun e he hle => hheld e he (hall e he hle)⟩
  by_cases hn : n < s.log.durableHigh + 1
  · refine hstop (fun e he hle => by omega) ?_
    simp only [System.step, hw, System.advance, if_pos hn]
  rcases hf : s.log.entries.find? (fun e => e.seq = s.log.durableHigh + 1) with _ | e₀
  · refine hstop (fun e he hle => ?_) ?_
    · by_contra hgt
      obtain ⟨e', he', hs⟩ := hret e he (by omega)
      have := List.find?_eq_none.1 hf e' he'
      simp [hs] at this
    · simp only [System.step, hw, System.advance, if_neg hn, hf]
  obtain ⟨hseq, hinv, htwo⟩ := backfill_round h hu hw (not_lt.1 hn) hf
  have hmem := List.mem_of_find?_eq_some hf
  have hpos := hd e₀ hmem (by omega)
  rw [htwo] at hinv
  -- what follows the appended entry in the ring is there for the next round
  have hret' : AuditLog.Retains { s.log with durableHigh := s.log.durableHigh + 1 } := by
    intro e he hlt
    have hlt' : (toRecord e₀).seq < (toRecord e).seq := by
      show e₀.seq < e.seq
      rw [hseq]
      exact hlt
    obtain ⟨c, hc, hcs⟩ := h.ring.intact.between (List.mem_map_of_mem hmem) (List.mem_map_of_mem he) hlt'
    obtain ⟨e', he', rfl⟩ := List.mem_map.1 hc
    exact ⟨e', he', by rw [← hseq]; exact hcs⟩
  have hd' : ∀ e ∈ s.log.entries, e.seq ≤ n → e.seq ≤ s.log.durableHigh + 1 + (d - 1) := by
    intro e he hle
    have := hd e he hle
    omega
  obtain ⟨k, hk⟩ := ih (d - 1) (by omega) hinv hu rfl hret' hd'
  refine ⟨2 + k, ?_⟩
  rw [advances_add, htwo]
  exact hk

/-- **Past the check, a write-through whose calls succeed persists every entry the ring can still supply.** -/
theorem write_through_persists (h : s.Inv sha256Hex false) {n : Nat} (hw : s.writing = some (.check n))
    (hret : s.log.Retains) :
    ∃ k, let s' := s.advances sha256Hex k
      s'.writing = none ∧ s'.log.sink = s.log.sink ∧ ∀ e ∈ s.log.entries, e.seq ≤ n → toRecord e ∈ s'.store := by
  have hu : (Writing.check n).Knows sha256Hex s := h.knows _ (by rw [hw]; rfl)
  obtain ⟨hjoined, hlen⟩ := h.joined hu
  obtain ⟨-, -, hseq⟩ := readTail_last h.whole Nat.zero_lt_one
    (rfl : readTail s.store 1 .ok = some (listAuditTail s.store 1))
  have hlen : s.store.length = s.log.durableHigh := hlen
  have hstep : s.step sha256Hex (.advance .ok) = { s with
      writing := if n < s.log.durableHigh + 1 then none else some (.backfill (s.log.durableHigh + 1) n) } := by
    simp only [System.step, hw, System.advance, readTail, hseq, hlen, if_neg (lt_irrefl _)]
  have hone : s.advances sha256Hex 1 = s.step sha256Hex (.advance .ok) := rfl
  by_cases hn : n < s.log.durableHigh + 1
  · rw [if_pos hn] at hstep
    refine ⟨1, ?_⟩
    rw [hone, hstep]
    exact ⟨rfl, rfl, fun e he hle => hjoined.held e he (by omega)⟩
  · rw [if_neg hn] at hstep
    have hinv := h.step (.advance .ok)
    have hsame : s.unackedAfter false (.advance .ok) = false := by simp only [System.unackedAfter, hw]
    rw [hstep, hsame] at hinv
    obtain ⟨k, hk⟩ := backfill_persists n hinv hu rfl hret fun e _ hle => by omega
    refine ⟨1 + k, ?_⟩
    rw [advances_add, hone, hstep]
    exact hk

/-! ## Runs -/

/-- **Whole runs.** The log keeps its sink in every state of the run if and only if no tail is read between an
append that was applied with an error and the acknowledgement of its retry; and while every append is acknowledged,
a write-through whose calls succeed persists what the ring still holds. -/
theorem detaches_iff (sha256Hex : String → String) (read : Call) (events : List Event) :
    ((∀ pre, pre <+: events → (System.after sha256Hex read pre).log.sink = true) ↔
      Along (fun pre e => ¬ (unackedAt sha256Hex read pre = true ∧ ReadsTail (System.after sha256Hex read pre) e))
        events) ∧
    (unackedAt sha256Hex read events = false → ∀ n, let s := System.after sha256Hex read events
      s.writing = some (.check n) → s.log.Retains → ∃ k, let s' := s.advances sha256Hex k
        s'.writing = none ∧ s'.log.sink = s.log.sink ∧ ∀ e ∈ s.log.entries, e.seq ≤ n → toRecord e ∈ s'.store) := by
  refine ⟨⟨?_, ?_⟩, ?_⟩
  · rintro h pre e post rfl
    have hbefore := h pre ⟨e :: post, rfl⟩
    have hafter := h (pre ++ [e]) ⟨post, by simp⟩
    rw [after_snoc] at hafter
    exact (sink_step (after_inv sha256Hex read pre) hbefore e).1 hafter
  · rintro h pre ⟨post, rfl⟩
    refine Along.invariant (I := fun ops => (System.after sha256Hex read ops).log.sink = true) ?_ ?_ h.append_left
    · exact sink_boot [] read
    · intro ops e hs hno
      rw [after_snoc]
      exact (sink_step (after_inv sha256Hex read ops) hs e).2 hno
  · intro hacked n s hw hret
    have hinv := after_inv sha256Hex read events
    rw [hacked] at hinv
    exact write_through_persists hinv hw hret

/-- An append is applied and its call returns an error; the next write-through reads the tail. -/
def lostAckRun : List Event :=
  [.record mutation, .valve 0 true, .lock 0, .advance .ok, .advance .ok, .advance .ok, .advance .lostAck,
    .flushDurable, .lock 0, .advance .ok, .advance .ok]

/-- The only writer takes its own record for another's. -/
theorem detaches_alone : (System.after id .ok lostAckRun).log.sink = false := by
  decide +kernel

theorem detaches_iff_alone :
    ¬ Along (fun pre e => ¬ (unackedAt id .ok pre = true ∧ ReadsTail (System.after id .ok pre) e)) lostAckRun := by
  intro h
  have hsink := (detaches_iff id .ok lostAckRun).1.2 h lostAckRun List.prefix_rfl
  exact absurd hsink (by decide +kernel)

end Busbar.Audit
