import Busbar.Governance.Admit
import Busbar.Governance.Flush
import Busbar.Lib.Run

/-!
# A node's ledger at work

The transition system of one node under a fixed cost model: admission calls, grant drops, token accruals,
refunds and flushes interleave lock section by lock section. A sweep is a step of its own, of any shard at
any clock reading; the schedule of `tryAdmit`'s tickers is one of those the system runs through.

* `exec_tryAdmit`: an undisturbed admission call is a run of the system.
* `effect`: what one step can do to cells, rows and flush, and what it ledgers.
-/

namespace Busbar

/-- Where the running flush stands; the cells of a hash map come in no particular order. -/
inductive FlushPhase where
  | idle
  | reading (shard : Nat) (snaps : List DirtySnap)
  | writing (snaps : List DirtySnap)
  | settling (snap : DirtySnap) (ok : Bool) (snaps : List DirtySnap)

/-- Where an admission call stands. A grant is dropped hold by hold, after a refusal or when its request is
over. -/
inductive CallPhase where
  | acquiring (holds : List (String × Nat))
  | admitted
  | dropping (result : Option LimitBlocked)
  | finished (result : Option LimitBlocked)
  deriving DecidableEq

structure Call where
  key : VirtualKey
  pool : String
  now : Nat
  buckets : List ChainBucket
  grant : List String
  phase : CallPhase

structure Node where
  cells : Cells
  gauges : Gauges
  store : MemoryStore
  flush : FlushPhase
  calls : List Call

inductive NodeOp where
  | begin (key : VirtualKey) (pool : String) (now : Nat)
  | advance (call : Nat)
  | finish (call : Nat)
  | sweep (shard now : Nat)
  | accrue (key : VirtualKey) (pool : String) (bucket : Nat) (model : String) (tokens : TierTokens) (now : Nat)
  | refund (call bucket : Nat)
  | flush
  | flushStep (pick : Nat) (ok : Bool)
  | tick (clock : Nat)

/-- What is ledgered: an admission's request, a response's tokens, a refunded fee. -/
inductive LedgerEvent where
  | charged (call : Nat) (bucketId : String) (window : Nat)
  | accrued (bucketId : String) (window : Nat) (model : String) (tokens : TierTokens)
  | refunded (call : Nat) (bucketId : String) (window : Nat)

/-- The call as it starts: refused at once, or about to take its holds. -/
def Call.start (cost : CostModel) (key : VirtualKey) (pool : String) (now : Nat) : Call :=
  match admitPlan cost key pool with
  | .error e => ⟨key, pool, now, [], [], .finished (some e)⟩
  | .ok plan => ⟨key, pool, now, plan.buckets, [], .acquiring plan.holds⟩

/-- Where an admission call ends: admitted with its grant, or finished with nothing held. -/
def Call.answered (c : Call) : Except LimitBlocked (List String) → Call
  | .ok grant => { c with grant := grant, phase := .admitted }
  | .error e => { c with grant := [], phase := .finished (some e) }

/-- The charges of an admission, each with the window of the cell it lands on. -/
def chargeEvents (k now : Nat) : Cells → List ChainBucket → List LedgerEvent
  | _, [] => []
  | cells, b :: bs =>
    .charged k b.bucketId (BudgetCell.roll (cells.lookup b.bucketId) (budgetWindow b.window now)).windowStart ::
      chargeEvents k now (chargeBucket now cells b) bs

namespace Node

def new : Node where
  cells := Registry.empty
  gauges := fun _ => 0
  store := MemoryStore.new
  flush := .idle
  calls := []

/-- The next atomic step of a call: a hold, the lock section, or the drop of one hold. -/
def advanceCall (cost : CostModel) (n : Node) (k : Nat) (c : Call) : Node :=
  match c.phase with
  | .acquiring (hold :: holds) =>
    match takeHold hold n.gauges with
    | some gauges =>
      { n with
        gauges := gauges
        calls := n.calls.set k { c with grant := c.grant ++ [hold.1], phase := .acquiring holds } }
    | none => { n with calls := n.calls.set k { c with phase := .dropping (some (.concurrent hold.1)) } }
  | .acquiring [] =>
    let r := checkAndCharge cost c.buckets c.now n.cells
    { n with
      cells := r.2
      calls := n.calls.set k { c with phase := r.1.elim .admitted (fun e => .dropping (some e)) } }
  | .dropping result =>
    match c.grant with
    | [] => { n with calls := n.calls.set k { c with phase := .finished result } }
    | name :: grant =>
      { n with gauges := dropHold n.gauges name, calls := n.calls.set k { c with grant := grant } }
  | .admitted => n
  | .finished _ => n

/-- The next atomic step of the flush: snapshot a shard, write one snapshot, or settle it. -/
def advanceFlush (n : Node) (pick : Nat) (ok : Bool) : Node :=
  match n.flush with
  | .idle => n
  | .reading shard snaps =>
    if shard < govShards then
      { n with
        cells := cleanShard n.cells shard
        flush := .reading (shard + 1) (snaps ++ dirtySnaps n.cells shard) }
    else { n with flush := .writing snaps }
  | .writing snaps =>
    match snaps[pick]? with
    | some s =>
      let r := writeSnap n.store s ok
      { n with store := r.1, flush := .settling s r.2 (snaps.eraseIdx pick) }
    | none => if snaps.isEmpty then { n with flush := .idle } else n
  | .settling s ok snaps => { n with cells := settle n.cells s ok, flush := .writing snaps }

def step (cost : CostModel) (n : Node) : NodeOp → Node
  | .begin key pool now => { n with calls := n.calls ++ [Call.start cost key pool now] }
  | .advance k =>
    match n.calls[k]? with
    | some c => n.advanceCall cost k c
    | none => n
  | .finish k =>
    match n.calls[k]? with
    | some c => if c.phase = .admitted then { n with calls := n.calls.set k { c with phase := .dropping none } } else n
    | none => n
  | .sweep shard now => { n with cells := sweepShard cost now n.cells shard }
  | .accrue key pool i model tokens now =>
    match (usageBuckets cost key pool)[i]? with
    | some b =>
      if tokens.isZero then n else { n with cells := accrueBucket n.cells b.1 b.2 model tokens now }
    | none => n
  | .refund k i =>
    match n.calls[k]? with
    | some c =>
      match (usageBuckets cost c.key c.pool)[i]? with
      | some b => { n with cells := refundBucket n.cells b.1 b.2 c.now }
      | none => n
    | none => n
  | .flush =>
    match n.flush with
    | .idle => { n with flush := .reading 0 [] }
    | _ => n
  | .flushStep pick ok => n.advanceFlush pick ok
  | .tick clock => { n with store := { n.store with clock := clock } }

/-- What a refund of a bucket ledgers: nothing when it finds no billable request of its window. -/
def refundEvents (k now : Nat) (cells : Cells) (b : String × String) : List LedgerEvent :=
  match cells.lookup b.1 with
  | some cell =>
    if cell.windowStart = budgetWindow b.2 now ∧ 0 < cell.billableRequests then
      [.refunded k b.1 cell.windowStart]
    else []
  | none => []

/-- What a step ledgers. -/
def events (cost : CostModel) (n : Node) : NodeOp → List LedgerEvent
  | .advance k =>
    match n.calls[k]? with
    | some c =>
      if c.phase = .acquiring [] ∧ (checkAndCharge cost c.buckets c.now n.cells).1 = none then
        chargeEvents k c.now n.cells c.buckets
      else []
    | none => []
  | .accrue key pool i model tokens now =>
    match (usageBuckets cost key pool)[i]? with
    | some b =>
      if tokens.isZero then []
      else [.accrued b.1 (BudgetCell.roll (n.cells.lookup b.1) (budgetWindow b.2 now)).windowStart model tokens]
    | none => []
  | .refund k i =>
    match n.calls[k]? with
    | some c =>
      match (usageBuckets cost c.key c.pool)[i]? with
      | some b => refundEvents k c.now n.cells b
      | none => []
    | none => []
  | _ => []

/-- **What one step can do** to cells, rows and flush, and what it ledgers. -/
inductive Effect (cost : CostModel) (n : Node) (op : NodeOp) (n' : Node) : List LedgerEvent → Prop
  | idle (hcells : n'.cells = n.cells) (husage : n'.store.usage = n.store.usage)
      (hflush : n'.flush = n.flush) : Effect cost n op n' []
  | swept (shard now : Nat) (hop : op = .sweep shard now) (hcells : n'.cells = sweepShard cost now n.cells shard)
      (hstore : n'.store = n.store) (hflush : n'.flush = n.flush) : Effect cost n op n' []
  | locked (k : Nat) (c : Call) (hop : op = .advance k) (hcall : n.calls[k]? = some c)
      (hphase : c.phase = .acquiring []) (hcells : n'.cells = (checkAndCharge cost c.buckets c.now n.cells).2)
      (hstore : n'.store = n.store) (hflush : n'.flush = n.flush) :
      Effect cost n op n' (if (checkAndCharge cost c.buckets c.now n.cells).1 = none then
        chargeEvents k c.now n.cells c.buckets else [])
  | accrued (key : VirtualKey) (pool : String) (i : Nat) (model : String) (tokens : TierTokens) (now : Nat)
      (b : String × String) (hop : op = .accrue key pool i model tokens now)
      (hb : (usageBuckets cost key pool)[i]? = some b)
      (hcells : n'.cells = accrueBucket n.cells b.1 b.2 model tokens now)
      (hstore : n'.store = n.store) (hflush : n'.flush = n.flush) :
      Effect cost n op n' [.accrued b.1
        (BudgetCell.roll (n.cells.lookup b.1) (budgetWindow b.2 now)).windowStart model tokens]
  | refunded (k : Nat) (c : Call) (i : Nat) (b : String × String) (hop : op = .refund k i)
      (hcall : n.calls[k]? = some c) (hb : (usageBuckets cost c.key c.pool)[i]? = some b)
      (hcells : n'.cells = refundBucket n.cells b.1 b.2 c.now) (hstore : n'.store = n.store)
      (hflush : n'.flush = n.flush) : Effect cost n op n' (refundEvents k c.now n.cells b)
  | started (h : n.flush = .idle) (hcells : n'.cells = n.cells) (hstore : n'.store = n.store)
      (hflush : n'.flush = .reading 0 []) : Effect cost n op n' []
  | read (shard : Nat) (snaps : List DirtySnap) (h : n.flush = .reading shard snaps)
      (hcells : n'.cells = cleanShard n.cells shard) (hstore : n'.store = n.store)
      (hflush : n'.flush = .reading (shard + 1) (snaps ++ dirtySnaps n.cells shard)) : Effect cost n op n' []
  | readAll (shard : Nat) (snaps : List DirtySnap) (h : n.flush = .reading shard snaps)
      (hlast : govShards ≤ shard) (hcells : n'.cells = n.cells) (hstore : n'.store = n.store)
      (hflush : n'.flush = .writing snaps) : Effect cost n op n' []
  | wrote (pick : Nat) (ok : Bool) (s : DirtySnap) (snaps : List DirtySnap) (hop : op = .flushStep pick ok)
      (h : n.flush = .writing snaps) (hpick : snaps[pick]? = some s) (hcells : n'.cells = n.cells)
      (hstore : n'.store = (writeSnap n.store s ok).1)
      (hflush : n'.flush = .settling s (writeSnap n.store s ok).2 (snaps.eraseIdx pick)) :
      Effect cost n op n' []
  | settled (s : DirtySnap) (ok : Bool) (snaps : List DirtySnap) (h : n.flush = .settling s ok snaps)
      (hcells : n'.cells = settle n.cells s ok) (hstore : n'.store = n.store)
      (hflush : n'.flush = .writing snaps) : Effect cost n op n' []
  | ended (h : n.flush = .writing []) (hcells : n'.cells = n.cells) (hstore : n'.store = n.store)
      (hflush : n'.flush = .idle) : Effect cost n op n' []

theorem effect_advance (cost : CostModel) (n : Node) (k : Nat) :
    Effect cost n (.advance k) (n.step cost (.advance k)) (n.events cost (.advance k)) := by
  unfold step events
  dsimp only
  rcases hcall : n.calls[k]? with _ | c
  · exact .idle rfl rfl rfl
  · unfold advanceCall
    dsimp only
    rcases hph : c.phase with (_ | ⟨hold, holds⟩) | _ | result | result
    · simp only [true_and]
      exact .locked k c rfl hcall hph rfl rfl rfl
    · rw [if_neg (by simp)]
      dsimp only
      split
      · exact .idle rfl rfl rfl
      · exact .idle rfl rfl rfl
    · exact .idle rfl rfl rfl
    · rw [if_neg (by simp)]
      dsimp only
      split
      · exact .idle rfl rfl rfl
      · exact .idle rfl rfl rfl
    · exact .idle rfl rfl rfl

theorem effect_flushStep (cost : CostModel) (n : Node) (pick : Nat) (ok : Bool) :
    Effect cost n (.flushStep pick ok) (n.step cost (.flushStep pick ok))
      (n.events cost (.flushStep pick ok)) := by
  show Effect cost n (.flushStep pick ok) (n.advanceFlush pick ok) []
  unfold advanceFlush
  rcases hph : n.flush with _ | ⟨shard, snaps⟩ | snaps | ⟨s, sok, snaps⟩
  · exact .idle rfl rfl rfl
  · dsimp only
    split
    · exact .read shard snaps hph rfl rfl rfl
    · exact .readAll shard snaps hph (by omega) rfl rfl rfl
  · dsimp only
    rcases hpick : snaps[pick]? with _ | s
    · dsimp only
      split
      · rename_i he
        rw [List.isEmpty_iff] at he
        subst he
        exact .ended hph rfl rfl rfl
      · exact .idle rfl rfl rfl
    · exact .wrote pick ok s snaps rfl hph hpick rfl rfl rfl
  · exact .settled s sok snaps hph rfl rfl rfl

/-- Every step has one of these effects. -/
theorem effect (cost : CostModel) (n : Node) (op : NodeOp) :
    Effect cost n op (n.step cost op) (n.events cost op) := by
  cases op with
  | begin key pool now => exact .idle rfl rfl rfl
  | advance k => exact effect_advance cost n k
  | finish k =>
    unfold step events
    dsimp only
    split
    · split
      · exact .idle rfl rfl rfl
      · exact .idle rfl rfl rfl
    · exact .idle rfl rfl rfl
  | sweep shard now => exact .swept shard now rfl rfl rfl rfl
  | accrue key pool i model tokens now =>
    unfold step events
    dsimp only
    rcases hb : (usageBuckets cost key pool)[i]? with _ | b
    · exact .idle rfl rfl rfl
    · dsimp only
      by_cases hz : tokens.isZero = true
      · rw [if_pos hz, if_pos hz]
        exact .idle rfl rfl rfl
      · rw [if_neg hz, if_neg hz]
        exact .accrued key pool i model tokens now b rfl hb rfl rfl rfl
  | refund k i =>
    unfold step events
    dsimp only
    rcases hcall : n.calls[k]? with _ | c
    · exact .idle rfl rfl rfl
    · dsimp only
      rcases hb : (usageBuckets cost c.key c.pool)[i]? with _ | b
      · exact .idle rfl rfl rfl
      · exact .refunded k c i b rfl hcall hb rfl rfl rfl
  | flush =>
    unfold step events
    dsimp only
    rcases hph : n.flush with _ | ⟨shard, snaps⟩ | snaps | ⟨s, sok, snaps⟩
    · exact .started hph rfl rfl rfl
    · exact .idle rfl rfl rfl
    · exact .idle rfl rfl rfl
    · exact .idle rfl rfl rfl
  | flushStep pick ok => exact effect_flushStep cost n pick ok
  | tick clock => exact .idle rfl rfl rfl

/-! ## An admission call as a run -/

section Admission

variable {cost : CostModel} {n : Node} {k : Nat} {c : Call}

theorem step_advance (hc : n.calls[k]? = some c) : n.step cost (.advance k) = n.advanceCall cost k c := by
  unfold step
  dsimp only
  rw [hc]

theorem getElem?_set (hc : n.calls[k]? = some c) (c' : Call) : (n.calls.set k c')[k]? = some c' :=
  List.getElem?_set_self (List.getElem?_eq_some_iff.1 hc).1

variable (cost) in
/-- An undisturbed drop of a grant. -/
theorem exec_drops {result : Option LimitBlocked} (hc : n.calls[k]? = some c)
    (hph : c.phase = .dropping result) :
    Run.exec (step cost) n (List.replicate (c.grant.length + 1) (.advance k)) =
      { n with
        gauges := c.grant.foldl dropHold n.gauges
        calls := n.calls.set k { c with grant := [], phase := .finished result } } := by
  induction hg : c.grant generalizing n c with
  | nil =>
    show n.step cost (.advance k) = _
    rw [step_advance hc]
    unfold advanceCall
    rw [hph]
    dsimp only
    rw [hg]
    rfl
  | cons name grant ih =>
    have hstep : n.step cost (.advance k) =
        { n with gauges := dropHold n.gauges name, calls := n.calls.set k { c with grant := grant } } := by
      rw [step_advance hc]
      unfold advanceCall
      rw [hph]
      dsimp only
      rw [hg]
    have hnext := getElem?_set hc { c with grant := grant }
    have hrest := ih (n := { n with gauges := dropHold n.gauges name, calls := n.calls.set k _ }) hnext hph rfl
    rw [List.length_cons, List.replicate_succ, Run.exec_cons, hstep, hrest]
    dsimp only
    rw [List.set_set]
    rfl

variable (cost) in
/-- An undisturbed acquisition of the holds: all are taken, or one is refused and the grant dropped again. -/
theorem exec_holds (holds : List (String × Nat)) (hc : n.calls[k]? = some c) (hph : c.phase = .acquiring holds) :
    match takeHolds holds c.grant n.gauges with
    | (.ok grant, gauges) =>
      Run.exec (step cost) n (List.replicate holds.length (.advance k)) =
        { n with gauges := gauges, calls := n.calls.set k { c with grant := grant, phase := .acquiring [] } }
    | (.error e, gauges) =>
      ∃ m, Run.exec (step cost) n (List.replicate m (.advance k)) =
        { n with gauges := gauges, calls := n.calls.set k { c with grant := [], phase := .finished (some e) } } := by
  induction holds generalizing n c with
  | nil =>
    have hself : ({ c with grant := c.grant, phase := .acquiring [] } : Call) = c := by
      rw [← hph]
    unfold takeHolds
    dsimp only
    obtain ⟨hk, hget⟩ := List.getElem?_eq_some_iff.1 hc
    rw [List.length_nil, List.replicate_zero, Run.exec_nil, hself, ← hget, List.set_getElem_self]
  | cons hold holds ih =>
    unfold takeHolds
    rcases hhold : takeHold hold n.gauges with _ | gauges
    · dsimp only
      have hstep : n.step cost (.advance k) =
          { n with calls := n.calls.set k { c with phase := .dropping (some (.concurrent hold.1)) } } := by
        rw [step_advance hc]
        unfold advanceCall
        rw [hph]
        dsimp only
        rw [hhold]
      refine ⟨c.grant.length + 1 + 1, ?_⟩
      rw [List.replicate_succ, Run.exec_cons, hstep]
      have hnext := getElem?_set hc { c with phase := .dropping (some (.concurrent hold.1)) }
      rw [exec_drops cost (n := { n with calls := n.calls.set k _ }) hnext rfl]
      dsimp only
      rw [List.set_set]
    · dsimp only
      have hstep : n.step cost (.advance k) =
          { n with
            gauges := gauges
            calls := n.calls.set k { c with grant := c.grant ++ [hold.1], phase := .acquiring holds } } := by
        rw [step_advance hc]
        unfold advanceCall
        rw [hph]
        dsimp only
        rw [hhold]
      have hnext := getElem?_set hc { c with grant := c.grant ++ [hold.1], phase := .acquiring holds }
      have hrest := ih (n := { n with gauges := gauges, calls := n.calls.set k _ }) hnext rfl
      dsimp only at hrest
      revert hrest
      rcases takeHolds holds (c.grant ++ [hold.1]) gauges with ⟨_ | _, gauges'⟩
      · rintro ⟨m, hm⟩
        refine ⟨m + 1, ?_⟩
        rw [List.replicate_succ, Run.exec_cons, hstep, hm, List.set_set]
      · intro hm
        dsimp only at hm ⊢
        rw [List.length_cons, List.replicate_succ, Run.exec_cons, hstep, hm, List.set_set]

/-- The sweeps of a lock section. -/
theorem exec_sweeps (due : Nat → Bool) (now : Nat) (shards : List Nat) :
    Run.exec (step cost) n ((shards.filter due).map (fun shard => .sweep shard now)) =
      { n with cells := sweepShards due cost now shards n.cells } := by
  induction shards generalizing n with
  | nil => rfl
  | cons shard shards ih =>
    by_cases hd : due shard = true
    · rw [List.filter_cons_of_pos hd, List.map_cons, Run.exec_cons, ih]
      unfold sweepShards
      rw [List.foldl_cons, if_pos hd]
      rfl
    · rw [List.filter_cons_of_neg hd, ih]
      unfold sweepShards
      rw [List.foldl_cons, if_neg hd]

variable (cost) in
/-- The lock section of an admission: the sweeps that are due, then the check and the charges. -/
theorem exec_admitLocked (due : Nat → Bool) (hc : n.calls[k]? = some c) (hph : c.phase = .acquiring []) :
    Run.exec (step cost) n
        (((shardsOf c.buckets).filter due).map (fun shard => NodeOp.sweep shard c.now) ++ [.advance k]) =
      { n with
        cells := (admitLocked due cost c.buckets c.now n.cells).2
        calls := n.calls.set k { c with
          phase := (admitLocked due cost c.buckets c.now n.cells).1.elim .admitted (fun e => .dropping (some e)) } } := by
  have hadvance : ∀ cells, { n with cells := cells }.step cost (.advance k) =
      { n with cells := cells }.advanceCall cost k c := fun cells => step_advance (n := { n with cells := cells }) hc
  rw [Run.exec_append, exec_sweeps, Run.exec_cons, Run.exec_nil, hadvance]
  unfold advanceCall
  rw [hph]
  rfl

/-- **An undisturbed admission call is a run of the system.** -/
theorem exec_tryAdmit (interval : Nat) (key : VirtualKey) (pool : String) (now : Nat) (L : Ledger)
    (hL : L.cells = n.cells) :
    ∃ ops : List NodeOp,
      let r := tryAdmit interval cost key pool now L n.gauges
      Run.exec (step cost) n ops =
        { n with
          cells := r.2.1.cells
          gauges := r.2.2
          calls := n.calls ++ [Call.answered (Call.start cost key pool now) r.1] } := by
  have hbegin : n.step cost (.begin key pool now) =
      { n with calls := n.calls ++ [Call.start cost key pool now] } := rfl
  have hk : (n.calls ++ [Call.start cost key pool now])[n.calls.length]? = some (Call.start cost key pool now) := by
    simp
  have hset : ∀ c c' : Call, (n.calls ++ [c]).set n.calls.length c' = n.calls ++ [c'] := by
    intro c c'
    simp
  unfold tryAdmit
  unfold Call.start at hbegin hk ⊢
  rcases hplan : admitPlan cost key pool with e | plan
  · rw [hplan] at hbegin
    exact ⟨[.begin key pool now], by rw [Run.exec_cons, Run.exec_nil, hbegin, ← hL]; rfl⟩
  · rw [hplan] at hbegin hk
    dsimp only at hbegin hk ⊢
    generalize hc₀ : (⟨key, pool, now, plan.buckets, [], .acquiring plan.holds⟩ : Call) = c₀ at hbegin hk
    have hnow : c₀.now = now := by rw [← hc₀]
    have hbuckets : c₀.buckets = plan.buckets := by rw [← hc₀]
    have hgrant : c₀.grant = [] := by rw [← hc₀]
    have hholds := exec_holds cost (n := { n with calls := n.calls ++ [c₀] }) (c := c₀) plan.holds hk
      (by rw [← hc₀])
    revert hholds
    rw [hgrant]
    dsimp only
    rcases takeHolds plan.holds [] n.gauges with ⟨e | grant, gauges⟩
    · rintro ⟨m, hm⟩
      refine ⟨.begin key pool now :: List.replicate m (.advance n.calls.length), ?_⟩
      rw [Run.exec_cons, hbegin, hm, hset, ← hL]
      rfl
    · intro hm
      dsimp only at hm ⊢
      rw [hset] at hm
      -- all holds taken: the lock section, and if it refuses the drop of the grant
      generalize hn₁ : ({ n with gauges := gauges, calls := n.calls ++
        [{ c₀ with grant := grant, phase := .acquiring [] }] } : Node) = n₁ at hm
      have hk₁ : n₁.calls[n.calls.length]? = some { c₀ with grant := grant, phase := .acquiring [] } := by
        rw [← hn₁]
        simp
      have hcells : n₁.cells = L.cells := by rw [← hn₁, hL]
      have hlocked := exec_admitLocked cost (L.sweepDue interval) hk₁ rfl
      dsimp only at hlocked
      rw [hbuckets, hnow, hcells, ← hn₁] at hlocked
      dsimp only at hlocked
      rw [hset] at hlocked
      rcases hres : (admitLocked (L.sweepDue interval) cost plan.buckets now L.cells).1 with _ | e
      · rw [hres] at hlocked
        refine ⟨.begin key pool now :: (List.replicate plan.holds.length (.advance n.calls.length) ++
          (((shardsOf plan.buckets).filter (L.sweepDue interval)).map (fun shard => NodeOp.sweep shard now) ++
            [.advance n.calls.length])), ?_⟩
        rw [Run.exec_cons, hbegin, Run.exec_append, hm, ← hn₁, hlocked]
        subst hc₀
        rfl
      · rw [hres] at hlocked
        have hk₂ : (n.calls ++ [{ c₀ with grant := grant, phase := .dropping (some e) }])[n.calls.length]? =
            some { c₀ with grant := grant, phase := .dropping (some e) } := by simp
        have hdrops := exec_drops cost
          (n := { n with
            cells := (admitLocked (L.sweepDue interval) cost plan.buckets now L.cells).2
            gauges := gauges
            calls := n.calls ++ [{ c₀ with grant := grant, phase := .dropping (some e) }] }) hk₂ rfl
        dsimp only at hdrops
        rw [hset] at hdrops
        refine ⟨.begin key pool now :: (List.replicate plan.holds.length (.advance n.calls.length) ++
          ((((shardsOf plan.buckets).filter (L.sweepDue interval)).map (fun shard => NodeOp.sweep shard now) ++
            [.advance n.calls.length]) ++ List.replicate (grant.length + 1) (.advance n.calls.length))), ?_⟩
        rw [Run.exec_cons, hbegin, Run.exec_append, hm, Run.exec_append, ← hn₁, hlocked]
        subst hc₀
        exact hdrops

end Admission

end Node

/-- A node and everything it has ledgered. -/
structure NodeRun where
  node : Node
  history : List LedgerEvent

namespace NodeRun

def start (n : Node) : NodeRun := ⟨n, []⟩

def step (cost : CostModel) (r : NodeRun) (op : NodeOp) : NodeRun :=
  ⟨r.node.step cost op, r.history ++ r.node.events cost op⟩

/-- The node after a run from `n`, with its history. -/
def after (cost : CostModel) (n : Node) (ops : List NodeOp) : NodeRun := Run.exec (step cost) (start n) ops

theorem node_after (cost : CostModel) (n : Node) (ops : List NodeOp) :
    (after cost n ops).node = Run.exec (Node.step cost) n ops := by
  induction ops using List.reverseRecOn with
  | nil => rfl
  | append_singleton ops op ih =>
    unfold after at ih ⊢
    rw [Run.exec_snoc, Run.exec_snoc, ← ih]
    rfl

theorem after_snoc (cost : CostModel) (n : Node) (ops : List NodeOp) (op : NodeOp) :
    after cost n (ops ++ [op]) = (after cost n ops).step cost op := Run.exec_snoc _ _ _ _

end NodeRun

end Busbar
