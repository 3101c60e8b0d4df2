import Busbar.Governance.Rollover

/-!
# Fees and refunds

An admission charges a fee to the live cell of every bucket of its chain, and a refund takes it back from the
cell that holds the bucket's window at the pinned admission time. The two find the same cell unless the
admission was late: a cell of a newer window was charged in place, and the refund passes it by.

* `FeeRun`: the node with the fees that are still open, each with the window it was charged to.
* `balanced_step`: a cell always has a billable request for each of its open fees.
* `refund_undoes_charge`: a refund lowers the charged cell by one and touches no other, if admissions charge
  cells of their own windows and windows with open fees are not opened anew.
* `late_fee_not_refunded`: a fee charged to a newer window's cell stays there.
-/

namespace Busbar

variable {cost : CostModel}

/-- A fee that was charged and not yet refunded: the call, the bucket's place in its chain, and the (bucket,
window) of the charged cell. -/
structure Fee where
  call : Nat
  bucket : Nat
  bucketId : String
  window : Nat
  deriving DecidableEq, Repr

/-- The fees a step charges, in the order of the chain. -/
def feesOf (events : List LedgerEvent) : List Fee :=
  events.zipIdx.filterMap fun e =>
    match e.1 with
    | .charged k id w => some ⟨k, e.2, id, w⟩
    | _ => none

/-- A node with its open fees. -/
structure FeeRun where
  node : Node
  fees : List Fee

namespace FeeRun

def step (cost : CostModel) (r : FeeRun) (op : NodeOp) : FeeRun where
  node := r.node.step cost op
  fees := (match op with
    | .refund k i => r.fees.filter (fun f => ¬ (f.call = k ∧ f.bucket = i))
    | _ => r.fees) ++ feesOf (r.node.events cost op)

/-- The node after a run from `n`, with the fees the run left open. -/
def after (cost : CostModel) (n : Node) (ops : List NodeOp) : FeeRun := Run.exec (step cost) ⟨n, []⟩ ops

theorem after_snoc (cost : CostModel) (n : Node) (ops : List NodeOp) (op : NodeOp) :
    after cost n (ops ++ [op]) = (after cost n ops).step cost op := Run.exec_snoc _ _ _ _

end FeeRun

/-- How many fees of a (bucket, window) are open. -/
def openFees (id : String) (W : Nat) (fees : List Fee) : Nat :=
  fees.countP (fun f => decide (f.bucketId = id ∧ f.window = W))

/-- How many charges a step ledgers to a (bucket, window). -/
def chargeCount (id : String) (W : Nat) (events : List LedgerEvent) : Nat :=
  events.countP fun
    | .charged _ i w => decide (i = id ∧ w = W)
    | _ => false

/-- A step that opens the bucket's cell for a window finds no open fee of it. -/
def OpensAnew (n : Node) (fees : List Fee) (id : String) (W : Nat) : Prop :=
  (∀ c, n.cells.lookup id = some c → c.windowStart < W) → openFees id W fees = 0

/-- **What keeps fees and cells together.** An admission charges every bucket of its chain in the bucket's own
window, never a newer one's cell; no window is opened anew while fees of it are open; a refund is of a fee
that is open, one of less than 2^64. -/
def FeeRun.Pairs (cost : CostModel) (r : FeeRun) : NodeOp → Prop
  | .advance k => ∀ c, r.node.calls[k]? = some c → c.phase = .acquiring [] → ∀ b ∈ c.buckets,
      (∀ cell, r.node.cells.lookup b.bucketId = some cell → cell.windowStart ≤ budgetWindow b.window c.now) ∧
      OpensAnew r.node r.fees b.bucketId (budgetWindow b.window c.now) ∧
      ∀ b' ∈ c.buckets, b'.bucketId = b.bucketId → budgetWindow b'.window c.now = budgetWindow b.window c.now
  | .accrue key pool i _ _ now => ∀ b, (usageBuckets cost key pool)[i]? = some b →
      OpensAnew r.node r.fees b.1 (budgetWindow b.2 now)
  | .refund k i => ∃ f ∈ r.fees, f.call = k ∧ f.bucket = i ∧ openFees f.bucketId f.window r.fees ≤ u64Max
  | _ => True

/-- Every step of the run keeps fees and cells together. -/
def FeeRun.PairsAlong (cost : CostModel) (n : Node) (ops : List NodeOp) : Prop :=
  Run.Along (fun pre op => (after cost n pre).Pairs cost op) ops

/-! ## Counting fees -/

theorem openFees_append (id : String) (W : Nat) (fees fees' : List Fee) :
    openFees id W (fees ++ fees') = openFees id W fees + openFees id W fees' := List.countP_append

theorem openFees_feesOf (id : String) (W : Nat) (events : List LedgerEvent) :
    openFees id W (feesOf events) = chargeCount id W events := by
  unfold openFees feesOf chargeCount
  have hgen : ∀ start, ((events.zipIdx start).filterMap (fun e =>
      match e.1 with
      | .charged k id w => some (⟨k, e.2, id, w⟩ : Fee)
      | _ => none)).countP (fun f => decide (f.bucketId = id ∧ f.window = W)) =
        events.countP (fun
          | .charged _ i w => decide (i = id ∧ w = W)
          | _ => false) := by
    induction events with
    | nil => exact fun _ => rfl
    | cons e events ih =>
      intro start
      rw [List.zipIdx_cons, List.filterMap_cons, List.countP_cons]
      cases e with
      | charged k i w =>
        dsimp only
        rw [List.countP_cons, ih]
      | accrued i w model t =>
        dsimp only
        rw [ih]
        simp
      | refunded k i w =>
        dsimp only
        rw [ih]
        simp
  exact hgen 0

/-- Closing a fee takes at least that one away. -/
theorem openFees_close {fees : List Fee} {f : Fee} (hf : f ∈ fees) :
    openFees f.bucketId f.window (fees.filter (fun f' => ¬ (f'.call = f.call ∧ f'.bucket = f.bucket))) + 1 ≤
      openFees f.bucketId f.window fees := by
  unfold openFees
  rw [List.countP_filter]
  induction fees with
  | nil => exact absurd hf List.not_mem_nil
  | cons f' fees ih =>
    rw [List.countP_cons, List.countP_cons]
    rcases List.mem_cons.1 hf with rfl | hf
    · have hle : fees.countP (fun a => decide (a.bucketId = f.bucketId ∧ a.window = f.window) &&
          decide (¬ (a.call = f.call ∧ a.bucket = f.bucket))) ≤
          fees.countP (fun a => decide (a.bucketId = f.bucketId ∧ a.window = f.window)) :=
        List.countP_mono_left (fun a _ ha => by
          rw [Bool.and_eq_true] at ha
          exact ha.1)
      simp only [and_self, decide_true, not_true_eq_false, decide_false, Bool.and_false, Bool.false_eq_true,
        if_true, if_false]
      omega
    · have := ih hf
      have hone : (if (decide (f'.bucketId = f.bucketId ∧ f'.window = f.window) &&
          decide (¬ (f'.call = f.call ∧ f'.bucket = f.bucket))) = true then 1 else 0) ≤
          if decide (f'.bucketId = f.bucketId ∧ f'.window = f.window) = true then 1 else 0 := by
        by_cases h : f'.bucketId = f.bucketId ∧ f'.window = f.window
        · simp only [h, and_self, decide_true, Bool.true_and, if_true]
          split <;> omega
        · simp [h]
      omega

/-- Closing other fees does not add any. -/
theorem openFees_filter_le (id : String) (W : Nat) (p : Fee → Bool) (fees : List Fee) :
    openFees id W (fees.filter p) ≤ openFees id W fees := by
  unfold openFees
  exact (List.filter_sublist.countP_le)

/-! ## The charge pass -/

/-- What the charge pass of an admission finds: a billable request for every open fee, cells of the buckets'
own windows or none, and no open fee where it opens a window. -/
structure PassPaid (now : Nat) (buckets : List ChainBucket) (cells : Cells) (fees : String → Nat → Nat) : Prop where
  paid : ∀ id c, cells.lookup id = some c → min (fees id c.windowStart) u64Max ≤ c.billableRequests
  own : ∀ b ∈ buckets, ∀ c, cells.lookup b.bucketId = some c → c.windowStart ≤ budgetWindow b.window now
  anew : ∀ b ∈ buckets, (∀ c, cells.lookup b.bucketId = some c → c.windowStart < budgetWindow b.window now) →
    fees b.bucketId (budgetWindow b.window now) = 0
  apart : ∀ b ∈ buckets, ∀ b' ∈ buckets, b'.bucketId = b.bucketId →
    budgetWindow b'.window now = budgetWindow b.window now

/-- The cell a charge in its own window lands on. -/
theorem roll_own {o : Option BudgetCell} {w : Nat} (h : ∀ c, o = some c → c.windowStart ≤ w) :
    (BudgetCell.roll o w).windowStart = w := by
  unfold BudgetCell.roll
  rcases o with _ | c
  · rfl
  · dsimp only
    split
    · rfl
    · have := h c rfl
      omega

theorem roll_billable {o : Option BudgetCell} {w n : Nat}
    (hpaid : ∀ c, o = some c → c.windowStart = w → n ≤ c.billableRequests)
    (hanew : (∀ c, o = some c → c.windowStart < w) → n = 0) (h : ∀ c, o = some c → c.windowStart ≤ w) :
    n ≤ (BudgetCell.roll o w).billableRequests := by
  unfold BudgetCell.roll
  rcases o with _ | c
  · rw [hanew (fun c hc => by cases hc)]
    exact Nat.zero_le _
  · dsimp only
    split
    · rename_i hlt
      rw [hanew (fun c' hc' => by cases hc'; exact hlt)]
      exact Nat.zero_le _
    · have := h c rfl
      exact hpaid c rfl (by omega)

variable {now : Nat} {b : ChainBucket} {bs : List ChainBucket} {cells : Cells} {fees : String → Nat → Nat}

/-- The first charge of a pass leaves the rest of the pass what it needs. -/
theorem PassPaid.tail (h : PassPaid now (b :: bs) cells fees) :
    PassPaid now bs (chargeBucket now cells b) (fun id W =>
      fees id W + if b.bucketId = id ∧ budgetWindow b.window now = W then 1 else 0) := by
  have hown := h.own b List.mem_cons_self
  have hws := roll_own hown
  have hl := lookup_chargeBucket now cells b
  constructor
  · intro id c hc
    rw [hl] at hc
    by_cases hb : b.bucketId = id
    · subst hb
      rw [if_pos rfl] at hc
      cases hc
      have hbill := roll_billable (n := min (fees b.bucketId (budgetWindow b.window now)) u64Max)
        (fun c hc hw => by
          have := h.paid b.bucketId c hc
          rw [hw] at this
          exact this)
        (fun hlt => by
          rw [h.anew b List.mem_cons_self hlt]
          exact Nat.zero_min _) hown
      generalize BudgetCell.roll (cells.lookup b.bucketId) (budgetWindow b.window now) = r at hws hbill
      have hws' : (r.charge now).windowStart = budgetWindow b.window now := hws
      show _ ≤ satAdd r.billableRequests 1
      rw [hws', if_pos ⟨rfl, rfl⟩]
      unfold satAdd
      omega
    · rw [if_neg hb] at hc
      rw [if_neg (fun hx => hb hx.1), Nat.add_zero]
      exact h.paid id c hc
  · intro b' hb' c hc
    rw [hl] at hc
    by_cases hb : b.bucketId = b'.bucketId
    · rw [if_pos hb] at hc
      cases hc
      show (BudgetCell.roll (cells.lookup b'.bucketId) (budgetWindow b.window now)).windowStart ≤ _
      rw [← hb, hws, h.apart b' (List.mem_cons_of_mem _ hb') b List.mem_cons_self hb]
    · rw [if_neg hb] at hc
      exact h.own b' (List.mem_cons_of_mem _ hb') c hc
  · intro b' hb' hlt
    by_cases hb : b.bucketId = b'.bucketId
    · have hc := hlt _ ((hl b'.bucketId).trans (if_pos hb))
      have hw := h.apart b' (List.mem_cons_of_mem _ hb') b List.mem_cons_self hb
      have hc : (BudgetCell.roll (cells.lookup b'.bucketId) (budgetWindow b.window now)).windowStart <
        budgetWindow b'.window now := hc
      rw [← hb, hws, hw] at hc
      exact absurd hc (Nat.lt_irrefl _)
    · rw [if_neg (fun hx => hb hx.1), Nat.add_zero]
      refine h.anew b' (List.mem_cons_of_mem _ hb') (fun c hc => hlt c ?_)
      rw [hl, if_neg hb]
      exact hc
  · exact fun b₁ h₁ b₂ h₂ => h.apart b₁ (List.mem_cons_of_mem _ h₁) b₂ (List.mem_cons_of_mem _ h₂)

/-- A pass in own windows ledgers every charge to the bucket's own window. -/
theorem chargeEvents_own {k : Nat} {buckets : List ChainBucket} (h : PassPaid now buckets cells fees) :
    chargeEvents k now cells buckets =
      buckets.map (fun b => LedgerEvent.charged k b.bucketId (budgetWindow b.window now)) := by
  induction buckets generalizing cells fees with
  | nil => rfl
  | cons b bs ih =>
    unfold chargeEvents
    rw [roll_own (h.own b List.mem_cons_self), ih h.tail, List.map_cons]

/-- **The charge pass.** Afterwards a cell has a billable request for every fee that was open and for every
one it was charged. -/
theorem paid_charges {k : Nat} {buckets : List ChainBucket} (h : PassPaid now buckets cells fees) :
    ∀ id c, (buckets.foldl (chargeBucket now) cells).lookup id = some c →
      min (fees id c.windowStart + chargeCount id c.windowStart (chargeEvents k now cells buckets)) u64Max ≤
        c.billableRequests := by
  induction buckets generalizing cells fees with
  | nil =>
    intro id c hc
    exact h.paid id c hc
  | cons b bs ih =>
    intro id c hc
    rw [List.foldl_cons] at hc
    have hrest := ih h.tail id c hc
    unfold chargeEvents
    rw [roll_own (h.own b List.mem_cons_self)]
    unfold chargeCount at hrest ⊢
    rw [List.countP_cons]
    dsimp only
    simp only [decide_eq_true_eq]
    omega

/-! ## Calls -/

/-- The same request, which does not go back to taking holds. -/
structure Call.SameRequest (c c' : Call) : Prop where
  key : c'.key = c.key
  pool : c'.pool = c.pool
  now : c'.now = c.now
  buckets : c'.buckets = c.buckets
  acquiring : (∃ holds, c'.phase = .acquiring holds) → ∃ holds, c.phase = .acquiring holds

/-- What a step does to the calls: nothing, a new one, or a move of one of them. -/
theorem calls_step (cost : CostModel) (n : Node) (op : NodeOp) :
    (n.step cost op).calls = n.calls ∨
      (∃ key pool now, op = .begin key pool now ∧
        (n.step cost op).calls = n.calls ++ [Call.start cost key pool now]) ∨
      ∃ k c c', n.calls[k]? = some c ∧ (n.step cost op).calls = n.calls.set k c' ∧ c.SameRequest c' := by
  have hadvance : ∀ k c, n.calls[k]? = some c → (n.advanceCall cost k c).calls = n.calls ∨
      ∃ c', (n.advanceCall cost k c).calls = n.calls.set k c' ∧ c.SameRequest c' := by
    intro k c _
    unfold Node.advanceCall
    split
    · rename_i hold holds hph
      split
      · exact Or.inr ⟨_, rfl, rfl, rfl, rfl, rfl, fun _ => ⟨_, hph⟩⟩
      · exact Or.inr ⟨_, rfl, rfl, rfl, rfl, rfl, fun _ => ⟨_, hph⟩⟩
    · rename_i hph
      exact Or.inr ⟨_, rfl, rfl, rfl, rfl, rfl, fun _ => ⟨_, hph⟩⟩
    · rename_i result hph
      split
      · refine Or.inr ⟨_, rfl, rfl, rfl, rfl, rfl, ?_⟩
        rintro ⟨holds, h⟩
        cases h
      · exact Or.inr ⟨_, rfl, rfl, rfl, rfl, rfl, fun h => h⟩
    · exact Or.inl rfl
    · exact Or.inl rfl
  cases op with
  | begin key pool now => exact Or.inr (Or.inl ⟨key, pool, now, rfl, rfl⟩)
  | advance k =>
    unfold Node.step
    dsimp only
    split
    · rename_i c hc
      rcases hadvance k c hc with h | ⟨c', h, hsame⟩
      · exact Or.inl h
      · exact Or.inr (Or.inr ⟨k, c, c', hc, h, hsame⟩)
    · exact Or.inl rfl
  | finish k =>
    unfold Node.step
    dsimp only
    split
    · rename_i c hc
      split
      · refine Or.inr (Or.inr ⟨k, c, _, hc, rfl, rfl, rfl, rfl, rfl, ?_⟩)
        rintro ⟨holds, h⟩
        cases h
      · exact Or.inl rfl
    · exact Or.inl rfl
  | accrue key pool i model tokens now =>
    unfold Node.step
    dsimp only
    split
    · split <;> exact Or.inl rfl
    · exact Or.inl rfl
  | refund k i =>
    unfold Node.step
    dsimp only
    split
    · split <;> exact Or.inl rfl
    · exact Or.inl rfl
  | flush =>
    unfold Node.step
    dsimp only
    split <;> exact Or.inl rfl
  | flushStep pick ok =>
    refine Or.inl ?_
    show (n.advanceFlush pick ok).calls = n.calls
    unfold Node.advanceFlush
    split
    · rfl
    · split <;> rfl
    · split
      · rfl
      · split <;> rfl
    · rfl
  | _ => exact Or.inl rfl

/-- A call keeps its request. -/
theorem calls_kept (cost : CostModel) {n : Node} (op : NodeOp) {k : Nat} {c : Call} (hc : n.calls[k]? = some c) :
    ∃ c', (n.step cost op).calls[k]? = some c' ∧ c'.key = c.key ∧ c'.pool = c.pool ∧ c'.now = c.now := by
  rcases calls_step cost n op with h | ⟨key, pool, now, -, h⟩ | ⟨k', c₀, c', hc₀, h, hsame⟩
  · exact ⟨c, by rw [h]; exact hc, rfl, rfl, rfl⟩
  · refine ⟨c, ?_, rfl, rfl, rfl⟩
    rw [h, List.getElem?_append_left (List.getElem?_eq_some_iff.1 hc).1]
    exact hc
  · rw [h]
    by_cases hk : k' = k
    · subst hk
      rw [Option.some.inj (hc₀.symm.trans hc)] at hsame
      refine ⟨c', ?_, hsame.key, hsame.pool, hsame.now⟩
      rw [List.getElem?_set_self (List.getElem?_eq_some_iff.1 hc).1]
    · exact ⟨c, by rw [List.getElem?_set_ne hk]; exact hc, rfl, rfl, rfl⟩

/-- The buckets a call charges are those its refunds go through. -/
def Chained (cost : CostModel) (calls : List Call) : Prop :=
  ∀ (k : Nat) (c : Call), calls[k]? = some c → (∃ holds, c.phase = .acquiring holds) →
    c.buckets.map (fun b => (b.bucketId, b.window)) = usageBuckets cost c.key c.pool

theorem chained_start (cost : CostModel) (key : VirtualKey) (pool : String) (now : Nat)
    (h : ∃ holds, (Call.start cost key pool now).phase = .acquiring holds) :
    (Call.start cost key pool now).buckets.map (fun b => (b.bucketId, b.window)) =
      usageBuckets cost (Call.start cost key pool now).key (Call.start cost key pool now).pool := by
  obtain ⟨holds, h⟩ := h
  unfold Call.start at h ⊢
  rcases hplan : admitPlan cost key pool with e | plan
  · rw [hplan] at h
    cases h
  · dsimp only
    unfold admitPlan at hplan
    unfold usageBuckets
    rcases hchain : cost.chainFor key with missing | chain
    · rw [hchain] at hplan
      cases hplan
    · rw [hchain] at hplan
      dsimp only at hplan ⊢
      split at hplan
      · cases hplan
      · cases hplan
        rfl

theorem chained_step {n : Node} (h : Chained cost n.calls) (op : NodeOp) : Chained cost (n.step cost op).calls := by
  intro k c hc hph
  rcases calls_step cost n op with he | ⟨key, pool, now, -, he⟩ | ⟨k', c₀, c', hc₀, he, hsame⟩
  · rw [he] at hc
    exact h k c hc hph
  · rw [he] at hc
    rcases Nat.lt_or_ge k n.calls.length with hlt | hge
    · rw [List.getElem?_append_left hlt] at hc
      exact h k c hc hph
    · rw [List.getElem?_append_right hge] at hc
      have hmem := List.mem_of_getElem? hc
      rw [List.mem_singleton] at hmem
      subst hmem
      exact chained_start cost key pool now hph
  · rw [he] at hc
    by_cases hk : k' = k
    · subst hk
      rw [List.getElem?_set_self (List.getElem?_eq_some_iff.1 hc₀).1] at hc
      cases hc
      rw [hsame.buckets, hsame.key, hsame.pool]
      exact h k' c₀ hc₀ (hsame.acquiring hph)
    · rw [List.getElem?_set_ne hk] at hc
      exact h k c hc hph

/-! ## The balance -/

theorem mem_feesOf {events : List LedgerEvent} {f : Fee} :
    f ∈ feesOf events ↔ events[f.bucket]? = some (.charged f.call f.bucketId f.window) := by
  unfold feesOf
  rw [List.mem_filterMap]
  constructor
  · rintro ⟨⟨e, i⟩, hmem, he⟩
    have hget := List.mem_zipIdx_iff_getElem?.1 hmem
    cases e with
    | charged k id w =>
      cases he
      exact hget
    | accrued id w model t => cases he
    | refunded k id w => cases he
  · intro h
    exact ⟨(.charged f.call f.bucketId f.window, f.bucket), List.mem_zipIdx_iff_getElem?.2 h, rfl⟩

/-- Every cell has a billable request for each of its open fees, and every open fee is one its call's refund
looks for where it was charged. -/
structure Balanced (cost : CostModel) (r : FeeRun) : Prop where
  paid : ∀ id c, r.node.cells.lookup id = some c →
    min (openFees id c.windowStart r.fees) u64Max ≤ c.billableRequests
  known : ∀ f ∈ r.fees, ∃ c p, r.node.calls[f.call]? = some c ∧
    (usageBuckets cost c.key c.pool)[f.bucket]? = some (f.bucketId, p) ∧ budgetWindow p c.now = f.window
  chained : Chained cost r.node.calls

theorem mem_fees_step {r : FeeRun} {op : NodeOp} {f : Fee} (hf : f ∈ (r.step cost op).fees) :
    f ∈ r.fees ∨ f ∈ feesOf (r.node.events cost op) := by
  unfold FeeRun.step at hf
  dsimp only at hf
  rcases List.mem_append.1 hf with hf | hf
  · left
    split at hf
    · exact (List.mem_filter.1 hf).1
    · exact hf
  · exact Or.inr hf

variable (cost) in
theorem openFees_step_le (r : FeeRun) (op : NodeOp) (id : String) (W : Nat) :
    openFees id W (r.step cost op).fees ≤ openFees id W r.fees + chargeCount id W (r.node.events cost op) := by
  unfold FeeRun.step
  dsimp only
  rw [openFees_append, openFees_feesOf]
  refine Nat.add_le_add_right ?_ _
  split
  · exact openFees_filter_le id W _ r.fees
  · exact Nat.le_refl _

/-- A step that leaves billable counts and windows of the cells as they are. -/
theorem paid_of_same {r : FeeRun} {op : NodeOp} (hpaid : ∀ id c, r.node.cells.lookup id = some c →
      min (openFees id c.windowStart r.fees) u64Max ≤ c.billableRequests)
    (hev : ∀ id W, chargeCount id W (r.node.events cost op) = 0)
    (hsame : ∀ id c', (r.node.step cost op).cells.lookup id = some c' → ∃ c, r.node.cells.lookup id = some c ∧
      c'.windowStart = c.windowStart ∧ c'.billableRequests = c.billableRequests) :
    ∀ id c, (r.step cost op).node.cells.lookup id = some c →
      min (openFees id c.windowStart (r.step cost op).fees) u64Max ≤ c.billableRequests := by
  intro id c' hc'
  obtain ⟨c, hc, hw, hb⟩ := hsame id c' hc'
  have hle := openFees_step_le cost r op id c'.windowStart
  have h := hpaid id c hc
  rw [hev, hw] at hle
  rw [hw, hb]
  omega

/-- The lock section of an admission in own windows. -/
theorem passPaid_of_pairs {r : FeeRun} {k : Nat} {c : Call} (hb : Balanced cost r)
    (hp : r.Pairs cost (.advance k)) (hcall : r.node.calls[k]? = some c) (hphase : c.phase = .acquiring []) :
    PassPaid c.now c.buckets r.node.cells (fun id W => openFees id W r.fees) where
  paid := hb.paid
  own := fun b hb' => (hp c hcall hphase b hb').1
  anew := fun b hb' => (hp c hcall hphase b hb').2.1
  apart := fun b hb' => (hp c hcall hphase b hb').2.2

/-- What a refund finds of its fee. -/
theorem refund_finds {r : FeeRun} {k i : Nat} (hb : Balanced cost r) (hp : r.Pairs cost (.refund k i)) :
    ∃ f ∈ r.fees, f.call = k ∧ f.bucket = i ∧ openFees f.bucketId f.window r.fees ≤ u64Max ∧
      r.node.step cost (.refund k i) = { r.node with
        cells := (r.node.step cost (.refund k i)).cells } ∧
      ∀ id, (r.node.step cost (.refund k i)).cells.lookup id = (r.node.cells.lookup id).map (fun c =>
        if f.bucketId = id ∧ c.windowStart = f.window then c.refund else c) := by
  obtain ⟨f, hf, hk, hi, hopen⟩ := hp
  obtain ⟨c, p, hcall, hbucket, hw⟩ := hb.known f hf
  refine ⟨f, hf, hk, hi, hopen, ?_⟩
  have hstep : r.node.step cost (.refund k i) =
      { r.node with cells := refundBucket r.node.cells f.bucketId p c.now } := by
    unfold Node.step
    dsimp only
    rw [← hk, ← hi, hcall]
    dsimp only
    rw [hbucket]
  rw [hstep]
  refine ⟨rfl, fun id => ?_⟩
  rw [← hw]
  exact lookup_refundBucket _ _ _ _ _

theorem feesOf_refundEvents (k now : Nat) (cells : Cells) (b : String × String) :
    feesOf (Node.refundEvents k now cells b) = [] := by
  unfold Node.refundEvents
  split
  · split <;> rfl
  · rfl

/-- A rolled cell is paid for, if what it opens is. -/
theorem roll_paid (fees : Nat → Nat) {o : Option BudgetCell} {w : Nat}
    (hpaid : ∀ c, o = some c → min (fees c.windowStart) u64Max ≤ c.billableRequests)
    (hanew : (∀ c, o = some c → c.windowStart < w) → fees w = 0) :
    min (fees (BudgetCell.roll o w).windowStart) u64Max ≤ (BudgetCell.roll o w).billableRequests := by
  have hfresh : fees w = 0 → min (fees (BudgetCell.fresh w).windowStart) u64Max ≤
      (BudgetCell.fresh w).billableRequests := by
    intro hz
    have hw : (BudgetCell.fresh w).windowStart = w := rfl
    rw [hw, hz]
    exact Nat.zero_le _
  unfold BudgetCell.roll
  rcases o with _ | c
  · exact hfresh (hanew (fun c hc => by cases hc))
  · dsimp only
    split
    · rename_i hlt
      exact hfresh (hanew (fun c' hc' => by cases hc'; exact hlt))
    · exact hpaid c rfl

/-- **The step lemma.** -/
theorem balanced_step {r : FeeRun} {op : NodeOp} (hb : Balanced cost r) (hp : r.Pairs cost op) :
    Balanced cost (r.step cost op) := by
  have hkeep : ∀ f ∈ r.fees, ∃ c p, (r.step cost op).node.calls[f.call]? = some c ∧
      (usageBuckets cost c.key c.pool)[f.bucket]? = some (f.bucketId, p) ∧ budgetWindow p c.now = f.window := by
    intro f hf
    obtain ⟨c, p, hcall, hbucket, hw⟩ := hb.known f hf
    obtain ⟨c', hc', hkey, hpool, hnow⟩ := calls_kept cost op hcall
    exact ⟨c', p, hc', by rw [hkey, hpool]; exact hbucket, by rw [hnow]; exact hw⟩
  have hchained : Chained cost (r.step cost op).node.calls := chained_step hb.chained op
  -- steps that ledger no charge close or keep fees
  have hquiet : (∀ id W, chargeCount id W (r.node.events cost op) = 0) →
      (∀ id c', (r.node.step cost op).cells.lookup id = some c' → ∃ c, r.node.cells.lookup id = some c ∧
        c'.windowStart = c.windowStart ∧ c'.billableRequests = c.billableRequests) →
      feesOf (r.node.events cost op) = [] → Balanced cost (r.step cost op) := by
    intro hev hsame hnil
    refine ⟨paid_of_same hb.paid hev hsame, ?_, hchained⟩
    intro f hf
    rcases mem_fees_step hf with hf | hf
    · exact hkeep f hf
    · rw [hnil] at hf
      exact absurd hf List.not_mem_nil
  have hcells : r.node.events cost op = [] → (r.node.step cost op).cells = r.node.cells →
      Balanced cost (r.step cost op) := by
    intro hev hsame
    refine hquiet (fun id W => by rw [hev]; rfl) (fun id c' hc' => ⟨c', ?_, rfl, rfl⟩) (by rw [hev]; rfl)
    rw [← hsame]
    exact hc'
  have hmapped : r.node.events cost op = [] → ∀ f : String → BudgetCell → BudgetCell,
      (∀ id c, (f id c).windowStart = c.windowStart ∧ (f id c).billableRequests = c.billableRequests) →
      (∀ id, (r.node.step cost op).cells.lookup id = (r.node.cells.lookup id).map (f id)) →
      Balanced cost (r.step cost op) := by
    intro hev f hf hmap
    refine hquiet (fun id W => by rw [hev]; rfl) (fun id c' hc' => ?_) (by rw [hev]; rfl)
    rw [hmap] at hc'
    obtain ⟨c, hc, rfl⟩ := Option.map_eq_some_iff.1 hc'
    exact ⟨c, hc, (hf id c).1, (hf id c).2⟩
  have heff := r.node.effect cost op
  generalize hn : r.node.step cost op = n' at *
  generalize hev : r.node.events cost op = ev at *
  cases heff with
  | idle hc husage hflush => exact hcells rfl hc
  | swept shard now hop hc hstore hflush =>
    refine hquiet (fun id W => rfl) (fun id c' hc' => ?_) rfl
    rw [hc, lookup_sweepShard] at hc'
    split at hc'
    · obtain ⟨c, hfc, rfl⟩ := Option.map_eq_some_iff.1 hc'
      exact ⟨c, (Option.filter_eq_some_iff.1 hfc).1, rfl, rfl⟩
    · exact ⟨c', hc', rfl, rfl⟩
  | locked k c hop hcall hphase hc hstore hflush =>
    subst hop
    have hpass := passPaid_of_pairs hb hp hcall hphase
    rcases hr : (checkAndCharge cost c.buckets c.now r.node.cells).1 with _ | e
    · rw [hr, if_pos rfl] at hev
      rw [(checkAndCharge_none hr).2] at hc
      refine ⟨?_, ?_, hchained⟩
      · intro id c' hc'
        have hl : n'.cells.lookup id = some c' := by
          rw [← hn]
          exact hc'
        rw [hc] at hl
        have hle := openFees_step_le cost r (.advance k) id c'.windowStart
        have hpaid := paid_charges (k := k) hpass id c' hl
        rw [hev] at hle
        omega
      · intro f hf
        rcases mem_fees_step hf with hf | hf
        · exact hkeep f hf
        · -- a fee just charged, in the bucket's own window
          rw [hev, mem_feesOf, chargeEvents_own hpass, List.getElem?_map, Option.map_eq_some_iff] at hf
          obtain ⟨b, hget, he⟩ := hf
          obtain ⟨hk, hid, hw⟩ := LedgerEvent.charged.inj he
          obtain ⟨c', hc', hkey, hpool, hnow⟩ := calls_kept cost (.advance k) hcall
          refine ⟨c', b.window, by rw [← hk]; exact hc', ?_, by rw [hnow]; exact hw⟩
          rw [hkey, hpool, ← hb.chained k c hcall ⟨[], hphase⟩, List.getElem?_map, hget, Option.map_some, hid]
    · rw [hr, if_neg (by simp)] at hev hquiet
      rw [(checkAndCharge_some hr).2] at hc
      refine hquiet (fun id W => rfl) (fun id c' hc' => ⟨c', ?_, rfl, rfl⟩) rfl
      rw [← hc]
      exact hc'
  | accrued key pool i model tokens now b hop hbk hc hstore hflush =>
    subst hop
    have hanew := hp b hbk
    refine ⟨?_, ?_, hchained⟩
    · intro id c' hc'
      have hl : n'.cells.lookup id = some c' := by
        rw [← hn]
        exact hc'
      have hle := openFees_step_le cost r (.accrue key pool i model tokens now) id c'.windowStart
      rw [hev] at hle
      have hzero : chargeCount id c'.windowStart [.accrued b.1
        (BudgetCell.roll (r.node.cells.lookup b.1) (budgetWindow b.2 now)).windowStart model tokens] = 0 := rfl
      rw [hzero, Nat.add_zero] at hle
      rw [hc, lookup_accrueBucket] at hl
      by_cases hid : b.1 = id
      · rw [if_pos hid] at hl
        cases hl
        subst hid
        have hroll := roll_paid (fun W => openFees b.1 W r.fees) (fun c hc => hb.paid b.1 c hc) hanew
        generalize BudgetCell.roll (r.node.cells.lookup b.1) (budgetWindow b.2 now) = cell at *
        show min _ u64Max ≤ cell.billableRequests
        have hws : (cell.credit model tokens now).windowStart = cell.windowStart := rfl
        rw [hws] at hle ⊢
        omega
      · rw [if_neg hid] at hl
        have := hb.paid id c' hl
        omega
    · intro f hf
      rcases mem_fees_step hf with hf | hf
      · exact hkeep f hf
      · rw [hev] at hf
        exact absurd hf List.not_mem_nil
  | refunded k c i b hop hcall hbk hc hstore hflush =>
    subst hop
    obtain ⟨f, hf, hk, hi, hopen, -, hlookup⟩ := refund_finds hb hp
    have hnil : feesOf (r.node.events cost (.refund k i)) = [] := by
      rw [hev]
      exact feesOf_refundEvents k c.now r.node.cells b
    refine ⟨?_, ?_, hchained⟩
    · intro id c' hc'
      have hl : ((r.node.cells.lookup id).map (fun c =>
          if f.bucketId = id ∧ c.windowStart = f.window then c.refund else c)) = some c' :=
        (hlookup id).symm.trans hc'
      obtain ⟨c₀, hc₀, rfl⟩ := Option.map_eq_some_iff.1 hl
      have hpaid := hb.paid id c₀ hc₀
      have hfees : (r.step cost (.refund k i)).fees =
          r.fees.filter (fun f' => ¬ (f'.call = f.call ∧ f'.bucket = f.bucket)) := by
        unfold FeeRun.step
        dsimp only
        rw [hnil, List.append_nil, hk, hi]
      rw [hfees]
      by_cases hown : f.bucketId = id ∧ c₀.windowStart = f.window
      · rw [if_pos hown]
        obtain ⟨rfl, hw⟩ := hown
        have hclose := openFees_close hf
        have hws : c₀.refund.windowStart = f.window := hw
        rw [hws]
        rw [hw] at hpaid
        show _ ≤ c₀.billableRequests - 1
        omega
      · rw [if_neg hown]
        have hle := openFees_filter_le id c₀.windowStart
          (fun f' => decide (¬ (f'.call = f.call ∧ f'.bucket = f.bucket))) r.fees
        omega
    · intro f' hf'
      rcases mem_fees_step hf' with hf' | hf'
      · exact hkeep f' hf'
      · rw [hnil] at hf'
        exact absurd hf' List.not_mem_nil
  | started hph hc hstore hflush => exact hcells rfl hc
  | read shard snaps hph hc hstore hflush =>
    refine hmapped rfl (fun id c => cleaned id shard c) (fun id c => ?_) (fun id => ?_)
    · unfold cleaned
      split <;> exact ⟨rfl, rfl⟩
    · rw [hc]
      exact lookup_cleanShard _ _ _
  | readAll shard snaps hph hlast hc hstore hflush => exact hcells rfl hc
  | wrote pick ok s snaps hop hph hpick hc hstore hflush => exact hcells rfl hc
  | settled s ok snaps hph hc hstore hflush =>
    refine hmapped rfl (fun id c => if s.bucketId = id ∧ c.windowStart = s.window then
      if ok then c.acknowledge s else { c with dirty := true } else c) (fun id c => ?_) (fun id => ?_)
    · split
      · split <;> exact ⟨rfl, rfl⟩
      · exact ⟨rfl, rfl⟩
    · rw [hc]
      exact lookup_settle _ _ _ _
  | ended hph hc hstore hflush => exact hcells rfl hc

theorem balanced_after {n : Node} (hn : n.calls = []) {ops : List NodeOp}
    (hp : FeeRun.PairsAlong cost n ops) : Balanced cost (FeeRun.after cost n ops) := by
  refine Run.Along.invariant (I := fun ops => Balanced cost (FeeRun.after cost n ops)) ?_ ?_ hp
  · refine ⟨fun id c _ => Nat.zero_le _, fun f hf => absurd hf List.not_mem_nil, ?_⟩
    intro k c hc
    have hcalls : (FeeRun.after cost n []).node.calls = [] := hn
    rw [hcalls] at hc
    cases hc
  · intro pre op ih hop
    rw [FeeRun.after_snoc]
    exact balanced_step ih hop

/-- **A refund undoes what its admission charged.** It is of a fee the call's admission charged to a cell;
while that cell is there it has one billable request less afterwards, and no other cell changes. -/
theorem refund_undoes_charge (cost : CostModel) (n : Node) (hn : n.calls = []) (pre : List NodeOp) (k i : Nat)
    (hp : FeeRun.PairsAlong cost n (pre ++ [.refund k i])) :
    let before := FeeRun.after cost n pre
    let after := FeeRun.after cost n (pre ++ [.refund k i])
    ∃ f ∈ before.fees, f.call = k ∧ f.bucket = i ∧
      (∀ c, before.node.cellOf f.bucketId f.window = some c →
        ∃ c', after.node.cellOf f.bucketId f.window = some c' ∧
          c'.billableRequests + 1 = c.billableRequests ∧ c'.requests = c.requests) ∧
      ∀ id W, ¬ (f.bucketId = id ∧ f.window = W) → after.node.cellOf id W = before.node.cellOf id W := by
  intro before after
  obtain ⟨hpre, hop⟩ := Run.Along.snoc_iff.1 hp
  have hb : Balanced cost before := balanced_after hn hpre
  obtain ⟨f, hf, hk, hi, hopen, -, hlookup⟩ := refund_finds hb hop
  have hafter : ∀ id W, after.node.cellOf id W = (before.node.cellOf id W).map (fun c =>
      if f.bucketId = id ∧ c.windowStart = f.window then c.refund else c) := by
    intro id W
    have hnode : after.node = before.node.step cost (.refund k i) := by
      show (FeeRun.after cost n (pre ++ [.refund k i])).node = _
      rw [FeeRun.after_snoc]
      rfl
    unfold Node.cellOf
    rw [hnode, hlookup]
    refine held_map (fun c => ?_) _
    split <;> rfl
  refine ⟨f, hf, hk, hi, ?_, ?_⟩
  · intro c hc
    obtain ⟨hl, hw⟩ := held_eq_some.1 hc
    refine ⟨c.refund, ?_, ?_, rfl⟩
    · rw [hafter, hc, Option.map_some, if_pos ⟨rfl, hw⟩]
    · -- the fee itself is open, so the cell has a billable request for it
      have hone : 1 ≤ openFees f.bucketId f.window before.fees := by
        unfold openFees
        exact List.countP_pos_iff.2 ⟨f, hf, by simp⟩
      have hpaid := hb.paid f.bucketId c hl
      rw [hw] at hpaid
      show c.billableRequests - 1 + 1 = c.billableRequests
      unfold u64Max at hpaid hopen
      omega
  · intro id W hne
    rw [hafter]
    rcases hc : before.node.cellOf id W with _ | c
    · rfl
    · obtain ⟨-, hw⟩ := held_eq_some.1 hc
      rw [Option.map_some, if_neg (fun h => hne ⟨h.1, h.2.symm.trans hw⟩)]

/-- An admission leaves one open fee for every bucket its refund will go through. -/
theorem fees_of_admission {r : FeeRun} {k : Nat} {c : Call} (hb : Balanced cost r)
    (hp : r.Pairs cost (.advance k)) (hcall : r.node.calls[k]? = some c) (hphase : c.phase = .acquiring [])
    (hok : (checkAndCharge cost c.buckets c.now r.node.cells).1 = none) {i : Nat} {b : String × String}
    (hbucket : (usageBuckets cost c.key c.pool)[i]? = some b) :
    (⟨k, i, b.1, budgetWindow b.2 c.now⟩ : Fee) ∈ (r.step cost (.advance k)).fees := by
  have hpass := passPaid_of_pairs hb hp hcall hphase
  have hev : r.node.events cost (.advance k) = chargeEvents k c.now r.node.cells c.buckets := by
    unfold Node.events
    dsimp only
    rw [hcall]
    dsimp only
    rw [if_pos ⟨hphase, hok⟩]
  rw [← hb.chained k c hcall ⟨[], hphase⟩, List.getElem?_map, Option.map_eq_some_iff] at hbucket
  obtain ⟨b', hget, rfl⟩ := hbucket
  unfold FeeRun.step
  refine List.mem_append_right _ (mem_feesOf.2 ?_)
  rw [hev, chargeEvents_own hpass, List.getElem?_map, hget]
  rfl

/-! ## A late admission -/

namespace DayGroup

/-- The next day's request comes first; the request pinned to the day before is charged to its cell. -/
def lateAdmission : FeeRun := FeeRun.after costModel Node.new (request 0 86500 ++ request 1 100)

end DayGroup

/-- **A late fee is not refunded.** A request pinned to the day that ended is charged to the next day's cell;
its refund looks for the cell of its own day and finds none. -/
theorem late_fee_not_refunded :
    (⟨1, 1, "group:a@day", 86400⟩ : Fee) ∈ DayGroup.lateAdmission.fees ∧
      (DayGroup.lateAdmission.node.cellOf "group:a@day" 86400).map BudgetCell.billableRequests = some 2 ∧
      ((DayGroup.lateAdmission.step DayGroup.costModel (.refund 1 1)).node.cellOf "group:a@day" 86400).map
        BudgetCell.billableRequests = some 2 := by
  decide +kernel

instance (n : Node) (fees : List Fee) (id : String) (W : Nat) : Decidable (OpensAnew n fees id W) := by
  unfold OpensAnew
  infer_instance

instance (cost : CostModel) (r : FeeRun) (op : NodeOp) : Decidable (r.Pairs cost op) := by
  unfold FeeRun.Pairs
  cases op <;> infer_instance

/-- Two requests of a day; the first one's fee is taken back from the cell both were charged to. -/
theorem refund_undoes_charge_day :
    ∃ f ∈ (FeeRun.after DayGroup.costModel Node.new (DayGroup.request 0 100 ++ DayGroup.request 1 200)).fees,
      f.call = 0 ∧ f.bucket = 1 ∧
      ∀ id W, ¬ (f.bucketId = id ∧ f.window = W) →
        (FeeRun.after DayGroup.costModel Node.new
          ((DayGroup.request 0 100 ++ DayGroup.request 1 200) ++ [.refund 0 1])).node.cellOf id W =
        (FeeRun.after DayGroup.costModel Node.new
          (DayGroup.request 0 100 ++ DayGroup.request 1 200)).node.cellOf id W := by
  obtain ⟨f, hf, hk, hi, -, hother⟩ := refund_undoes_charge DayGroup.costModel Node.new rfl
    (DayGroup.request 0 100 ++ DayGroup.request 1 200) 0 1
    (Run.Along.of_checks (FeeRun.step DayGroup.costModel)
      (P := fun r op => r.Pairs DayGroup.costModel op) (s := ⟨Node.new, []⟩) (by decide +kernel))
  exact ⟨f, hf, hk, hi, hother⟩

end Busbar
