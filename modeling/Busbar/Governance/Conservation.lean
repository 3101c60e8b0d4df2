import Busbar.Governance.Mirror

/-!
# Write-behind conserves the ledger

As long as a bucket's cell stays in its window, no counter reaches `i64::MAX` and the store keeps the row,
the durable row and the unflushed difference give back everything ledgered to the (bucket, window), whatever
the interleaving and whichever store calls fail.

* `conservation`: the statement over every run.
* `conservation_gaps`: a written difference that is not acknowledged yet stands on both sides, and a row the
  store's sweep drops is lost.
-/

namespace Busbar

/-- The counters the signed delta domain can carry. -/
def TierTokens.below (t : TierTokens) : Bool :=
  decide ((t.input : Int) < i64Max ∧ (t.output : Int) < i64Max ∧ (t.cacheRead : Int) < i64Max ∧
    (t.cacheWrite : Int) < i64Max)

def BudgetCell.below (c : BudgetCell) : Bool :=
  decide ((c.requests : Int) < i64Max ∧ (c.billableRequests : Int) < i64Max) &&
    c.models.rows.all (fun e => e.2.cur.below)

def UsageLedger.below (u : UsageLedger) : Bool :=
  decide ((u.requests : Int) < i64Max ∧ (u.billableRequests : Int) < i64Max) &&
    u.models.all (fun m => m.tokens.below)

theorem get_below {t : TierTokens} (h : t.below = true) (tier : Tier) : (t.get tier : Int) < i64Max := by
  unfold TierTokens.below at h
  rw [decide_eq_true_eq] at h
  cases tier
  · exact h.1
  · exact h.2.1
  · exact h.2.2.1
  · exact h.2.2.2

theorem cur_below {c : BudgetCell} (h : c.below = true) (m : Meter) : (c.cur m : Int) < i64Max := by
  unfold BudgetCell.below at h
  rw [Bool.and_eq_true, decide_eq_true_eq, List.all_eq_true] at h
  cases m with
  | requests => exact h.1.1
  | billable => exact h.1.2
  | tokens model tier =>
    show ((modelOf c.models model).cur.get tier : Int) < i64Max
    unfold modelOf
    rcases hl : c.models.lookup model with _ | mc
    · rw [Option.getD_none, get_zero]
      decide
    · exact get_below (h.2 _ (Table.lookup_eq_some.1 hl)) tier

theorem meter_below {u : UsageLedger} (h : u.below = true) (m : Meter) : (u.meter m : Int) < i64Max := by
  unfold UsageLedger.below at h
  rw [Bool.and_eq_true, decide_eq_true_eq, List.all_eq_true] at h
  cases m with
  | requests => exact h.1.1
  | billable => exact h.1.2
  | tokens model tier =>
    unfold UsageLedger.meter UsageLedger.tokensFor
    dsimp only
    rcases hf : u.models.find? (fun m => m.model = model) with _ | e
    · rw [hf, Option.map_none, Option.getD_none, get_zero]
      decide
    · rw [hf]
      exact get_below (h.2 e (List.mem_of_find?_eq_some hf)) tier

instance (e : LedgerEvent) (id : String) (W : Nat) : Decidable (e.IsOf id W) := by
  unfold LedgerEvent.IsOf
  cases e <;> infer_instance

namespace Node

/-- The cell stays in the window: once there it is there after the step, and what the step ledgers to the
window is in it. -/
def StaysResident (cost : CostModel) (id : String) (W : Nat) (n : Node) (op : NodeOp) : Prop :=
  ((n.cellOf id W).isSome → ((n.step cost op).cellOf id W).isSome) ∧
    ∀ e ∈ n.events cost op, e.IsOf id W → ((n.step cost op).cellOf id W).isSome

/-- No counter of the cell or the row reaches `i64::MAX`. -/
def CountersBelow (id : String) (W : Nat) (n : Node) : Prop :=
  (n.cellOf id W).all BudgetCell.below = true ∧ (n.store.getUsage id W).below = true

/-- If the step is a store call that sweeps, the sweep spares rows of the window. -/
def StoreKeeps (W : Nat) (n : Node) (op : NodeOp) : Prop :=
  n.writes op = true → (n.store.usageSweepTicker + 1) % sweepInterval = 0 →
    n.store.clock < satAdd W maxRetentionSecs

instance (cost : CostModel) (id : String) (W : Nat) (n : Node) (op : NodeOp) :
    Decidable (StaysResident cost id W n op) := by
  unfold StaysResident
  infer_instance

instance (id : String) (W : Nat) (n : Node) : Decidable (CountersBelow id W n) := by
  unfold CountersBelow
  infer_instance

instance (W : Nat) (n : Node) (op : NodeOp) : Decidable (StoreKeeps W n op) := by
  unfold StoreKeeps
  infer_instance

end Node

namespace NodeRun

variable (cost : CostModel) (id : String) (W : Nat) (n : Node)

/-- The cell stays in the window and its counters stay small, all along the run. -/
def ResidentAlong (ops : List NodeOp) : Prop :=
  Run.Along (fun pre op => (after cost n pre).node.StaysResident cost id W op ∧
    ((after cost n pre).node.step cost op).CountersBelow id W) ops

/-- The store keeps the row, all along the run. -/
def RowKeptAlong (ops : List NodeOp) : Prop :=
  Run.Along (fun pre op => (after cost n pre).node.StoreKeeps W op) ops

end NodeRun

theorem below_of_counters {id : String} {W : Nat} {n : Node} (h : n.CountersBelow id W) (m : Meter) :
    curOf (n.cellOf id W) m < i64Max ∧ (n.row id W m : Int) < i64Max := by
  obtain ⟨hcell, hrow⟩ := h
  refine ⟨?_, meter_below hrow m⟩
  rcases hc : n.cellOf id W with _ | c
  · exact (by decide : (0 : Int) < i64Max)
  · rw [hc, Option.all_some] at hcell
    have hb := cur_below hcell m
    exact hb

theorem carries_of_keeps {cost : CostModel} {id : String} {W : Nat} {n : Node} {op : NodeOp}
    (hstay : n.StaysResident cost id W op) (hbelow : (n.step cost op).CountersBelow id W)
    (hkeep : n.StoreKeeps W op) : n.Carries cost id W op where
  leaves := fun h => Or.inl (hstay.1 h)
  lands := hstay.2
  spares := hkeep
  below := below_of_counters hbelow

/-- **Write-behind conserves the ledger.** -/
theorem conservation (cost : CostModel) (id : String) (W : Nat) (n : Node) (hn : n.Boots id W)
    (ops : List NodeOp) (hres : NodeRun.ResidentAlong cost id W n ops)
    (hkept : NodeRun.RowKeptAlong cost W n ops) (m : Meter) :
    ((NodeRun.after cost n ops).node.row id W m : Int) +
        (curOf ((NodeRun.after cost n ops).node.cellOf id W) m -
          ackedOf ((NodeRun.after cost n ops).node.cellOf id W) m) =
      tally id W m (NodeRun.after cost n ops).history + (NodeRun.after cost n ops).node.underWay id W m := by
  refine (mirrored_after (mirrored_boot hn) ?_).conserved m
  intro pre op post he
  obtain ⟨hstay, hbelow⟩ := hres pre op post he
  exact carries_of_keeps hstay hbelow (hkept pre op post he)

/-! ## A run that has everything, and what stands outside -/

namespace LoneKey

/-- No groups and no rates. -/
def cost : CostModel := CostModel.resolveParts none 0 Registry.empty

def key : VirtualKey where
  id := "vk_a"
  generationHash := "g"
  name := "a"
  allowedScopes := none
  enabled := true
  createdAt := 0
  group := none
  labels := []
  expiresAt := none
  deletedAt := none
  revision := 1

/-- A store whose last 255 `add_usage` calls were for other buckets. -/
def busyStore (clock : Nat) : MemoryStore :=
  { (List.range 255).foldl (fun st _ => st.addUsage "vk_b" 0 ⟨1, 1, []⟩) MemoryStore.new with clock := clock }

def node (store : MemoryStore) : Node := { Node.new with store := store }

/-- One admission and the start of a flush, up to the store call. -/
def admitAndWrite (now : Nat) (ok : Bool) : List NodeOp :=
  [.begin key "" now, .advance 0, .flush] ++ List.replicate 65 (.flushStep 0 true) ++ [.flushStep 0 ok]

/-- A failed store call, an accrual and a refund before the next flush, which goes through. -/
def retried (now : Nat) : List NodeOp :=
  admitAndWrite now false ++ [.accrue key "" 0 "m" ⟨3, 1, 0, 0⟩ now, .flushStep 0 true, .flushStep 0 true,
    .refund 0 0, .flush] ++ List.replicate 65 (.flushStep 0 true) ++ [.flushStep 0 true]

theorem boots (st : MemoryStore) (h : st.usage.lookup ("vk_a", 0) = none) : (node st).Boots "vk_a" 0 :=
  ⟨rfl, rfl, h⟩

theorem residentAlong {st : MemoryStore} {ops : List NodeOp}
    (h : Run.checks (NodeRun.step cost) (fun r op => r.node.StaysResident cost "vk_a" 0 op ∧
      (r.node.step cost op).CountersBelow "vk_a" 0) (NodeRun.start (node st)) ops = true) :
    NodeRun.ResidentAlong cost "vk_a" 0 (node st) ops := Run.Along.of_checks _ h

theorem rowKeptAlong {st : MemoryStore} {ops : List NodeOp}
    (h : Run.checks (NodeRun.step cost) (fun r op => r.node.StoreKeeps 0 op) (NodeRun.start (node st)) ops =
      true) : NodeRun.RowKeptAlong cost 0 (node st) ops := Run.Along.of_checks _ h


end LoneKey

/-- A written difference stands on both sides until it is acknowledged; and the store's sweep drops the
all-time row, which the node itself keeps for good. -/
theorem conservation_gaps :
    (∃ ops, (LoneKey.node MemoryStore.new).Boots "vk_a" 0 ∧
      NodeRun.ResidentAlong LoneKey.cost "vk_a" 0 (LoneKey.node MemoryStore.new) ops ∧
      NodeRun.RowKeptAlong LoneKey.cost 0 (LoneKey.node MemoryStore.new) ops ∧
      let r := NodeRun.after LoneKey.cost (LoneKey.node MemoryStore.new) ops
      (r.node.row "vk_a" 0 .requests : Int) +
        (curOf (r.node.cellOf "vk_a" 0) .requests - ackedOf (r.node.cellOf "vk_a" 0) .requests) ≠
          tally "vk_a" 0 .requests r.history) ∧
    (∃ ops, (LoneKey.node (LoneKey.busyStore 2678400)).Boots "vk_a" 0 ∧
      NodeRun.ResidentAlong LoneKey.cost "vk_a" 0 (LoneKey.node (LoneKey.busyStore 2678400)) ops ∧
      let r := NodeRun.after LoneKey.cost (LoneKey.node (LoneKey.busyStore 2678400)) ops
      r.node.flush.inFlight.length = 0 ∧
      (r.node.row "vk_a" 0 .requests : Int) +
        (curOf (r.node.cellOf "vk_a" 0) .requests - ackedOf (r.node.cellOf "vk_a" 0) .requests) ≠
          tally "vk_a" 0 .requests r.history) := by
  refine ⟨⟨LoneKey.admitAndWrite 100 true, LoneKey.boots _ rfl, LoneKey.residentAlong ?_,
    LoneKey.rowKeptAlong ?_, ?_⟩, ⟨LoneKey.admitAndWrite 2678400 true ++ [.flushStep 0 true, .flushStep 0 true],
    LoneKey.boots _ ?_, LoneKey.residentAlong ?_, ?_⟩⟩
  all_goals decide +kernel

/-- A run with a failed store call, an accrual and a refund under way: the row has everything at its end. -/
theorem conservation_retried :
    let r := NodeRun.after LoneKey.cost (LoneKey.node MemoryStore.new) (LoneKey.retried 100)
    (r.node.row "vk_a" 0 .billable : Int) +
        (curOf (r.node.cellOf "vk_a" 0) .billable - ackedOf (r.node.cellOf "vk_a" 0) .billable) =
      tally "vk_a" 0 .billable r.history + r.node.underWay "vk_a" 0 .billable :=
  conservation LoneKey.cost "vk_a" 0 (LoneKey.node MemoryStore.new) (LoneKey.boots _ rfl)
    (LoneKey.retried 100) (LoneKey.residentAlong (by decide +kernel)) (LoneKey.rowKeptAlong (by decide +kernel))
    .billable

end Busbar
