import Busbar.Cost.Projection
import Busbar.Governance.Eviction
import Busbar.Lib.WindowCap
import Mathlib.Data.List.Pairwise

/-!
# Request caps over runs

A request cap holds for every window of its bucket, whatever admissions, accruals, refunds, flushes and sweeps run beside
each other: the check and the charge of an admission are one lock section, so the cell's counter never passes the cap, and
what the counter forgets was charged to windows that no admission comes back to.

* `CostModel.CapsRequests`: the cap of an id, and that a chain comes through the id once at most.
* `capsRequests_of_config`: so it is for a configuration with acyclic groups and distinct bucket ids.
* `charge_pass`: what the charges of an admission do to one id.
* `requests_capped`: the cap in every window of every run.
-/

namespace Busbar

open WindowCap

/-- What a request cap sees of a cell. -/
def counterOf (o : Option BudgetCell) : Option Counter := o.map fun c => ⟨c.windowStart, c.requests⟩

theorem counterOf_roll (o : Option BudgetCell) (w : Nat) :
    (Counter.roll (counterOf o) w).start = (BudgetCell.roll o w).windowStart ∧
      (Counter.roll (counterOf o) w).used = (BudgetCell.roll o w).requests := by
  cases o with
  | none => exact ⟨rfl, rfl⟩
  | some c =>
    unfold counterOf Counter.roll BudgetCell.roll
    dsimp only [Option.map_some]
    by_cases hlt : c.windowStart < w
    · rw [if_pos hlt, if_pos hlt]
      exact ⟨rfl, rfl⟩
    · rw [if_neg hlt, if_neg hlt]
      exact ⟨rfl, rfl⟩

theorem counterOf_map {f : BudgetCell → BudgetCell}
    (hf : ∀ c, (f c).windowStart = c.windowStart ∧ (f c).requests = c.requests) (o : Option BudgetCell) :
    counterOf (o.map f) = counterOf o := by
  cases o with
  | none => rfl
  | some c =>
    unfold counterOf
    simp only [Option.map_some, (hf c).1, (hf c).2]

/-! ## The bucket of a configuration -/

/-- Every bucket with the id caps its requests at `cap` in windows of the word, and a chain has one such bucket at most. Keys
whose own bucket has the id are left aside. -/
structure CostModel.CapsRequests (cost : CostModel) (id window : String) (cap : Nat) : Prop where
  bucket : ∀ key chain, key.id ≠ id → cost.chainFor key = .ok chain → ∀ b ∈ chain.buckets, b.bucketId = id →
    b.requestsCap = some cap ∧ b.window = window
  once : ∀ key chain, key.id ≠ id → cost.chainFor key = .ok chain →
    chain.buckets.countP (fun b => b.bucketId = id) ≤ 1
  enforced : cost.bucketEnforcesACap id = true

section Config

variable (rates : Option (Table String RateNanos)) (fee : Int) {groups : Table String GroupCfg}

open CostModel

/-- **A checked configuration caps each of its buckets.** The groups' parents run into no cycle, and the bucket ids are
distinct. -/
theorem capsRequests_of_config (hacyclic : ∀ start, Walk.Acyclic (parentOf groups) start)
    (hids : (((projectGroups groups).flatMap GroupRuntime.buckets).map GroupBucket.bucketId).Nodup) {g : GroupRuntime}
    (hg : g ∈ projectGroups groups) {b : GroupBucket} (hb : b ∈ g.buckets) {cap : Nat} (hcap : b.requestsCap = some cap) :
    (resolveParts rates fee groups).CapsRequests b.bucketId b.window cap := by
  have hmember : ∀ g' ∈ projectGroups groups, ∀ b' ∈ g'.buckets, b'.bucketId = b.bucketId → b' = b := by
    intro g' hg' b' hb' he
    exact List.inj_on_of_nodup_map hids (List.mem_flatMap.2 ⟨g', hg', hb'⟩) (List.mem_flatMap.2 ⟨g, hg, hb⟩) he
  have hruntime : ∀ (chain : Chain), ∀ g' ∈ chain.runtimes (resolveParts rates fee groups),
      g' ∈ projectGroups groups := by
    intro chain g' hg'
    obtain ⟨i, -, hi⟩ := List.mem_filterMap.1 hg'
    exact List.mem_of_getElem? hi
  refine ⟨fun key chain hkey hchain b' hb' he => ?_, fun key chain hkey hchain => ?_, ?_⟩
  · obtain ⟨-, hbuckets⟩ := chainFor_ok hchain
    rw [hbuckets] at hb'
    rcases List.mem_cons.1 hb' with rfl | hb'
    · exact absurd he hkey
    · obtain ⟨g', hg', hb'⟩ := List.mem_flatMap.1 hb'
      obtain ⟨gb, hgb, rfl⟩ := List.mem_map.1 hb'
      obtain rfl := hmember g' (hruntime chain g' hg') gb hgb he
      exact ⟨hcap, rfl⟩
  · obtain ⟨hnames, hbuckets⟩ := chainFor_ok hchain
    have hrun : (chain.runtimes (resolveParts rates fee groups)).Nodup := by
      refine List.Nodup.of_map GroupRuntime.name ?_
      rw [hnames]
      exact Walk.nodup_of_acyclic (hacyclic key.group) _
    -- the ids of the chain's groups are distinct, as those of all groups are
    rw [List.map_flatMap, List.nodup_flatMap] at hids
    have hchainIds : ((chain.runtimes (resolveParts rates fee groups)).flatMap
        fun g => g.buckets.map GroupBucket.bucketId).Nodup := by
      refine List.nodup_flatMap.2 ⟨fun g' hg' => hids.1 g' (hruntime chain g' hg'), ?_⟩
      have hsymm : Std.Symm (Function.onFun List.Disjoint fun g : GroupRuntime => g.buckets.map GroupBucket.bucketId) :=
        ⟨fun _ _ hd => List.Disjoint.symm hd⟩
      refine hrun.imp_of_mem fun {g₁ g₂} h₁ h₂ hne => ?_
      exact hids.2.forall (hruntime chain g₁ h₁) (hruntime chain g₂ h₂) hne
    have hcount : chain.buckets.countP (fun b' => b'.bucketId = b.bucketId) =
        (chain.buckets.map ChainBucket.bucketId).count b.bucketId := by
      rw [List.count_eq_countP, List.countP_map]
      exact List.countP_congr fun b' _ => by simp
    have hmap : chain.buckets.map ChainBucket.bucketId = key.id ::
        (chain.runtimes (resolveParts rates fee groups)).flatMap fun g => g.buckets.map GroupBucket.bucketId := by
      rw [hbuckets, List.map_cons, List.map_flatMap]
      simp only [List.map_map]
      rfl
    rw [hcount, hmap, List.count_cons_of_ne hkey]
    exact List.nodup_iff_count_le_one.1 hchainIds b.bucketId
  · exact enforces_resolveParts rates fee groups b ⟨g, hg, hb⟩ (by simp [GroupBucket.capped, hcap])

end Config

/-! ## The charge pass -/

variable {cost : CostModel} {id window : String} {cap now : Nat} {cells : Cells}

theorem chargeCount_append (id : String) (W : Nat) (events events' : List LedgerEvent) :
    chargeCount id W (events ++ events') = chargeCount id W events + chargeCount id W events' := List.countP_append

/-- Buckets with other ids leave an id alone. -/
theorem charge_pass_other (k now : Nat) {buckets : List ChainBucket} (h : ∀ b ∈ buckets, b.bucketId ≠ id) (W : Nat)
    (cells : Cells) : chargeCount id W (chargeEvents k now cells buckets) = 0 := by
  induction buckets generalizing cells with
  | nil => rfl
  | cons b bs ih =>
    have hne : b.bucketId ≠ id := h b List.mem_cons_self
    rw [chargeEvents, chargeCount, List.countP_cons_of_neg (by simp [hne])]
    exact ih (fun b' hb' => h b' (List.mem_cons_of_mem _ hb')) _

/-- **The charges of an admission**, as one id sees them: its one bucket charges the cell that it finds. -/
theorem charge_pass (k now : Nat) {buckets : List ChainBucket} (honce : buckets.countP (fun b => b.bucketId = id) ≤ 1)
    {b : ChainBucket} (hb : b ∈ buckets) (hid : b.bucketId = id) (W : Nat) (cells : Cells) :
    (buckets.foldl (chargeBucket now) cells).lookup id =
        some ((BudgetCell.roll (cells.lookup id) (budgetWindow b.window now)).charge now) ∧
      chargeCount id W (chargeEvents k now cells buckets) =
        if (BudgetCell.roll (cells.lookup id) (budgetWindow b.window now)).windowStart = W then 1 else 0 := by
  induction buckets generalizing cells with
  | nil => cases hb
  | cons b' bs ih =>
    rw [List.foldl_cons, chargeEvents, chargeCount, List.countP_cons]
    by_cases hhead : b'.bucketId = id
    · -- the rest of the chain has other ids
      rw [List.countP_cons_of_pos (by simpa using hhead)] at honce
      have hrest : ∀ b₂ ∈ bs, b₂.bucketId ≠ id := by
        intro b₂ hb₂ he
        have hpos := List.countP_pos_iff (p := fun b : ChainBucket => decide (b.bucketId = id)) |>.2
          ⟨b₂, hb₂, decide_eq_true he⟩
        omega
      have hsame : b = b' := by
        rcases List.mem_cons.1 hb with hb | hb
        · exact hb
        · exact absurd hid (hrest b hb)
      have hzero := charge_pass_other k now hrest W (chargeBucket now cells b')
      unfold chargeCount at hzero
      rw [lookup_chargeBuckets_of_notMem hrest, lookup_chargeBucket, if_pos hhead, hzero, hsame]
      refine ⟨rfl, ?_⟩
      simp only [hhead, true_and, Nat.zero_add, decide_eq_true_eq]
    · have hmem : b ∈ bs := by
        rcases List.mem_cons.1 hb with rfl | hb
        · exact absurd hid hhead
        · exact hb
      rw [List.countP_cons_of_neg (by simpa using hhead)] at honce
      obtain ⟨hlookup, hcount⟩ := ih honce hmem (chargeBucket now cells b')
      have hkeep : (chargeBucket now cells b').lookup id = cells.lookup id := by
        rw [lookup_chargeBucket, if_neg hhead]
      rw [hkeep] at hlookup hcount
      unfold chargeCount at hcount
      refine ⟨hlookup, ?_⟩
      rw [hcount]
      simp [hhead]

/-- A bucket that does not refuse has room in the cell that it finds. -/
theorem room_of_unblocked {b : ChainBucket} (hcap : b.requestsCap = some cap) (hfits : cap < u64Max)
    (h : b.blocked cost now cells = none) :
    (BudgetCell.roll (cells.lookup b.bucketId) (budgetWindow b.window now)).requests + 1 ≤ cap := by
  have hused : (b.used cost now cells).1 =
      (BudgetCell.roll (cells.lookup b.bucketId) (budgetWindow b.window now)).requests := by
    unfold ChainBucket.used BudgetCell.roll
    cases cells.lookup b.bucketId with
    | none => rfl
    | some c =>
      dsimp only
      by_cases hle : budgetWindow b.window now ≤ c.windowStart
      · rw [if_pos hle, if_neg (Nat.not_lt.2 hle)]
      · rw [if_neg hle, if_pos (Nat.lt_of_not_le hle)]
        rfl
  unfold ChainBucket.blocked at h
  rw [if_pos (by simp [ChainBucket.capped, hcap]), Option.map_eq_none_iff] at h
  unfold ChainBucket.blockedMetric at h
  rw [hcap, Option.any_some, hused] at h
  by_contra hfull
  have hover : decide (cap < satAdd (BudgetCell.roll (cells.lookup b.bucketId) (budgetWindow b.window now)).requests 1)
      = true := by
    rw [decide_eq_true_eq]
    unfold satAdd
    omega
  rw [if_pos hover] at h
  cases h

/-! ## Calls -/

/-- A call comes through the bucket as the configuration has it. -/
structure CapsCall (id window : String) (cap : Nat) (c : Call) : Prop where
  bucket : ∀ b ∈ c.buckets, b.bucketId = id → b.requestsCap = some cap ∧ b.window = window
  once : c.buckets.countP (fun b => b.bucketId = id) ≤ 1

/-- The buckets of a plan are those of the key's chain that apply to the pool. -/
theorem plan_buckets {key : VirtualKey} {pool : String} {plan : AdmitPlan} (h : admitPlan cost key pool = .ok plan) :
    ∃ chain, cost.chainFor key = .ok chain ∧ plan.buckets = chain.buckets.filter (fun b => b.appliesToPool pool) := by
  unfold admitPlan at h
  split at h
  · cases h
  · rename_i chain hchain
    split at h
    · cases h
    · cases h
      exact ⟨chain, hchain, rfl⟩

theorem CostModel.CapsRequests.call (h : cost.CapsRequests id window cap) {key : VirtualKey} (hkey : key.id ≠ id)
    (pool : String) (now : Nat) : CapsCall id window cap (Call.start cost key pool now) := by
  unfold Call.start
  rcases hplan : admitPlan cost key pool with e | plan
  · exact ⟨fun b hb => (by cases hb), Nat.zero_le 1⟩
  · obtain ⟨chain, hchain, hbuckets⟩ := plan_buckets hplan
    refine ⟨fun b hb he => ?_, ?_⟩
    · dsimp only at hb
      rw [hbuckets] at hb
      exact h.bucket key chain hkey hchain b (List.mem_of_mem_filter hb) he
    · dsimp only
      rw [hbuckets]
      exact Nat.le_trans List.filter_sublist.countP_le (h.once key chain hkey hchain)

/-- The window word that tokens are ledgered under. -/
theorem CostModel.CapsRequests.usage (h : cost.CapsRequests id window cap) {key : VirtualKey} (hkey : key.id ≠ id)
    {pool : String} {i : Nat} {b : String × String} (hb : (usageBuckets cost key pool)[i]? = some b) (hid : b.1 = id) :
    b.2 = window := by
  have hmem := List.mem_of_getElem? hb
  unfold usageBuckets at hmem
  split at hmem
  · rw [List.mem_singleton] at hmem
    rw [hmem] at hid
    exact absurd hid hkey
  · rename_i chain hchain
    obtain ⟨cb, hcb, rfl⟩ := List.mem_map.1 hmem
    exact (h.bucket key chain hkey hchain cb (List.mem_of_mem_filter hcb) hid).2

/-! ## Runs -/

/-- The clock readings of a run's sweeps. -/
def sweepClocks (ops : List NodeOp) : List Nat :=
  ops.filterMap fun
    | .sweep _ now => some now
    | _ => none

/-- The sweeps that can take the cell of a window: those of the words that roll. -/
def dropsOf (window : String) (ops : List NodeOp) : List Nat := if Rolling window then sweepClocks ops else []

/-- **What keeps a window's cap.** The keys have ids of their own; sweeps read a clock that has not run out; no admission
comes to its lock section with a window that was over at an earlier sweep. -/
def OnTime (id window : String) (earlier : List NodeOp) (n : Node) : NodeOp → Prop
  | .begin key _ _ => key.id ≠ id
  | .accrue key _ _ _ _ _ => key.id ≠ id
  | .sweep _ now => now < u64Max
  | .advance k => ∀ c, n.calls[k]? = some c → c.phase = .acquiring [] →
      Live maxWindow (dropsOf window earlier) (budgetWindow window c.now)
  | _ => True

/-- The requests that the cell of a window counts. -/
def Node.requestsOf (n : Node) (id : String) (W : Nat) : Nat := ((n.cellOf id W).map BudgetCell.requests).getD 0

/-- **The invariant of a request cap.** -/
structure Capped (id window : String) (cap : Nat) (base : Nat → Nat) (drops : List Nat) (r : NodeRun) : Prop where
  calls : ∀ c ∈ r.node.calls, CapsCall id window cap c
  bounded : Bounded cap maxWindow base (fun W => base W + chargeCount id W r.history)
    (counterOf (r.node.cells.lookup id)) drops
  allTime : ¬ Rolling window → ∀ c, counterOf (r.node.cells.lookup id) = some c → c.start = 0

theorem capsCalls_step (h : cost.CapsRequests id window cap) {n : Node} {op : NodeOp}
    (hcalls : ∀ c ∈ n.calls, CapsCall id window cap c) (hop : ∀ key pool now, op = .begin key pool now → key.id ≠ id) :
    ∀ c ∈ (n.step cost op).calls, CapsCall id window cap c := by
  intro c hc
  rcases calls_step cost n op with he | ⟨key, pool, now, hbegin, he⟩ | ⟨k, c₀, c', hc₀, he, hsame⟩
  · rw [he] at hc
    exact hcalls c hc
  · rw [he] at hc
    rcases List.mem_append.1 hc with hc | hc
    · exact hcalls c hc
    · rw [List.mem_singleton.1 hc]
      exact h.call (hop key pool now hbegin) pool now
  · rw [he] at hc
    rcases List.mem_or_eq_of_mem_set hc with hc | rfl
    · exact hcalls c hc
    · have h₀ := hcalls c₀ (List.mem_of_getElem? hc₀)
      refine ⟨fun b hb => ?_, ?_⟩
      · rw [hsame.buckets] at hb
        exact h₀.bucket b hb
      · rw [hsame.buckets]
        exact h₀.once

/-- What a cell counts for a window, by its counter. -/
theorem requestsOf_counter (n : Node) (id : String) (W : Nat) :
    n.requestsOf id W = ((counterOf (n.cells.lookup id)).filter fun c => c.start = W).elim 0 Counter.used := by
  unfold Node.requestsOf Node.cellOf held counterOf
  cases n.cells.lookup id with
  | none => rfl
  | some c =>
    by_cases hW : c.windowStart = W
    · simp [Option.filter_some, hW]
    · simp [Option.filter_some, hW]

theorem dropsOf_subset (window : String) (earlier : List NodeOp) (op : NodeOp) :
    dropsOf window earlier ⊆ dropsOf window (earlier ++ [op]) := by
  unfold dropsOf sweepClocks
  split
  · rw [List.filterMap_append]
    exact List.subset_append_left _ _
  · exact List.Subset.refl _

/-- **What a sweep leaves of the bucket's cell**: its counter, or nothing of a window that is over. -/
theorem counterOf_sweep (henf : cost.bucketEnforcesACap id = true) (hnow : now < u64Max) (shard : Nat) :
    counterOf ((sweepShard cost now cells shard).lookup id) = counterOf (cells.lookup id) ∨
      counterOf ((sweepShard cost now cells shard).lookup id) = none ∧
        ∀ c, counterOf (cells.lookup id) = some c → c.start ≠ 0 ∧ c.start + maxWindow ≤ now := by
  rw [lookup_sweepShard]
  by_cases hshard : shardIndex id = shard
  · rw [if_pos hshard]
    cases cells.lookup id with
    | none => exact .inl rfl
    | some c =>
      by_cases hkeep : sweepKeeps cost now id c = true
      · rw [Option.filter_some_pos hkeep]
        exact .inl (counterOf_map (f := BudgetCell.pruneDeadModels) (fun c => ⟨rfl, rfl⟩) (some c))
      · rw [Option.filter_some_neg (Bool.eq_false_of_not_eq_true hkeep)]
        refine .inr ⟨rfl, fun c' hc' => ?_⟩
        cases hc'
        show c.windowStart ≠ 0 ∧ c.windowStart + maxWindow ≤ now
        unfold sweepKeeps at hkeep
        by_cases hzero : c.windowStart ≠ 0
        · rw [if_pos hzero, decide_eq_true_eq] at hkeep
          unfold satAdd at hkeep
          exact ⟨hzero, by omega⟩
        · -- the cell of an enforced cap is kept in the all-time window
          rw [if_neg hzero, henf] at hkeep
          exact absurd rfl hkeep
  · rw [if_neg hshard]
    exact .inl rfl

/-- A bucket whose windows do not roll finds the all-time cell. -/
theorem roll_allTime {o : Option BudgetCell} (hroll : ¬ Rolling window)
    (hzero : ¬ Rolling window → ∀ c, counterOf o = some c → c.start = 0) (now : Nat) :
    (BudgetCell.roll o (budgetWindow window now)).windowStart = 0 := by
  rw [budgetWindow_of_not_rolling hroll]
  unfold BudgetCell.roll
  cases o with
  | none => rfl
  | some c =>
    dsimp only
    rw [if_neg (Nat.not_lt_zero _)]
    exact hzero hroll _ rfl

/-- **The lock section.** -/
theorem Capped.locked {base : Nat → Nat} {drops : List Nat} {r : NodeRun} (hr : Capped id window cap base drops r)
    (hfits : cap < u64Max) {c : Call} (hc : c ∈ r.node.calls) (hlive : Live maxWindow drops (budgetWindow window c.now))
    (hpass : (checkAndCharge cost c.buckets c.now r.node.cells).1 = none) (k : Nat) :
    Bounded cap maxWindow base
        (fun W => base W + chargeCount id W (r.history ++ chargeEvents k c.now r.node.cells c.buckets))
        (counterOf ((checkAndCharge cost c.buckets c.now r.node.cells).2.lookup id)) drops ∧
      (¬ Rolling window → ∀ c', counterOf ((checkAndCharge cost c.buckets c.now r.node.cells).2.lookup id) = some c' →
        c'.start = 0) := by
  obtain ⟨hcall, honce⟩ := hr.calls c hc
  obtain ⟨hfree, hcells⟩ := checkAndCharge_none hpass
  rw [hcells]
  by_cases hmem : ∃ b ∈ c.buckets, b.bucketId = id
  · obtain ⟨b, hb, hid⟩ := hmem
    obtain ⟨hcap, hwindow⟩ := hcall b hb hid
    have hroom := room_of_unblocked hcap hfits (hfree b hb)
    rw [hid, hwindow] at hroom
    obtain ⟨hstart, hused⟩ := counterOf_roll (r.node.cells.lookup id) (budgetWindow window c.now)
    have hcharged := hr.bounded.charge hlive (by rw [hused]; exact hroom)
    rw [hstart, hused] at hcharged
    have hpassed := fun W => charge_pass k c.now honce hb hid W r.node.cells
    rw [hwindow] at hpassed
    -- the cell that is charged: its own window's, or the window's that it was rolled to
    generalize hcell : BudgetCell.roll (r.node.cells.lookup id) (budgetWindow window c.now) = cell at *
    have hsat : satAdd cell.requests 1 = cell.requests + 1 := by
      unfold satAdd
      omega
    have hcounter : counterOf (some (cell.charge c.now)) = some ⟨cell.windowStart, cell.requests + 1⟩ := by
      rw [← hsat]
      rfl
    have htotal : (fun W => base W + chargeCount id W (r.history ++ chargeEvents k c.now r.node.cells c.buckets)) =
        Function.update (fun W => base W + chargeCount id W r.history) cell.windowStart
          (base cell.windowStart + chargeCount id cell.windowStart r.history + 1) := by
      funext W
      rw [chargeCount_append, (hpassed W).2]
      by_cases hW : cell.windowStart = W
      · rw [if_pos hW, hW, Function.update_self, Nat.add_assoc]
      · rw [if_neg hW, Function.update_of_ne (Ne.symm hW), Nat.add_zero]
    rw [(hpassed 0).1, hcounter, htotal]
    refine ⟨hcharged, fun hroll c' hc' => ?_⟩
    cases hc'
    show cell.windowStart = 0
    rw [← hcell]
    exact roll_allTime hroll hr.allTime c.now
  · have hother : ∀ b ∈ c.buckets, b.bucketId ≠ id := fun b hb he => hmem ⟨b, hb, he⟩
    rw [lookup_chargeBuckets_of_notMem hother]
    refine ⟨?_, hr.allTime⟩
    have htotal : (fun W => base W + chargeCount id W (r.history ++ chargeEvents k c.now r.node.cells c.buckets)) =
        fun W => base W + chargeCount id W r.history := by
      funext W
      rw [chargeCount_append, charge_pass_other k c.now hother, Nat.add_zero]
    rw [htotal]
    exact hr.bounded

/-- **The step lemma.** -/
theorem capped_step (h : cost.CapsRequests id window cap) (hfits : cap < u64Max) {base : Nat → Nat}
    {earlier : List NodeOp} {r : NodeRun} {op : NodeOp} (hr : Capped id window cap base (dropsOf window earlier) r)
    (hop : OnTime id window earlier r.node op) :
    Capped id window cap base (dropsOf window (earlier ++ [op])) (r.step cost op) := by
  have hcalls : ∀ c ∈ (r.step cost op).node.calls, CapsCall id window cap c := by
    refine capsCalls_step h hr.calls fun key pool now he => ?_
    rw [he] at hop
    exact hop
  have hsub := dropsOf_subset window earlier op
  -- steps that charge nothing to the bucket and keep its counter
  have hquiet : (∀ W, chargeCount id W (r.node.events cost op) = 0) →
      counterOf ((r.node.step cost op).cells.lookup id) = counterOf (r.node.cells.lookup id) →
      Capped id window cap base (dropsOf window (earlier ++ [op])) (r.step cost op) := by
    intro hzero hcell
    have htotal : (fun W => base W + chargeCount id W (r.step cost op).history) =
        fun W => base W + chargeCount id W r.history := by
      funext W
      show base W + chargeCount id W (r.history ++ r.node.events cost op) = _
      rw [chargeCount_append, hzero, Nat.add_zero]
    refine ⟨hcalls, ?_, fun hroll c hc => hr.allTime hroll c ?_⟩
    · rw [htotal]
      exact hr.bounded.drop hsub (.inl hcell)
    · rw [← hcell]
      exact hc
  have hsame : r.node.events cost op = [] → (r.node.step cost op).cells = r.node.cells →
      Capped id window cap base (dropsOf window (earlier ++ [op])) (r.step cost op) := by
    intro hev hc
    exact hquiet (fun W => by rw [hev]; rfl) (by rw [hc])
  have hmapped : r.node.events cost op = [] → ∀ f : BudgetCell → BudgetCell,
      (∀ c, (f c).windowStart = c.windowStart ∧ (f c).requests = c.requests) →
      (r.node.step cost op).cells.lookup id = (r.node.cells.lookup id).map f →
      Capped id window cap base (dropsOf window (earlier ++ [op])) (r.step cost op) := by
    intro hev f hf hmap
    exact hquiet (fun W => by rw [hev]; rfl) (by rw [hmap, counterOf_map hf])
  have heff := r.node.effect cost op
  generalize hn : r.node.step cost op = n' at *
  generalize hev : r.node.events cost op = ev at *
  cases heff with
  | idle hc husage hflush => exact hsame rfl hc
  | swept shard now hopEq hc hstore hflush =>
    subst hopEq
    refine ⟨hcalls, ?_, fun hroll c' hc' => ?_⟩
    · show Bounded _ _ _ (fun W => base W + chargeCount id W (r.history ++ r.node.events cost (.sweep shard now)))
        (counterOf ((r.node.step cost (.sweep shard now)).cells.lookup id)) _
      rw [hn, hev, List.append_nil, hc]
      refine hr.bounded.drop hsub ?_
      rcases counterOf_sweep h.enforced hop shard with hkept | ⟨hnone, hover⟩
      · exact .inl hkept
      · refine .inr ⟨hnone, fun c' hc' => ?_⟩
        obtain ⟨hne, hold⟩ := hover c' hc'
        refine ⟨now, ?_, hold⟩
        -- only a rolling word's windows start later than the all-time one
        have hroll : Rolling window := by
          by_contra hroll
          exact hne (hr.allTime hroll c' hc')
        unfold dropsOf sweepClocks
        rw [if_pos hroll, List.filterMap_append]
        exact List.mem_append_right _ (List.mem_singleton.2 rfl)
    · have hcell : counterOf (n'.cells.lookup id) = some c' := by
        rw [← hn]
        exact hc'
      rw [hc] at hcell
      rcases counterOf_sweep h.enforced hop shard with hkept | ⟨hnone, -⟩
      · rw [hkept] at hcell
        exact hr.allTime hroll c' hcell
      · rw [hnone] at hcell
        cases hcell
  | locked k c hopEq hcall hphase hc hstore hflush =>
    subst hopEq
    rcases hpass : (checkAndCharge cost c.buckets c.now r.node.cells).1 with _ | e
    · rw [hpass, if_pos rfl] at hev
      obtain ⟨hbounded, hzero⟩ := hr.locked hfits (List.mem_of_getElem? hcall) (hop c hcall hphase) hpass k
      refine ⟨hcalls, ?_, fun hroll c' hc' => hzero hroll c' ?_⟩
      · show Bounded _ _ _ (fun W => base W + chargeCount id W (r.history ++ r.node.events cost (.advance k)))
          (counterOf ((r.node.step cost (.advance k)).cells.lookup id)) _
        rw [hn, hev, hc]
        exact hbounded.drop hsub (.inl rfl)
      · rw [← hc, ← hn]
        exact hc'
    · rw [hpass, if_neg (by simp)] at hev hsame
      rw [(checkAndCharge_some hpass).2] at hc
      exact hsame rfl hc
  | accrued key pool i model tokens now b hopEq hbk hc hstore hflush =>
    subst hopEq
    have hlookup := lookup_accrueBucket r.node.cells b.1 b.2 model tokens now id
    rw [← hc] at hlookup
    by_cases hid : b.1 = id
    · have hwindow := h.usage hop hbk hid
      rw [if_pos hid, hwindow] at hlookup
      obtain ⟨hstart, hused⟩ := counterOf_roll (r.node.cells.lookup id) (budgetWindow window now)
      have hcounter : counterOf (n'.cells.lookup id) =
          some (Counter.roll (counterOf (r.node.cells.lookup id)) (budgetWindow window now)) := by
        rw [hlookup]
        refine congrArg some (Counter.ext ?_ ?_)
        · exact hstart.symm
        · exact hused.symm
      refine ⟨hcalls, ?_, fun hroll c' hc' => ?_⟩
      · show Bounded _ _ _ (fun W => base W + chargeCount id W (r.history ++
            r.node.events cost (.accrue key pool i model tokens now)))
          (counterOf ((r.node.step cost (.accrue key pool i model tokens now)).cells.lookup id)) _
        rw [hn, hev, hcounter]
        have htotal : (fun W => base W + chargeCount id W (r.history ++ [.accrued b.1
            (BudgetCell.roll (r.node.cells.lookup b.1) (budgetWindow b.2 now)).windowStart model tokens])) =
            fun W => base W + chargeCount id W r.history := by
          funext W
          rw [chargeCount_append]
          rfl
        rw [htotal]
        exact (hr.bounded.touch _).drop hsub (.inl rfl)
      · have hcell : counterOf (n'.cells.lookup id) = some c' := by
          rw [← hn]
          exact hc'
        rw [hcounter, Option.some.injEq] at hcell
        rw [← hcell, hstart]
        exact roll_allTime hroll hr.allTime now
    · rw [if_neg hid] at hlookup
      exact hquiet (fun W => rfl) (by rw [hlookup])
  | refunded k c i b hopEq hcall hbk hc hstore hflush =>
    refine hquiet (fun W => ?_) ?_
    · unfold Node.refundEvents
      split
      · split <;> rfl
      · rfl
    · rw [hc, lookup_refundBucket]
      refine counterOf_map (fun c => ?_) _
      split <;> exact ⟨rfl, rfl⟩
  | started hph hc hstore hflush => exact hsame rfl hc
  | read shard snaps hph hc hstore hflush =>
    refine hmapped rfl (fun c => if shardIndex id = shard then { c with dirty := false } else c) (fun c => ?_) ?_
    · split <;> exact ⟨rfl, rfl⟩
    · rw [hc]
      exact lookup_cleanShard _ _ _
  | readAll shard snaps hph hlast hc hstore hflush => exact hsame rfl hc
  | wrote pick ok s snaps hopEq hph hpick hc hstore hflush => exact hsame rfl hc
  | settled s ok snaps hph hc hstore hflush =>
    refine hmapped rfl (fun c => if s.bucketId = id ∧ c.windowStart = s.window then
      if ok then c.acknowledge s else { c with dirty := true } else c) (fun c => ?_) ?_
    · split
      · split <;> exact ⟨rfl, rfl⟩
      · exact ⟨rfl, rfl⟩
    · rw [hc]
      exact lookup_settle _ _ _ _
  | ended hph hc hstore hflush => exact hsame rfl hc

section Config

variable (rates : Option (Table String RateNanos)) (fee : Int) {groups : Table String GroupCfg}

open CostModel

/-- **The cap of every window.** Whatever admissions, grant drops, accruals, refunds, flushes and sweeps come, a window of a
capped bucket is charged no more requests than the cap has room for above what the node started with. -/
theorem requests_capped (hacyclic : ∀ start, Walk.Acyclic (parentOf groups) start)
    (hids : (((projectGroups groups).flatMap GroupRuntime.buckets).map GroupBucket.bucketId).Nodup) {g : GroupRuntime}
    (hg : g ∈ projectGroups groups) {b : GroupBucket} (hb : b ∈ g.buckets) {cap : Nat} (hcap : b.requestsCap = some cap)
    (hfits : cap < u64Max) (n : Node) (hcalls : n.calls = [])
    (hzero : ¬ Rolling b.window → ∀ c, n.cells.lookup b.bucketId = some c → c.windowStart = 0) (ops : List NodeOp)
    (hops : Run.Along (fun pre op =>
      OnTime b.bucketId b.window pre (NodeRun.after (resolveParts rates fee groups) n pre).node op) ops) (W : Nat) :
    n.requestsOf b.bucketId W +
        chargeCount b.bucketId W (NodeRun.after (resolveParts rates fee groups) n ops).history ≤
      max cap (n.requestsOf b.bucketId W) := by
  have hcaps := capsRequests_of_config rates fee hacyclic hids hg hb hcap
  have hbase := requestsOf_counter n b.bucketId
  have hstart : Capped b.bucketId b.window cap (n.requestsOf b.bucketId) []
      (NodeRun.after (resolveParts rates fee groups) n []) := by
    refine ⟨fun c hc => ?_, ?_, fun hroll c hc => ?_⟩
    · have hnone : c ∈ n.calls := hc
      rw [hcalls] at hnone
      cases hnone
    · refine Bounded.start (fun c hc => ?_) fun W hother => ?_
      · have hc' : counterOf (n.cells.lookup b.bucketId) = some c := hc
        rw [hbase, hc', Option.filter_some_pos (by simp)]
        exact Nat.le_refl _
      · rw [hbase]
        cases hcell : counterOf (n.cells.lookup b.bucketId) with
        | none => rfl
        | some c =>
          rw [Option.filter_some_neg (by simpa using hother c hcell)]
          rfl
    · obtain ⟨cell, hcell, rfl⟩ := Option.map_eq_some_iff.1 hc
      exact hzero hroll cell hcell
  have hrun : Capped b.bucketId b.window cap (n.requestsOf b.bucketId) (dropsOf b.window ops)
      (NodeRun.after (resolveParts rates fee groups) n ops) := by
    refine Run.Along.invariant (I := fun ops => Capped b.bucketId b.window cap (n.requestsOf b.bucketId)
      (dropsOf b.window ops) (NodeRun.after (resolveParts rates fee groups) n ops)) ?_ ?_ hops
    · have hnone : dropsOf b.window [] = [] := by
        unfold dropsOf sweepClocks
        split <;> rfl
      rw [hnone]
      exact hstart
    · intro pre op hpre hop
      rw [NodeRun.after_snoc]
      exact capped_step hcaps hfits hpre hop
  exact hrun.bounded.capped W

end Config

instance decidableLive (horizon : Nat) (drops : List Nat) (w : Nat) : Decidable (Live horizon drops w) :=
  inferInstanceAs (Decidable (∀ d ∈ drops, d < w + horizon))

instance decidableOnTime (id window : String) (earlier : List NodeOp) (n : Node) (op : NodeOp) :
    Decidable (OnTime id window earlier n op) :=
  match op with
  | .begin key _ _ => inferInstanceAs (Decidable (key.id ≠ id))
  | .accrue key _ _ _ _ _ => inferInstanceAs (Decidable (key.id ≠ id))
  | .sweep _ now => inferInstanceAs (Decidable (now < u64Max))
  | .advance k =>
    inferInstanceAs (Decidable (∀ c ∈ n.calls[k]?, c.phase = .acquiring [] →
      Live maxWindow (dropsOf window earlier) (budgetWindow window c.now)))
  | .finish _ => isTrue trivial
  | .refund _ _ => isTrue trivial
  | .flush => isTrue trivial
  | .flushStep _ _ => isTrue trivial
  | .tick _ => isTrue trivial

namespace DayGroup

theorem acyclic (start : Option String) : Walk.Acyclic (CostModel.parentOf groups) start := by
  have hroot : ∀ name, CostModel.parentOf groups name = none := by
    intro name
    unfold CostModel.parentOf groups
    rw [Table.lookup_insert]
    split
    · rfl
    · rfl
  intro a _ m hm hround
  obtain ⟨m, rfl⟩ := Nat.exists_eq_add_of_lt hm
  rw [Nat.zero_add, Nat.add_comm, Walk.iter_add] at hround
  have hnone : Walk.iter (CostModel.parentOf groups) (some a) 1 = none := hroot a
  rw [hnone, Walk.iter_none] at hround
  cases hround

end DayGroup

/-- A day's request, a sweep and a request of the month after it; the first day's window was charged once. -/
theorem requests_capped_day :
    Node.new.requestsOf "group:a@day" 0 +
        chargeCount "group:a@day" 0 (NodeRun.after DayGroup.costModel Node.new DayGroup.sweptDay).history ≤
      max 10 (Node.new.requestsOf "group:a@day" 0) := by
  have hg : (⟨"a", true, none, [⟨"group:a@day", "day", some 10, none, none, none, none⟩], none⟩ : GroupRuntime) ∈
      CostModel.projectGroups DayGroup.groups := by decide +kernel
  exact requests_capped none 0 DayGroup.acyclic (by decide +kernel) hg (List.mem_singleton_self _) rfl (by decide)
    Node.new rfl (fun _ c hc => by cases hc) DayGroup.sweptDay (Run.Along.of_getElem (by decide +kernel)) 0

end Busbar
