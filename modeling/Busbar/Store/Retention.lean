import Busbar.Governance.Meter
import Busbar.Governance.Window
import Busbar.Lib.Run
import Busbar.Store.Memory

/-!
# The ledgers a sweep leaves

The store drops the ledgers whose window started 31 days ago, in every 256th `add_usage` of whatever bucket. The
windows that roll are over by then. The all-time window starts at 0 and is never over.

* `recorded`, `summed`: what a ledger is to hold after a run of calls, as one ledger and as sums.
* `Spares`: a call whose sweep, if it makes one, leaves the windows that are still enforced.
* `getUsage_run`: the ledgers that were spared hold what was recorded.
* `swept_all_time`: a sweep forgets every all-time ledger from the 31st day on.
-/

namespace Busbar

open Run

/-- A call on the ledgers. -/
inductive UsageOp where
  | add (bucketId : String) (windowStart : Nat) (delta : UsageDelta)
  | put (bucketId : String) (windowStart : Nat) (ledger : UsageLedger)
  | get (bucketId : String) (windowStart : Nat)

/-- A call and the clock it finds. -/
structure UsageCall where
  now : Nat
  op : UsageOp

namespace MemoryStore

/-- The absolute set. It never sweeps. -/
def putUsage (s : MemoryStore) (bucketId : String) (windowStart : Nat) (ledger : UsageLedger) : MemoryStore :=
  { s with usage := s.usage.insert (bucketId, windowStart) ledger }

def usageStep (s : MemoryStore) (c : UsageCall) : MemoryStore :=
  let s := { s with clock := c.now }
  match c.op with
  | .add bucketId windowStart delta => s.addUsage bucketId windowStart delta
  | .put bucketId windowStart ledger => s.putUsage bucketId windowStart ledger
  | .get _ _ => s

/-- The call is an addition whose turn it is to sweep. -/
def Sweeps (s : MemoryStore) : UsageOp → Prop
  | .add _ _ _ => (s.usageSweepTicker + 1) % sweepInterval = 0
  | _ => False

end MemoryStore

/-! ## What is recorded -/

/-- One call's effect on the ledger of a bucket and window, as if nothing were ever dropped. -/
def UsageOp.record (bucketId : String) (windowStart : Nat) (u : UsageLedger) : UsageOp → UsageLedger
  | .add b w delta => if b = bucketId ∧ w = windowStart then u.applyDelta delta else u
  | .put b w ledger => if b = bucketId ∧ w = windowStart then ledger else u
  | .get _ _ => u

/-- **The ledger of a bucket and window after a run**: every delta added, from the last absolute set on. -/
def recorded (bucketId : String) (windowStart : Nat) (calls : List UsageCall) : UsageLedger :=
  calls.foldl (fun u c => c.op.record bucketId windowStart u) UsageLedger.default

/-- One call's effect on the sum of a meter. -/
def UsageOp.count (bucketId : String) (windowStart : Nat) (m : Meter) (sum : Int) : UsageOp → Int
  | .add b w delta => if b = bucketId ∧ w = windowStart then sum + delta.meter m else sum
  | .put b w ledger => if b = bucketId ∧ w = windowStart then ledger.meter m else sum
  | .get _ _ => sum

/-- **The sum of the deltas** added to a meter, from the last absolute set on. -/
def summed (bucketId : String) (windowStart : Nat) (m : Meter) (calls : List UsageCall) : Int :=
  calls.foldl (fun sum c => c.op.count bucketId windowStart m sum) 0

/-- The deltas name each model once. -/
def UsageOp.Plain : UsageOp → Prop
  | .add _ _ delta => (delta.models.map ModelTokensDelta.model).Nodup
  | _ => True

theorem recorded_snoc (bucketId : String) (windowStart : Nat) (calls : List UsageCall) (c : UsageCall) :
    recorded bucketId windowStart (calls ++ [c]) =
      c.op.record bucketId windowStart (recorded bucketId windowStart calls) := by
  unfold recorded
  rw [List.foldl_append]
  rfl

theorem summed_snoc (bucketId : String) (windowStart : Nat) (m : Meter) (calls : List UsageCall) (c : UsageCall) :
    summed bucketId windowStart m (calls ++ [c]) =
      c.op.count bucketId windowStart m (summed bucketId windowStart m calls) := by
  unfold summed
  rw [List.foldl_append]
  rfl

/-- **The ledger reads the sum** of the deltas, as long as no sum on the way leaves the counter. -/
theorem meter_recorded {bucketId : String} {windowStart : Nat} {m : Meter} {calls : List UsageCall}
    (hplain : ∀ c ∈ calls, c.op.Plain)
    (hrange : ∀ pre, pre <+: calls → 0 ≤ summed bucketId windowStart m pre ∧
      summed bucketId windowStart m pre ≤ u64Max) :
    ((recorded bucketId windowStart calls).meter m : Int) = summed bucketId windowStart m calls := by
  induction calls using List.reverseRecOn with
  | nil =>
    unfold recorded summed
    rw [List.foldl_nil, List.foldl_nil, meter_default]
    rfl
  | append_singleton calls c ih =>
    have hprev := ih (fun c' hc' => hplain c' (List.mem_append_left _ hc'))
      (fun pre hpre => hrange pre (hpre.trans (List.prefix_append calls [c])))
    have hnow := hrange _ (List.prefix_refl _)
    have hbefore := hrange calls (List.prefix_append calls [c])
    have hc := hplain c (List.mem_append_right _ (List.mem_singleton_self c))
    rw [summed_snoc] at hnow ⊢
    rw [recorded_snoc]
    cases hop : c.op with
    | add b w delta =>
      rw [hop] at hnow hc
      unfold UsageOp.record
      unfold UsageOp.count at hnow ⊢
      dsimp only at hnow ⊢
      by_cases h : b = bucketId ∧ w = windowStart
      · rw [if_pos h] at hnow ⊢
        rw [if_pos h, meter_applyDelta hc m (by omega),
          satAddSigned_of_le (n := (summed bucketId windowStart m calls + delta.meter m).toNat) (by omega) (by omega)]
        omega
      · rw [if_neg h, if_neg h]
        exact hprev
    | put b w ledger =>
      unfold UsageOp.record UsageOp.count
      dsimp only
      by_cases h : b = bucketId ∧ w = windowStart
      · rw [if_pos h, if_pos h]
      · rw [if_neg h, if_neg h]
        exact hprev
    | get b w => exact hprev

/-! ## What the sweeps leave -/

/-- The call's sweep, if it makes one, keeps the windows with that start while they are enforced: the all-time window
only before the 31st day, the others at every time the clock can show before its last. -/
def Spares (windowStart : Nat) (s : MemoryStore) (c : UsageCall) : Prop :=
  s.Sweeps c.op → (windowStart ≠ 0 ∧ c.now < u64Max) ∨ c.now < maxRetentionSecs

instance (s : MemoryStore) (op : UsageOp) : Decidable (s.Sweeps op) := by
  cases op <;> unfold MemoryStore.Sweeps <;> infer_instance

instance (windowStart : Nat) (s : MemoryStore) (c : UsageCall) : Decidable (Spares windowStart s c) := by
  unfold Spares
  infer_instance

/-- A window that is enforced is not yet old enough to be swept. -/
theorem lt_satAdd_of_spares {period : String} {now windowStart : Nat} {c : UsageCall}
    (hstart : windowStart = budgetWindow period now) (hnow : c.now ≤ now)
    (h : (windowStart ≠ 0 ∧ c.now < u64Max) ∨ c.now < maxRetentionSecs) :
    c.now < satAdd windowStart maxRetentionSecs := by
  unfold satAdd
  rcases h with ⟨hne, hmax⟩ | hearly
  · have hroll : Rolling period := by
      by_contra hno
      exact hne (hstart.trans (budgetWindow_of_not_rolling hno now))
    have hlt := lt_budgetWindow_add hroll now
    rw [← hstart] at hlt
    unfold secsPerDay at hlt
    unfold maxRetentionSecs
    omega
  · unfold u64Max
    unfold maxRetentionSecs at hearly ⊢
    omega

/-- What a call that spares a window does to its ledgers. -/
theorem getUsage_usageStep {s : MemoryStore} {c : UsageCall} {windowStart : Nat}
    (hkeep : s.Sweeps c.op → c.now < satAdd windowStart maxRetentionSecs) (bucketId : String) :
    (s.usageStep c).getUsage bucketId windowStart =
      c.op.record bucketId windowStart (s.getUsage bucketId windowStart) := by
  unfold MemoryStore.usageStep
  cases hop : c.op with
  | add b w delta =>
    rw [hop] at hkeep
    exact @MemoryStore.getUsage_addUsage { s with clock := c.now } _ hkeep bucketId b w delta
  | put b w ledger =>
    unfold MemoryStore.putUsage MemoryStore.getUsage UsageOp.record
    dsimp only
    rw [Table.lookup_insert]
    by_cases h : b = bucketId ∧ w = windowStart
    · rw [if_pos (Prod.ext h.1 h.2), if_pos h]
      rfl
    · have hne : ¬ (b, w) = (bucketId, windowStart) := fun e => h ⟨(Prod.mk.inj e).1, (Prod.mk.inj e).2⟩
      rw [if_neg hne, if_neg h]
  | get b w => rfl

/-- **The ledgers that were spared hold what was recorded.** After every run of calls none of which is later than now,
the ledger of every bucket in the window that contains now is the one recorded, and each meter of it the sum of the
deltas. -/
theorem getUsage_run (calls : List UsageCall) (bucketId period : String) (now : Nat)
    (hclock : ∀ c ∈ calls, c.now ≤ now)
    (hspares : Along (fun pre c => Spares (budgetWindow period now) (exec MemoryStore.usageStep .new pre) c) calls) :
    (exec MemoryStore.usageStep .new calls).getUsage bucketId (budgetWindow period now) =
        recorded bucketId (budgetWindow period now) calls ∧
      ∀ m, (∀ c ∈ calls, c.op.Plain) →
        (∀ pre, pre <+: calls → 0 ≤ summed bucketId (budgetWindow period now) m pre ∧
          summed bucketId (budgetWindow period now) m pre ≤ u64Max) →
        (((exec MemoryStore.usageStep .new calls).getUsage bucketId (budgetWindow period now)).meter m : Int) =
          summed bucketId (budgetWindow period now) m calls := by
  have hrec : (exec MemoryStore.usageStep .new calls).getUsage bucketId (budgetWindow period now) =
      recorded bucketId (budgetWindow period now) calls := by
    induction calls using List.reverseRecOn with
    | nil => rfl
    | append_singleton calls c ih =>
      obtain ⟨hpre, hc⟩ := Along.snoc_iff.1 hspares
      have hnow : c.now ≤ now := hclock c (List.mem_append_right _ (List.mem_singleton_self c))
      rw [exec_snoc, recorded_snoc,
        getUsage_usageStep (fun hs => lt_satAdd_of_spares rfl hnow (hc hs)) bucketId,
        ih (fun c' hc' => hclock c' (List.mem_append_left _ hc')) hpre]
  refine ⟨hrec, ?_⟩
  intro m hplain hrange
  rw [hrec]
  exact meter_recorded hplain hrange

/-! ## What they drop -/

/-- **A sweep forgets every all-time ledger** once the clock has reached the 31st day. -/
theorem swept_all_time {s : MemoryStore} {c : UsageCall} (hsweep : s.Sweeps c.op) (hlate : maxRetentionSecs ≤ c.now)
    (bucketId : String) : (s.usageStep c).getUsage bucketId 0 = UsageLedger.default := by
  unfold MemoryStore.usageStep
  cases hop : c.op with
  | add b w delta =>
    rw [hop] at hsweep
    unfold MemoryStore.Sweeps at hsweep
    unfold MemoryStore.addUsage MemoryStore.getUsage
    dsimp only
    rw [if_pos hsweep, Table.lookup_retain]
    have hold : ¬ c.now < satAdd 0 maxRetentionSecs := by
      unfold satAdd
      omega
    simp [hold]
  | put b w ledger => rw [hop] at hsweep; exact hsweep.elim
  | get b w => rw [hop] at hsweep; exact hsweep.elim

/-- One request. -/
def oneRequest : UsageDelta := ⟨1, 1, []⟩

/-- A request against a group's all-time cap, and as many of another group as make the store sweep. -/
def sweptCalls (start now : Nat) : List UsageCall :=
  ⟨now, .add "group:a@total" start oneRequest⟩ ::
    List.replicate 255 ⟨now, .add "group:b@day" (budgetWindow "day" now) oneRequest⟩

/-- The month's ledger outlives the sweep that forgets the all-time one. -/
theorem getUsage_run_month :
    (exec MemoryStore.usageStep .new (sweptCalls (budgetWindow "month" 1760000000) 1760000000)).getUsage "group:a@total"
      (budgetWindow "month" 1760000000) =
        recorded "group:a@total" (budgetWindow "month" 1760000000)
          (sweptCalls (budgetWindow "month" 1760000000) 1760000000) :=
  (getUsage_run (sweptCalls (budgetWindow "month" 1760000000) 1760000000) "group:a@total" "month" 1760000000
    (by decide +kernel) (Along.of_checks _ (by decide +kernel))).1

/-- The all-time ledger is forgotten while its cap is in force. -/
theorem all_time_forgotten :
    ¬ ∀ (calls : List UsageCall) (bucketId period : String) (now : Nat), (calls.map UsageCall.now).Pairwise (· ≤ ·) →
      (∀ c ∈ calls, c.now ≤ now) →
      (exec MemoryStore.usageStep .new calls).getUsage bucketId (budgetWindow period now) =
        recorded bucketId (budgetWindow period now) calls := by
  intro h
  have hrun := h (sweptCalls 0 1760000000) "group:a@total" "total" 1760000000 (by decide +kernel) (by decide +kernel)
  exact absurd hrun (by decide +kernel)

end Busbar
