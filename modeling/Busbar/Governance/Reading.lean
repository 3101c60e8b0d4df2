import Busbar.Governance.Meter
import Busbar.Governance.Node

/-!
# What the lock sections add to a window's readings

The readings of one (bucket, window) are those of the bucket's cell while it holds the window, and zero
otherwise. The tally of a history is what it ledgered to the (bucket, window).

* `touch_spec`: an accrual, a charge or a refund that leaves the window in place adds what it ledgers.
* `charges_spec`: so does the charge pass of an admission, bucket after bucket.
-/

namespace Busbar

/-- The cell, while it holds the window. -/
def held (W : Nat) (o : Option BudgetCell) : Option BudgetCell := o.filter (fun c => c.windowStart = W)

theorem held_eq_some {W : Nat} {o : Option BudgetCell} {c : BudgetCell} :
    held W o = some c ↔ o = some c ∧ c.windowStart = W := by
  unfold held
  rw [Option.filter_eq_some_iff, decide_eq_true_eq]

theorem held_some {W : Nat} {c : BudgetCell} (h : c.windowStart = W) : held W (some c) = some c :=
  held_eq_some.2 ⟨rfl, h⟩

theorem held_some_ne {W : Nat} {c : BudgetCell} (h : c.windowStart ≠ W) : held W (some c) = none := by
  unfold held
  simp [Option.filter_some, h]

/-- The current reading of what is held. -/
def curOf (o : Option BudgetCell) (m : Meter) : Int := o.elim 0 (fun c => c.cur m)

def ackedOf (o : Option BudgetCell) (m : Meter) : Int := o.elim 0 (fun c => c.acked m)

/-- What an event ledgers to a meter of a (bucket, window). -/
def LedgerEvent.amount (id : String) (W : Nat) (m : Meter) : LedgerEvent → Int
  | .charged _ i w => if i = id ∧ w = W then admission m else 0
  | .accrued i w model t => if i = id ∧ w = W then accrual model t m else 0
  | .refunded _ i w => if i = id ∧ w = W ∧ m = .billable then -1 else 0

/-- The event ledgers to the (bucket, window). -/
def LedgerEvent.IsOf (id : String) (W : Nat) : LedgerEvent → Prop
  | .charged _ i w => i = id ∧ w = W
  | .accrued i w _ _ => i = id ∧ w = W
  | .refunded _ i w => i = id ∧ w = W

/-- Everything a history charged and accrued to a (bucket, window), less what it refunded. -/
def tally (id : String) (W : Nat) (m : Meter) (history : List LedgerEvent) : Int :=
  (history.map (LedgerEvent.amount id W m)).sum

@[simp] theorem tally_nil (id : String) (W : Nat) (m : Meter) : tally id W m [] = 0 := rfl

@[simp] theorem tally_cons (id : String) (W : Nat) (m : Meter) (e : LedgerEvent) (h : List LedgerEvent) :
    tally id W m (e :: h) = e.amount id W m + tally id W m h := List.sum_cons

theorem tally_append (id : String) (W : Nat) (m : Meter) (h h' : List LedgerEvent) :
    tally id W m (h ++ h') = tally id W m h + tally id W m h' := by
  unfold tally
  rw [List.map_append, List.sum_append]

theorem amount_of_not_isOf {id : String} {W : Nat} {m : Meter} {e : LedgerEvent} (h : ¬ e.IsOf id W) :
    e.amount id W m = 0 := by
  cases e with
  | charged k i w => exact if_neg h
  | accrued i w model t => exact if_neg h
  | refunded k i w => exact if_neg (fun hc => h ⟨hc.1, hc.2.1⟩)

theorem tally_of_not_isOf {id : String} {W : Nat} {m : Meter} {h : List LedgerEvent}
    (hn : ∀ e ∈ h, ¬ e.IsOf id W) : tally id W m h = 0 := by
  induction h with
  | nil => rfl
  | cons e h ih =>
    rw [tally_cons, amount_of_not_isOf (hn e List.mem_cons_self),
      ih (fun e' he' => hn e' (List.mem_cons_of_mem _ he'))]
    rfl

/-! ## One cell -/

/-- A rolled cell that holds `W` reads what was held of `W` before. -/
theorem roll_reading {o : Option BudgetCell} {w W : Nat} (h : (BudgetCell.roll o w).windowStart = W)
    (m : Meter) :
    ((BudgetCell.roll o w).cur m : Int) = curOf (held W o) m ∧
      ((BudgetCell.roll o w).acked m : Int) = ackedOf (held W o) m := by
  unfold BudgetCell.roll at h ⊢
  rcases o with _ | c
  · simp [held, curOf, ackedOf]
  · dsimp only at h ⊢
    split
    · rename_i hlt
      rw [if_pos hlt] at h
      have hne : c.windowStart ≠ W := by
        intro he
        have : w = W := h
        omega
      rw [held_some_ne hne]
      simp [curOf, ackedOf]
    · rename_i hlt
      rw [if_neg hlt] at h
      rw [held_some h]
      exact ⟨rfl, rfl⟩

theorem roll_windowStart_ge (o : Option BudgetCell) (w : Nat) :
    ∀ c, o = some c → c.windowStart ≤ (BudgetCell.roll o w).windowStart := by
  rintro c rfl
  unfold BudgetCell.roll
  dsimp only
  split
  · rename_i h
    exact Nat.le_of_lt h
  · exact Nat.le_refl _

theorem window_le_roll (o : Option BudgetCell) (w : Nat) : w ≤ (BudgetCell.roll o w).windowStart := by
  unfold BudgetCell.roll
  split
  · split
    · exact Nat.le_refl _
    · omega
  · exact Nat.le_refl _

/-- **One touched cell.** A cell that is rolled and then updated without moving its window adds what the
update adds, as long as a held window stays held. -/
theorem touch_spec {o : Option BudgetCell} {w W : Nat} {c' : BudgetCell} {m : Meter} {d : Nat}
    (hws : c'.windowStart = (BudgetCell.roll o w).windowStart)
    (hcur : c'.windowStart = W → c'.cur m = (BudgetCell.roll o w).cur m + d)
    (hack : c'.acked m = (BudgetCell.roll o w).acked m)
    (hstay : (held W o).isSome → (held W (some c')).isSome) :
    curOf (held W (some c')) m = curOf (held W o) m + (if c'.windowStart = W then (d : Int) else 0) ∧
      ackedOf (held W (some c')) m = ackedOf (held W o) m := by
  by_cases h : c'.windowStart = W
  · obtain ⟨h₁, h₂⟩ := roll_reading (hws.symm.trans h) m
    rw [held_some h, if_pos h, ← h₁, ← h₂]
    constructor
    · show (c'.cur m : Int) = _
      rw [hcur h]
      push_cast
      rfl
    · show (c'.acked m : Int) = _
      rw [hack]
  · have hn : held W (some c') = none := held_some_ne h
    have hno : held W o = none := by
      rw [hn] at hstay
      exact Option.not_isSome_iff_eq_none.1 (fun hs => by simpa using hstay hs)
    rw [hn, hno, if_neg h]
    exact ⟨rfl, rfl⟩

theorem held_map {W : Nat} {f : BudgetCell → BudgetCell} (hf : ∀ c, (f c).windowStart = c.windowStart)
    (o : Option BudgetCell) : held W (o.map f) = (held W o).map f := by
  rcases o with _ | c
  · rfl
  · by_cases hw : c.windowStart = W
    · rw [Option.map_some, held_some hw, held_some ((hf c).trans hw), Option.map_some]
    · rw [Option.map_some, held_some_ne hw, held_some_ne ((hf c).trans_ne hw), Option.map_none]

theorem readings_map {f : BudgetCell → BudgetCell} {m : Meter} (hc : ∀ c, (f c).cur m = c.cur m)
    (ha : ∀ c, (f c).acked m = c.acked m) (o : Option BudgetCell) :
    curOf (o.map f) m = curOf o m ∧ ackedOf (o.map f) m = ackedOf o m := by
  rcases o with _ | c
  · exact ⟨rfl, rfl⟩
  · refine ⟨?_, ?_⟩
    · show ((f c).cur m : Int) = c.cur m
      rw [hc]
    · show ((f c).acked m : Int) = c.acked m
      rw [ha]

/-! ## Refund, accrual and sweep -/

variable {id : String} {W : Nat}

variable (id W) in
/-- What a refund of a bucket ledgers. -/
theorem refundBucket_spec (cells : Cells) (bucketId period : String) (now k : Nat) (m : Meter) :
    curOf (held W ((refundBucket cells bucketId period now).lookup id)) m =
        curOf (held W (cells.lookup id)) m + tally id W m (Node.refundEvents k now cells (bucketId, period)) ∧
      ackedOf (held W ((refundBucket cells bucketId period now).lookup id)) m =
        ackedOf (held W (cells.lookup id)) m ∧
      ((held W (cells.lookup id)).isSome →
        (held W ((refundBucket cells bucketId period now).lookup id)).isSome) := by
  obtain ⟨ev, hev⟩ : ∃ ev, ev = Node.refundEvents k now cells (bucketId, period) := ⟨_, rfl⟩
  rw [← hev]
  unfold Node.refundEvents at hev
  dsimp only at hev
  rw [lookup_refundBucket]
  have hnone : (∀ e ∈ ev, ¬ e.IsOf id W) → tally id W m ev = 0 := tally_of_not_isOf
  rcases hl : cells.lookup id with _ | c
  · have hzero : tally id W m ev = 0 := by
      refine hnone (fun e he ho => ?_)
      rw [hev] at he
      split at he
      · rename_i cell hcell
        split at he
        · rw [List.mem_singleton] at he
          subst he
          rw [ho.1, hl] at hcell
          cases hcell
        · exact absurd he List.not_mem_nil
      · exact absurd he List.not_mem_nil
    rw [hzero]
    exact ⟨rfl, rfl, fun h => h⟩
  · rw [Option.map_some]
    by_cases hit : bucketId = id ∧ c.windowStart = budgetWindow period now ∧ c.windowStart = W
    · obtain ⟨rfl, hw, hW⟩ := hit
      have hW' : c.refund.windowStart = W := hW
      rw [hl] at hev
      dsimp only at hev
      rw [if_pos ⟨rfl, hw⟩, held_some hW, held_some hW']
      refine ⟨?_, ?_, fun _ => rfl⟩
      · show (c.refund.cur m : Int) = c.cur m + tally bucketId W m ev
        rw [cur_refund]
        by_cases hpos : 0 < c.billableRequests
        · rw [if_pos ⟨hw, hpos⟩] at hev
          subst hev
          rw [tally_cons, tally_nil]
          by_cases hm : m = .billable
          · subst hm
            have : LedgerEvent.amount bucketId W .billable (.refunded k bucketId c.windowStart) = -1 :=
              if_pos ⟨rfl, hW, rfl⟩
            rw [if_pos rfl, this]
            show ((c.billableRequests - 1 : Nat) : Int) = c.billableRequests + (-1 + 0)
            omega
          · have : LedgerEvent.amount bucketId W m (.refunded k bucketId c.windowStart) = 0 :=
              if_neg (fun h => hm h.2.2)
            rw [if_neg hm, this]
            rfl
        · rw [if_neg (fun h => hpos h.2)] at hev
          subst hev
          rw [tally_nil, Int.add_zero]
          split
          · rename_i hm
            subst hm
            show ((c.billableRequests - 1 : Nat) : Int) = c.billableRequests
            omega
          · rfl
      · show (c.refund.acked m : Int) = c.acked m
        rw [acked_refund]
    · -- no refund of this (bucket, window)
      have hzero : tally id W m ev = 0 := by
        refine hnone (fun e he ho => ?_)
        rw [hev] at he
        split at he
        · rename_i cell hcell
          split at he
          · rename_i hcond
            rw [List.mem_singleton] at he
            subst he
            rw [ho.1, hl] at hcell
            cases hcell
            exact hit ⟨ho.1, hcond.1, ho.2⟩
          · exact absurd he List.not_mem_nil
        · exact absurd he List.not_mem_nil
      have hheld : held W (some (if bucketId = id ∧ c.windowStart = budgetWindow period now then c.refund
          else c)) = held W (some c) := by
        by_cases hc : bucketId = id ∧ c.windowStart = budgetWindow period now
        · have hW : c.windowStart ≠ W := fun h => hit ⟨hc.1, hc.2, h⟩
          have hW' : c.refund.windowStart ≠ W := hW
          rw [if_pos hc, held_some_ne hW, held_some_ne hW']
        · rw [if_neg hc]
      rw [hheld, hzero]
      exact ⟨(Int.add_zero _).symm, rfl, fun h => h⟩

/-- What an accrual ledgers. -/
theorem accrueBucket_spec {cells : Cells} {bucketId period model : String} {tokens : TierTokens} {now : Nat}
    {m : Meter} (hsmall : curOf (held W (cells.lookup id)) m < i64Max)
    (hbelow : curOf (held W ((accrueBucket cells bucketId period model tokens now).lookup id)) m < i64Max)
    (hstay : (held W (cells.lookup id)).isSome →
      (held W ((accrueBucket cells bucketId period model tokens now).lookup id)).isSome) :
    curOf (held W ((accrueBucket cells bucketId period model tokens now).lookup id)) m =
        curOf (held W (cells.lookup id)) m +
          (LedgerEvent.accrued bucketId
            (BudgetCell.roll (cells.lookup bucketId) (budgetWindow period now)).windowStart model tokens).amount
            id W m ∧
      ackedOf (held W ((accrueBucket cells bucketId period model tokens now).lookup id)) m =
        ackedOf (held W (cells.lookup id)) m := by
  have hl := lookup_accrueBucket cells bucketId period model tokens now id
  by_cases hb : bucketId = id
  · subst hb
    rw [if_pos rfl] at hl
    rw [hl] at hbelow hstay ⊢
    have hcur : ((BudgetCell.roll (cells.lookup bucketId) (budgetWindow period now)).credit model tokens
        now).windowStart = W →
        ((BudgetCell.roll (cells.lookup bucketId) (budgetWindow period now)).credit model tokens now).cur m =
          (BudgetCell.roll (cells.lookup bucketId) (budgetWindow period now)).cur m + accrual model tokens m := by
      intro hw
      rw [held_some hw] at hbelow
      rw [← (roll_reading hw m).1] at hsmall
      generalize BudgetCell.roll (cells.lookup bucketId) (budgetWindow period now) = r at *
      have hc := cur_credit r model tokens now m (by unfold i64Max at hsmall; unfold u64Max; omega)
      have hb : ((r.credit model tokens now).cur m : Int) < i64Max := hbelow
      rw [hc] at hb ⊢
      unfold satAdd i64Max u64Max at *
      omega
    have hws : ((BudgetCell.roll (cells.lookup bucketId) (budgetWindow period now)).credit model tokens
        now).windowStart = (BudgetCell.roll (cells.lookup bucketId) (budgetWindow period now)).windowStart := rfl
    obtain ⟨h₁, h₂⟩ := touch_spec hws hcur (acked_credit _ _ _ _ _) hstay
    refine ⟨h₁.trans ?_, h₂⟩
    simp only [LedgerEvent.amount, true_and]
    rfl
  · rw [if_neg hb] at hl
    have hno : ¬ LedgerEvent.IsOf id W (.accrued bucketId
        (BudgetCell.roll (cells.lookup bucketId) (budgetWindow period now)).windowStart model tokens) :=
      fun h => hb h.1
    rw [hl, amount_of_not_isOf hno]
    exact ⟨(Int.add_zero _).symm, rfl⟩

theorem accrual_nonneg (model : String) (t : TierTokens) (m : Meter) (id' : String) (w : Nat) :
    0 ≤ (LedgerEvent.accrued id' w model t).amount id W m := by
  unfold LedgerEvent.amount
  dsimp only
  split
  · exact Int.natCast_nonneg _
  · exact Int.le_refl _

variable (id W) in
/-- A sweep gives a cell up, passes it by or prunes it. -/
theorem sweepShard_held (cost : CostModel) (now : Nat) (cells : Cells) (shard : Nat) :
    held W ((sweepShard cost now cells shard).lookup id) = none ∨
      held W ((sweepShard cost now cells shard).lookup id) = held W (cells.lookup id) ∨
      held W ((sweepShard cost now cells shard).lookup id) =
        (held W (cells.lookup id)).map BudgetCell.pruneDeadModels := by
  rw [lookup_sweepShard]
  split
  · rcases hl : cells.lookup id with _ | c
    · exact Or.inl rfl
    · by_cases hk : sweepKeeps cost now id c = true
      · rw [Option.filter_some, if_pos hk]
        exact Or.inr (Or.inr (held_map (f := BudgetCell.pruneDeadModels) (fun _ => rfl) _))
      · rw [Option.filter_some, if_neg hk]
        exact Or.inl rfl
  · exact Or.inr (Or.inl rfl)

/-! ## The charge pass -/

theorem cur_charge_of_lt {c : BudgetCell} {now : Nat} {m : Meter} (hc : c.cur m ≤ u64Max)
    (h : ((c.charge now).cur m : Int) < i64Max) : (c.charge now).cur m = c.cur m + admission m := by
  rw [cur_charge c now m hc] at h ⊢
  unfold satAdd i64Max u64Max at *
  omega

theorem cur_charge_le {c : BudgetCell} (now : Nat) {m : Meter} (hc : c.cur m ≤ u64Max) :
    c.cur m ≤ (c.charge now).cur m ∧ (c.charge now).cur m ≤ u64Max := by
  rw [cur_charge c now m hc]
  unfold satAdd
  omega

/-- In a charge pass a cell's window only moves forward. -/
theorem charges_windowStart (now : Nat) (buckets : List ChainBucket) {cells : Cells} {id : String}
    {c : BudgetCell} (h : cells.lookup id = some c) :
    ∃ c', (buckets.foldl (chargeBucket now) cells).lookup id = some c' ∧ c.windowStart ≤ c'.windowStart := by
  induction buckets generalizing cells c with
  | nil => exact ⟨c, h, Nat.le_refl _⟩
  | cons b bs ih =>
    rw [List.foldl_cons]
    have hl := lookup_chargeBucket now cells b id
    by_cases hb : b.bucketId = id
    · rw [if_pos hb] at hl
      obtain ⟨c', hl', hle⟩ := ih hl
      refine ⟨c', hl', Nat.le_trans ?_ hle⟩
      exact roll_windowStart_ge _ _ c h
    · rw [if_neg hb] at hl
      exact ih (hl.trans h)

theorem tally_chargeEvents_nonneg (id : String) (W : Nat) (m : Meter) (k now : Nat) (cells : Cells)
    (buckets : List ChainBucket) : 0 ≤ tally id W m (chargeEvents k now cells buckets) := by
  induction buckets generalizing cells with
  | nil => exact Int.le_refl _
  | cons b bs ih =>
    unfold chargeEvents
    rw [tally_cons]
    refine Int.add_nonneg ?_ (ih _)
    simp only [LedgerEvent.amount]
    split
    · exact Int.natCast_nonneg _
    · exact Int.le_refl _

/-- What holds of the (bucket, window) before a charge pass, and what the pass is known to end with. -/
structure Passes (id : String) (W : Nat) (m : Meter) (k now : Nat) (buckets : List ChainBucket)
    (cells : Cells) : Prop where
  small : curOf (held W (cells.lookup id)) m ≤ u64Max
  stays : (held W (cells.lookup id)).isSome →
    (held W ((buckets.foldl (chargeBucket now) cells).lookup id)).isSome
  lands : ∀ e ∈ chargeEvents k now cells buckets, e.IsOf id W →
    (held W ((buckets.foldl (chargeBucket now) cells).lookup id)).isSome
  below : curOf (held W ((buckets.foldl (chargeBucket now) cells).lookup id)) m < i64Max

/-- A window held before a pass and after it is held after its first charge, since windows only move
forward. -/
theorem charges_stay_head {now : Nat} {b : ChainBucket} {bs : List ChainBucket} {cells : Cells}
    (hstays : (held W (cells.lookup id)).isSome →
      (held W ((bs.foldl (chargeBucket now) (chargeBucket now cells b)).lookup id)).isSome)
    (hs : (held W (cells.lookup id)).isSome) : (held W ((chargeBucket now cells b).lookup id)).isSome := by
  obtain ⟨c, hc⟩ := Option.isSome_iff_exists.1 hs
  obtain ⟨hc₁, hc₂⟩ := held_eq_some.1 hc
  obtain ⟨c', hc'⟩ := Option.isSome_iff_exists.1 (hstays hs)
  obtain ⟨hc'₁, hc'₂⟩ := held_eq_some.1 hc'
  obtain ⟨c₁, hl₁, hle₁⟩ := charges_windowStart now [b] hc₁
  have hl₁ : (chargeBucket now cells b).lookup id = some c₁ := hl₁
  obtain ⟨c'', hl'', hle⟩ := charges_windowStart now bs hl₁
  have heq : c'' = c' := Option.some.inj (hl''.symm.trans hc'₁)
  rw [heq] at hle
  have hw : c₁.windowStart = W := by omega
  rw [hl₁, held_some hw]
  rfl

/-- A window held after the first charge is held after the pass, when what the pass ledgers to it stays. -/
theorem charges_stay_tail {k now : Nat} {b : ChainBucket} {bs : List ChainBucket} {cells : Cells}
    (hstays : (held W (cells.lookup id)).isSome →
      (held W ((bs.foldl (chargeBucket now) (chargeBucket now cells b)).lookup id)).isSome)
    (hlands : ∀ e ∈ chargeEvents k now cells (b :: bs), e.IsOf id W →
      (held W ((bs.foldl (chargeBucket now) (chargeBucket now cells b)).lookup id)).isSome)
    (hs : (held W ((chargeBucket now cells b).lookup id)).isSome) :
    (held W ((bs.foldl (chargeBucket now) (chargeBucket now cells b)).lookup id)).isSome := by
  have hl := lookup_chargeBucket now cells b id
  by_cases hb : b.bucketId = id
  · rw [if_pos hb] at hl
    rw [hl] at hs
    obtain ⟨c, hc⟩ := Option.isSome_iff_exists.1 hs
    obtain ⟨hc₁, hc₂⟩ := held_eq_some.1 hc
    cases hc₁
    unfold chargeEvents at hlands
    refine hlands _ List.mem_cons_self ⟨hb, ?_⟩
    rw [hb]
    exact hc₂
  · rw [if_neg hb] at hl
    rw [hl] at hs
    exact hstays hs

/-- **The charge pass.** It adds what it ledgers. -/
theorem charges_spec {id : String} {W : Nat} {m : Meter} {k now : Nat} {buckets : List ChainBucket}
    {cells : Cells} (h : Passes id W m k now buckets cells) :
    curOf (held W ((buckets.foldl (chargeBucket now) cells).lookup id)) m =
      curOf (held W (cells.lookup id)) m + tally id W m (chargeEvents k now cells buckets) ∧
    ackedOf (held W ((buckets.foldl (chargeBucket now) cells).lookup id)) m =
      ackedOf (held W (cells.lookup id)) m := by
  induction buckets generalizing cells with
  | nil => exact ⟨(Int.add_zero _).symm, rfl⟩
  | cons b bs ih =>
    obtain ⟨hsmall, hstays, hlands, hbelow⟩ := h
    rw [List.foldl_cons] at hstays hlands hbelow ⊢
    have hlands' := hlands
    unfold chargeEvents at hlands ⊢
    rw [tally_cons]
    have hl := lookup_chargeBucket now cells b id
    by_cases hb : b.bucketId = id
    · rw [if_pos hb] at hl
      subst hb
      set r := BudgetCell.roll (cells.lookup b.bucketId) (budgetWindow b.window now) with hr
      have hws : (r.charge now).windowStart = r.windowStart := rfl
      have hone := charges_stay_tail hstays hlands'
      have hstay₁ := charges_stay_head hstays
      rw [hl] at hstay₁
      have hsmall_r : r.windowStart = W → r.cur m ≤ u64Max := by
        intro hw
        have := (roll_reading hw m).1
        rw [← this] at hsmall
        exact_mod_cast hsmall
      have hsmall₁ : curOf (held W ((chargeBucket now cells b).lookup b.bucketId)) m ≤ u64Max := by
        rw [hl]
        by_cases hw : r.windowStart = W
        · rw [held_some (hws.trans hw)]
          exact Int.ofNat_le.2 (cur_charge_le now (hsmall_r hw)).2
        · rw [held_some_ne (hws.trans_ne hw)]
          exact Int.natCast_nonneg _
      have hlands₁ : ∀ e ∈ chargeEvents k now (chargeBucket now cells b) bs, e.IsOf b.bucketId W →
          (held W ((bs.foldl (chargeBucket now) (chargeBucket now cells b)).lookup b.bucketId)).isSome :=
        fun e he => hlands e (List.mem_cons_of_mem _ he)
      obtain ⟨ih₁, ih₂⟩ := ih ⟨hsmall₁, hone, hlands₁, hbelow⟩
      rw [hl] at ih₁ ih₂
      have hbelow₁ : curOf (held W (some (r.charge now))) m < i64Max := by
        have := tally_chargeEvents_nonneg b.bucketId W m k now (chargeBucket now cells b) bs
        omega
      have hcur : (r.charge now).windowStart = W → (r.charge now).cur m = r.cur m + admission m := by
        intro hw
        rw [held_some hw] at hbelow₁
        exact cur_charge_of_lt (hsmall_r hw) hbelow₁
      obtain ⟨ht₁, ht₂⟩ := touch_spec (d := admission m) hws hcur (acked_charge r now m) hstay₁
      have hamount : LedgerEvent.amount b.bucketId W m (.charged k b.bucketId r.windowStart) =
          if (r.charge now).windowStart = W then (admission m : Int) else 0 := by
        unfold LedgerEvent.amount
        rw [hws]
        simp only [true_and]
      rw [ih₁, ih₂, ht₁, ht₂, hamount]
      exact ⟨Int.add_assoc _ _ _, rfl⟩
    · rw [if_neg hb] at hl
      have hno : ¬ LedgerEvent.IsOf id W (.charged k b.bucketId
          (BudgetCell.roll (cells.lookup b.bucketId) (budgetWindow b.window now)).windowStart) :=
        fun hc => hb hc.1
      rw [amount_of_not_isOf hno, ← hl]
      rw [← hl] at hsmall hstays
      obtain ⟨ih₁, ih₂⟩ := ih ⟨hsmall, hstays, fun e he => hlands e (List.mem_cons_of_mem _ he), hbelow⟩
      rw [ih₁, ih₂, Int.zero_add]
      exact ⟨rfl, rfl⟩

end Busbar
