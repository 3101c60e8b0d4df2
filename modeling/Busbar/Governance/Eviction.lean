import Busbar.Governance.Refund

/-!
# Sweeps decide nothing

A sweep gives up cells whose window is over, so an admission that comes later finds in the swept ledger what
the unswept one tells it: nothing used in a window that has just begun. The all-time cell of a capped bucket is
never given up, unless a rolling bucket shares its id.

* `Relates`: swept and unswept cells of an id, as far as an admission can see.
* `blocked_relates`: related ledgers refuse alike.
* `sweeps_decide_nothing`: two runs that differ in their sweeps only have the same calls with the same results.
* `shared_id_evicted`: with a shared id a sweep resets an all-time cap.
-/

namespace Busbar

/-! ## What an admission can tell apart -/

/-- Cells of the same window with the same current readings. -/
inductive Same : Option BudgetCell → Option BudgetCell → Prop
  | none : Same none none
  | some {c c' : BudgetCell} (windowStart : c'.windowStart = c.windowStart) (cur : ∀ m, c'.cur m = c.cur m) :
      Same (some c) (some c')

theorem Same.refl (o : Option BudgetCell) : Same o o := by
  rcases o with _ | c
  · exact .none
  · exact .some rfl (fun _ => rfl)

theorem Same.symm {o o' : Option BudgetCell} (h : Same o o') : Same o' o := by
  cases h with
  | none => exact .none
  | some hw hc => exact .some hw.symm (fun m => (hc m).symm)

theorem Same.trans {o₁ o₂ o₃ : Option BudgetCell} (h : Same o₁ o₂) (h' : Same o₂ o₃) : Same o₁ o₃ := by
  cases h with
  | none => exact h'
  | some hw hc =>
    cases h' with
    | some hw' hc' => exact .some (hw'.trans hw) (fun m => (hc' m).trans (hc m))

theorem Same.map {f : BudgetCell → BudgetCell} (hw : ∀ c, (f c).windowStart = c.windowStart)
    (hc : ∀ c m, (f c).cur m = c.cur m) (o : Option BudgetCell) : Same o (o.map f) := by
  rcases o with _ | c
  · exact .none
  · exact .some (hw c) (hc c)

/-- The cell's window is over at `T`, whatever its length. -/
def Stale (T : Nat) (o : Option BudgetCell) : Prop := ∀ c, o = some c → c.windowStart + maxWindow ≤ T

theorem Stale.mono {T T' : Nat} {o : Option BudgetCell} (h : Stale T o) (hle : T ≤ T') : Stale T' o :=
  fun c hc => Nat.le_trans (h c hc) hle

theorem Stale.of_same {T : Nat} {o o' : Option BudgetCell} (h : Stale T o) (hs : Same o o') : Stale T o' := by
  cases hs with
  | none => exact h
  | some hw hc =>
    intro c' hc'
    cases hc'
    rw [hw]
    exact h _ rfl

/-- A bucket of the model. -/
def CostModel.HasBucket (cost : CostModel) (b : GroupBucket) : Prop := ∃ g ∈ cost.groups, b ∈ g.buckets

/-- The id is that of a capped bucket whose window never rolls. -/
def CostModel.CapsAllTime (cost : CostModel) (id : String) : Prop :=
  ∃ b, cost.HasBucket b ∧ b.capped = true ∧ b.bucketId = id ∧ ¬ Rolling b.window

/-- No rolling bucket shares its id with a capped all-time bucket. -/
def CostModel.Apart (cost : CostModel) : Prop :=
  ∀ id, cost.CapsAllTime id → ∀ b, cost.HasBucket b → b.bucketId = id → ¬ Rolling b.window

/-- **Swept and unswept cells of a capped id.** They read the same, or the id's windows roll and both cells, if
there, are of a window that is over. -/
def Relates (cost : CostModel) (T : Nat) (id : String) (o o' : Option BudgetCell) : Prop :=
  Same o o' ∧ (cost.CapsAllTime id → ∀ c, o = some c → c.windowStart = 0) ∨
    ¬ cost.CapsAllTime id ∧ Stale T o ∧ Stale T o'

variable {cost : CostModel} {T : Nat} {id : String} {o o' : Option BudgetCell}

theorem Relates.mono {T' : Nat} (h : Relates cost T id o o') (hle : T ≤ T') : Relates cost T' id o o' := by
  rcases h with h | ⟨hno, hs, hs'⟩
  · exact Or.inl h
  · exact Or.inr ⟨hno, hs.mono hle, hs'.mono hle⟩

/-- What changes neither windows nor current readings keeps cells related. -/
theorem Relates.congr {o₁ o₁' : Option BudgetCell} (h : Relates cost T id o o') (h₁ : Same o o₁)
    (h₁' : Same o' o₁') : Relates cost T id o₁ o₁' := by
  rcases h with ⟨hs, hzero⟩ | ⟨hno, hs, hs'⟩
  · refine Or.inl ⟨(h₁.symm.trans hs).trans h₁', ?_⟩
    intro hall c₁ hc₁
    rw [hc₁] at h₁
    cases h₁ with
    | some hw _ =>
      rw [hw]
      exact hzero hall _ rfl
  · exact Or.inr ⟨hno, hs.of_same h₁, hs'.of_same h₁'⟩

/-! ## Touching a cell -/

theorem cur_charge_congr {c c' : BudgetCell} (h : ∀ m, c'.cur m = c.cur m) (now : Nat) (m : Meter) :
    (c'.charge now).cur m = (c.charge now).cur m := by
  cases m with
  | requests => exact congrArg (satAdd · 1) (h .requests)
  | billable => exact congrArg (satAdd · 1) (h .billable)
  | tokens model tier => exact h (.tokens model tier)

theorem cur_credit_congr {c c' : BudgetCell} (h : ∀ m, c'.cur m = c.cur m) (model : String) (t : TierTokens)
    (now : Nat) (m : Meter) : (c'.credit model t now).cur m = (c.credit model t now).cur m := by
  cases m with
  | requests => exact h .requests
  | billable => exact h .billable
  | tokens model' tier =>
    have hm := h (.tokens model' tier)
    unfold BudgetCell.cur at hm
    unfold BudgetCell.cur BudgetCell.credit BudgetCell.accrue
    dsimp only at hm ⊢
    rw [modelOf_set, modelOf_set]
    by_cases he : model = model'
    · subst he
      rw [if_pos rfl, if_pos rfl, get_satAdd, get_satAdd, hm]
    · rw [if_neg he, if_neg he, hm]

theorem same_roll (h : Same o o') (w : Nat) :
    (BudgetCell.roll o' w).windowStart = (BudgetCell.roll o w).windowStart ∧
      ∀ m, (BudgetCell.roll o' w).cur m = (BudgetCell.roll o w).cur m := by
  cases h with
  | none => exact ⟨rfl, fun _ => rfl⟩
  | @some c c' hw hc =>
    unfold BudgetCell.roll
    dsimp only
    rw [hw]
    split
    · exact ⟨rfl, fun _ => rfl⟩
    · exact ⟨hw, hc⟩

/-- Where a touched cell stands. -/
theorem roll_cases (o : Option BudgetCell) (w : Nat) :
    BudgetCell.roll o w = BudgetCell.fresh w ∧ (∀ c, o = some c → c.windowStart < w) ∨
      ∃ c, o = some c ∧ BudgetCell.roll o w = c ∧ w ≤ c.windowStart := by
  unfold BudgetCell.roll
  rcases o with _ | c
  · exact Or.inl ⟨rfl, fun c hc => by cases hc⟩
  · dsimp only
    split
    · rename_i h
      refine Or.inl ⟨rfl, fun c' hc' => ?_⟩
      cases hc'
      exact h
    · exact Or.inr ⟨c, rfl, rfl, by omega⟩

/-- **A touched cell.** Rolling related cells to a window and updating both alike keeps them related: the
windows of an all-time id are all-time ones. -/
theorem Relates.touch {f : BudgetCell → BudgetCell} {w : Nat} (h : Relates cost T id o o')
    (hzero : cost.CapsAllTime id → w = 0) (hws : ∀ c, (f c).windowStart = c.windowStart)
    (hcur : ∀ c c', (∀ m, c'.cur m = c.cur m) → ∀ m, (f c').cur m = (f c).cur m) :
    Relates cost T id (some (f (BudgetCell.roll o w))) (some (f (BudgetCell.roll o' w))) := by
  rcases h with ⟨hs, hz⟩ | ⟨hno, hs, hs'⟩
  · obtain ⟨hw, hc⟩ := same_roll hs w
    refine Or.inl ⟨.some ((hws _).trans (hw.trans (hws _).symm)) (hcur _ _ hc), ?_⟩
    intro hall c hc
    cases hc
    rw [hws]
    rcases roll_cases o w with ⟨he, -⟩ | ⟨c, hoc, he, -⟩
    · rw [he]
      exact hzero hall
    · rw [he]
      exact hz hall c hoc
  · -- both fresh, or both of a window that is over
    have hstale : w + maxWindow ≤ T → ∀ o, Stale T o → Stale T (some (f (BudgetCell.roll o w))) := by
      intro hw o ho c hc
      cases hc
      rw [hws]
      rcases roll_cases o w with ⟨he, -⟩ | ⟨c, hoc, he, -⟩
      · rw [he]
        exact hw
      · rw [he]
        exact ho c hoc
    rcases roll_cases o w with ⟨he, -⟩ | ⟨c, hoc, -, hle⟩
    · rcases roll_cases o' w with ⟨he', -⟩ | ⟨c', hoc', -, hle'⟩
      · rw [he, he']
        exact Or.inl ⟨.some rfl (fun _ => rfl), fun hall => absurd hall hno⟩
      · have hw : w + maxWindow ≤ T := by
          have := hs' c' hoc'
          omega
        exact Or.inr ⟨hno, hstale hw o hs, hstale hw o' hs'⟩
    · have hw : w + maxWindow ≤ T := by
        have := hs c hoc
        omega
      exact Or.inr ⟨hno, hstale hw o hs, hstale hw o' hs'⟩

/-- A refund looks at the window alone. -/
theorem Relates.refund (h : Relates cost T id o o') (p : Nat → Prop) [DecidablePred p] :
    Relates cost T id (o.map (fun c => if p c.windowStart then c.refund else c))
      (o'.map (fun c => if p c.windowStart then c.refund else c)) := by
  have hws : ∀ c : BudgetCell, (if p c.windowStart then c.refund else c).windowStart = c.windowStart := by
    intro c
    split <;> rfl
  have hstale : ∀ o, Stale T o → Stale T (o.map (fun c => if p c.windowStart then c.refund else c)) := by
    intro o ho c' hc'
    obtain ⟨c, hc, rfl⟩ := Option.map_eq_some_iff.1 hc'
    rw [hws]
    exact ho c hc
  rcases h with ⟨hs, hz⟩ | ⟨hno, hs, hs'⟩
  · refine Or.inl ⟨?_, ?_⟩
    · cases hs with
      | none => exact .none
      | @some c c' hw hc =>
        refine .some ((hws c').trans (hw.trans (hws c).symm)) (fun m => ?_)
        dsimp only
        rw [hw]
        split
        · rw [cur_refund, cur_refund, hc]
        · exact hc m
    · intro hall c' hc'
      obtain ⟨c, hc, rfl⟩ := Option.map_eq_some_iff.1 hc'
      rw [hws]
      exact hz hall c hc
  · exact Or.inr ⟨hno, hstale o hs, hstale o' hs'⟩

/-- **A swept cell.** A capped id's cell is dropped only when its window is over. -/
theorem Relates.sweep {now : Nat} (h : Relates cost T id o o') (hcap : cost.bucketEnforcesACap id = true)
    (hT : T ≤ now) (hnow : now < u64Max) :
    Relates cost now id ((o.filter (sweepKeeps cost now id)).map BudgetCell.pruneDeadModels) o' := by
  have hpruned : ∀ o : Option BudgetCell, Same o (o.map BudgetCell.pruneDeadModels) :=
    fun o => Same.map (f := BudgetCell.pruneDeadModels) (fun _ => rfl) cur_pruneDeadModels o
  have h := h.mono hT
  rcases o with _ | c
  · exact h
  · by_cases hk : sweepKeeps cost now id c = true
    · rw [Option.filter_some, if_pos hk]
      exact h.congr (hpruned _) (Same.refl _)
    · rw [Option.filter_some, if_neg hk, Option.map_none]
      have hw : c.windowStart ≠ 0 := by
        intro hw
        unfold sweepKeeps at hk
        rw [if_neg (fun hne => hne hw), hcap] at hk
        exact hk rfl
      have hover : c.windowStart + maxWindow ≤ now := by
        unfold sweepKeeps at hk
        rw [if_pos hw, decide_eq_true_eq] at hk
        unfold satAdd at hk
        omega
      have hnone : Stale now none := fun c hc => by cases hc
      rcases h with ⟨hs, hz⟩ | ⟨hno, hs, hs'⟩
      · refine Or.inr ⟨fun hall => hw (hz hall c rfl), hnone, ?_⟩
        have hc : Stale now (some c) := by
          intro c' hc'
          cases hc'
          exact hover
        exact hc.of_same hs
      · exact Or.inr ⟨hno, hnone, hs'⟩

/-! ## The check -/

theorem tierTokens_ext {t t' : TierTokens} (h : ∀ tier, t.get tier = t'.get tier) : t = t' := by
  have h₁ := h .input
  have h₂ := h .output
  have h₃ := h .cacheRead
  have h₄ := h .cacheWrite
  cases t
  cases t'
  unfold TierTokens.get at h₁ h₂ h₃ h₄
  dsimp only at h₁ h₂ h₃ h₄
  rw [h₁, h₂, h₃, h₄]

theorem viewOf_modelViews (c : BudgetCell) (model : String) (tier : Tier) :
    (viewOf c.modelViews model).get tier = c.cur (.tokens model tier) := by
  unfold viewOf
  rw [find_modelViews]
  show _ = (modelOf c.models model).cur.get tier
  unfold modelOf
  rcases c.models.lookup model with _ | mc <;> rfl

theorem nodup_modelViews (c : BudgetCell) : (c.modelViews.map Prod.fst).Nodup := by
  unfold BudgetCell.modelViews
  rw [List.map_map]
  exact c.models.nodup

/-- What a model's tokens add to the spend before it is cut to cents. -/
def CostModel.nanosOf (cost : CostModel) (e : String × TierTokens) : Nat :=
  match cost.rateFor e.1 with
  | some rate => rate.costNanos e.2
  | none => 0

/-- A saturating sum of weights. -/
theorem foldl_nanos {f : Nat → String × TierTokens → Nat} {g : String × TierTokens → Nat} {bound : Nat}
    (hf : ∀ nanos e, nanos ≤ bound → f nanos e = min (nanos + g e) bound)
    (views : List (String × TierTokens)) (acc : Nat) (h : acc ≤ bound) :
    views.foldl f acc = min (acc + (views.map g).sum) bound := by
  induction views generalizing acc with
  | nil =>
    rw [List.foldl_nil, List.map_nil, List.sum_nil]
    omega
  | cons e views ih =>
    have hstep := hf acc e h
    rw [List.foldl_cons, List.map_cons, List.sum_cons, ih _ (by omega), hstep]
    omega

theorem nanosOf_zero (cost : CostModel) (model : String) : cost.nanosOf (model, TierTokens.zero) = 0 := by
  unfold CostModel.nanosOf
  split
  · unfold RateNanos.costNanos TierTokens.zero
    simp
  · rfl

/-- Spend depends on the readings only, not on which models were interned and pruned when. -/
theorem deriveSpendCents_congr (cost : CostModel) {c c' : BudgetCell} (h : ∀ m, c'.cur m = c.cur m)
    (fee : Nat) (include' : Bool) :
    cost.deriveSpendCents c'.modelViews fee include' = cost.deriveSpendCents c.modelViews fee include' := by
  have hview : ∀ model, viewOf c'.modelViews model = viewOf c.modelViews model := by
    intro model
    refine tierTokens_ext (fun tier => ?_)
    rw [viewOf_modelViews, viewOf_modelViews, h]
  have hle : ∀ {d d' : BudgetCell}, (∀ model, viewOf d.modelViews model = viewOf d'.modelViews model) →
      (d.modelViews.map cost.nanosOf).sum ≤ (d'.modelViews.map cost.nanosOf).sum := by
    intro d d' hd
    refine sum_le_of_views (nanosOf_zero cost) (nodup_modelViews d) (fun model => ?_)
    rw [hd]
  have hsum : (c'.modelViews.map cost.nanosOf).sum = (c.modelViews.map cost.nanosOf).sum :=
    Nat.le_antisymm (hle hview) (hle (fun model => (hview model).symm))
  have hstep : ∀ nanos e, nanos ≤ 2 ^ 128 - 1 → (match cost.rateFor e.1 with
      | some rate => min (nanos + rate.costNanos e.2) (2 ^ 128 - 1)
      | none => nanos) = min (nanos + cost.nanosOf e) (2 ^ 128 - 1) := by
    intro nanos e hn
    unfold CostModel.nanosOf
    rcases cost.rateFor e.1 with _ | rate
    · dsimp only
      omega
    · rfl
  have hfold : ∀ d : BudgetCell, d.modelViews.foldl (fun nanos e => match cost.rateFor e.1 with
      | some rate => min (nanos + rate.costNanos e.2) (2 ^ 128 - 1)
      | none => nanos) 0 = min (0 + (d.modelViews.map cost.nanosOf).sum) (2 ^ 128 - 1) :=
    fun d => foldl_nanos hstep d.modelViews 0 (Nat.zero_le _)
  have heq : c'.modelViews.foldl (fun nanos e => match cost.rateFor e.1 with
      | some rate => min (nanos + rate.costNanos e.2) (2 ^ 128 - 1)
      | none => nanos) 0 = c.modelViews.foldl (fun nanos e => match cost.rateFor e.1 with
      | some rate => min (nanos + rate.costNanos e.2) (2 ^ 128 - 1)
      | none => nanos) 0 := by
    rw [hfold, hfold, hsum]
  exact congrArg (fun nanos : Nat =>
    let cents : Int := min (nanos / nanosPerCent : Nat) i64Max
    let cents :=
      if include' then
        let fee := min (cost.pricePerRequestCents * min (fee : Int) i64Max) i64Max
        min (cents + fee) i64Max
      else cents
    max cents 0) heq

theorem totalTokens_congr {c c' : BudgetCell} (h : ∀ m, c'.cur m = c.cur m) : c'.totalTokens = c.totalTokens := by
  have htotal : ∀ d : BudgetCell, d.totalTokens = totalOf d.modelViews := by
    intro d
    unfold BudgetCell.totalTokens totalOf BudgetCell.modelViews
    rw [List.foldl_map]
  have hle : ∀ {d d' : BudgetCell}, (∀ m, d.cur m = d'.cur m) → totalOf d.modelViews ≤ totalOf d'.modelViews := by
    intro d d' hd
    refine totalOf_le (nodup_modelViews d) (fun model tier => ?_)
    rw [viewOf_modelViews, viewOf_modelViews, hd]
  rw [htotal, htotal]
  exact Nat.le_antisymm (hle h) (hle (fun m => (h m).symm))

/-- A chain bucket of the model, or a key's own. -/
def CostModel.Charges (cost : CostModel) (b : ChainBucket) : Prop :=
  (∃ id, b = CostModel.keyBucket id) ∨ ∃ gb name, cost.HasBucket gb ∧ b = gb.toChain name

/-- The windows of an all-time id are all-time ones. -/
theorem window_of_capsAllTime (hapart : cost.Apart) {b : ChainBucket} (hb : cost.Charges b)
    (hall : cost.CapsAllTime b.bucketId) (now : Nat) : budgetWindow b.window now = 0 := by
  refine budgetWindow_of_not_rolling ?_ now
  rcases hb with ⟨id, rfl⟩ | ⟨gb, name, hgb, rfl⟩
  · show ¬ Rolling windowTotal
    decide
  · exact hapart _ hall gb hgb rfl

/-- **Related cells are used alike**, by a bucket of the model at a clock reading no sweep is ahead of. -/
theorem used_relates {cells cells' : Cells} {b : ChainBucket} {now : Nat} (hb : cost.Charges b)
    (hcap : b.capped = true) (hT : T ≤ now)
    (h : Relates cost T b.bucketId (cells.lookup b.bucketId) (cells'.lookup b.bucketId)) :
    b.used cost now cells' = b.used cost now cells := by
  rcases h with ⟨hs, -⟩ | ⟨hno, hs, hs'⟩
  · unfold ChainBucket.used
    generalize cells.lookup b.bucketId = o at hs
    generalize cells'.lookup b.bucketId = o' at hs
    cases hs with
    | none => rfl
    | @some c c' hw hc =>
      have hreq : c'.requests = c.requests := hc .requests
      have hbill : c'.billableRequests = c.billableRequests := hc .billable
      dsimp only
      rw [hw, hreq, hbill, totalTokens_congr hc, deriveSpendCents_congr cost hc]
  · have hroll : Rolling b.window := by
      rcases hb with ⟨id, rfl⟩ | ⟨gb, name, hgb, rfl⟩
      · cases hcap
      · by_contra hr
        exact hno ⟨gb, hgb, hcap, rfl, hr⟩
    have hlt := lt_budgetWindow_add hroll now
    -- a window that is over is not the current one
    have hnone : ∀ {cs : Cells}, Stale T (cs.lookup b.bucketId) → b.used cost now cs = (0, 0, 0) := by
      intro cs hcs
      unfold ChainBucket.used
      rcases hl : cs.lookup b.bucketId with _ | c
      · rfl
      · have hover := hcs c hl
        have hm : maxWindow = 31 * secsPerDay := rfl
        dsimp only
        rw [if_neg (by omega)]
    rw [hnone hs, hnone hs']

/-- Related ledgers refuse alike. -/
theorem blocked_relates {cells cells' : Cells} {b : ChainBucket} {now : Nat} (hb : cost.Charges b)
    (hT : T ≤ now) (h : b.capped = true →
      Relates cost T b.bucketId (cells.lookup b.bucketId) (cells'.lookup b.bucketId)) :
    b.blocked cost now cells' = b.blocked cost now cells := by
  unfold ChainBucket.blocked
  by_cases hcap : b.capped = true
  · rw [if_pos hcap, if_pos hcap, used_relates hb hcap hT (h hcap)]
  · rw [if_neg hcap, if_neg hcap]

/-- The chain of a key is made of its own bucket and buckets of the model. -/
theorem charges_of_chain {key : VirtualKey} {chain : Chain} (h : cost.chainFor key = .ok chain)
    {b : ChainBucket} (hb : b ∈ chain.buckets) : cost.Charges b := by
  have hgroups : ∀ groups, b ∈ cost.groupBuckets groups → cost.Charges b := by
    intro groups hb
    unfold CostModel.groupBuckets at hb
    obtain ⟨i, -, hb⟩ := List.mem_flatMap.1 hb
    rcases hg : cost.groups[i]? with _ | g
    · rw [hg] at hb
      cases hb
    · rw [hg] at hb
      obtain ⟨gb, hgb, rfl⟩ := List.mem_map.1 hb
      exact Or.inr ⟨gb, g.name, ⟨g, List.mem_of_getElem? hg, hgb⟩, rfl⟩
  unfold CostModel.chainFor at h
  split at h
  · cases h
    rw [List.mem_singleton] at hb
    exact Or.inl ⟨key.id, hb⟩
  · split at h
    · cases h
    · cases h
      rcases List.mem_cons.1 hb with hb | hb
      · exact Or.inl ⟨key.id, hb⟩
      · exact hgroups _ hb

theorem charges_of_plan {key : VirtualKey} {pool : String} {plan : AdmitPlan}
    (h : admitPlan cost key pool = .ok plan) {b : ChainBucket} (hb : b ∈ plan.buckets) : cost.Charges b := by
  unfold admitPlan at h
  split at h
  · cases h
  · rename_i chain hchain
    split at h
    · cases h
    · cases h
      exact charges_of_chain hchain (List.mem_of_mem_filter hb)

theorem charges_of_usage {key : VirtualKey} {pool : String} {i : Nat} {b : String × String}
    (h : (usageBuckets cost key pool)[i]? = some b) :
    ∃ cb, cost.Charges cb ∧ cb.bucketId = b.1 ∧ cb.window = b.2 := by
  have hb := List.mem_of_getElem? h
  unfold usageBuckets at hb
  split at hb
  · rw [List.mem_singleton] at hb
    rw [hb]
    exact ⟨CostModel.keyBucket key.id, Or.inl ⟨key.id, rfl⟩, rfl, rfl⟩
  · rename_i chain hchain
    obtain ⟨cb, hcb, rfl⟩ := List.mem_map.1 hb
    exact ⟨cb, charges_of_chain hchain (List.mem_of_mem_filter hcb), rfl, rfl⟩

/-! ## Two runs side by side -/

namespace NodeOp

def isSweep : NodeOp → Bool
  | .sweep .. => true
  | _ => false

end NodeOp

namespace Node

/-- The clock readings of a step that matter: an admission's in its lock section, and a sweep's. -/
def readings (n : Node) : NodeOp → List Nat
  | .sweep _ now => [now]
  | .advance k =>
    match n.calls[k]? with
    | some c => if c.phase = .acquiring [] then [c.now] else []
    | none => []
  | _ => []

/-- The clock readings of a run. -/
def clocks (cost : CostModel) (n : Node) : List NodeOp → List Nat
  | [] => []
  | op :: ops => n.readings op ++ clocks cost (n.step cost op) ops

/-- **A swept node and its unswept twin**, the last sweep at `T`: the same calls, and related cells for the
capped ids. -/
structure Twin (cost : CostModel) (T : Nat) (n n' : Node) : Prop where
  calls : n'.calls = n.calls
  gauges : n'.gauges = n.gauges
  charges : ∀ c ∈ n.calls, ∀ b ∈ c.buckets, cost.Charges b
  cells : ∀ id, cost.bucketEnforcesACap id = true → Relates cost T id (n.cells.lookup id) (n'.cells.lookup id)

end Node

/-- The caps of the model's buckets are the enforced ones. -/
def CostModel.Enforces (cost : CostModel) : Prop :=
  ∀ b, cost.HasBucket b → b.capped = true → cost.bucketEnforcesACap b.bucketId = true

theorem enforces_resolveParts (rates : Option (Table String RateNanos)) (fee : Int) (groups : Table String GroupCfg) :
    (CostModel.resolveParts rates fee groups).Enforces := by
  rintro b ⟨g, hg, hb⟩ hcap
  unfold CostModel.bucketEnforcesACap
  rw [List.contains_iff_mem]
  exact List.mem_map.2 ⟨b, List.mem_filter.2 ⟨List.mem_flatMap.2 ⟨g, hg, hb⟩, hcap⟩, rfl⟩

theorem enforces_chain (henf : cost.Enforces) {b : ChainBucket} (hb : cost.Charges b) (hcap : b.capped = true) :
    cost.bucketEnforcesACap b.bucketId = true := by
  rcases hb with ⟨id, rfl⟩ | ⟨gb, name, hgb, rfl⟩
  · cases hcap
  · exact henf gb hgb hcap

section Lock

variable {cells cells' : Cells} {now : Nat}

/-- A charged bucket. -/
theorem chargeBucket_relates (hapart : cost.Apart) {b : ChainBucket} (hb : cost.Charges b)
    (h : ∀ id, cost.bucketEnforcesACap id = true → Relates cost T id (cells.lookup id) (cells'.lookup id))
    (id : String) (hid : cost.bucketEnforcesACap id = true) :
    Relates cost T id ((chargeBucket now cells b).lookup id) ((chargeBucket now cells' b).lookup id) := by
  rw [lookup_chargeBucket, lookup_chargeBucket]
  by_cases he : b.bucketId = id
  · subst he
    rw [if_pos rfl, if_pos rfl]
    exact (h _ hid).touch (f := fun c => c.charge now) (fun hall => window_of_capsAllTime hapart hb hall now)
      (fun c => rfl) (fun c c' hc => cur_charge_congr hc now)
  · rw [if_neg he, if_neg he]
    exact h id hid

/-- **The lock section** decides alike and leaves related cells. -/
theorem checkAndCharge_relates (henf : cost.Enforces) (hapart : cost.Apart) {buckets : List ChainBucket}
    (hb : ∀ b ∈ buckets, cost.Charges b) (hT : T ≤ now)
    (h : ∀ id, cost.bucketEnforcesACap id = true → Relates cost T id (cells.lookup id) (cells'.lookup id)) :
    (checkAndCharge cost buckets now cells').1 = (checkAndCharge cost buckets now cells).1 ∧
      ∀ id, cost.bucketEnforcesACap id = true → Relates cost T id
        ((checkAndCharge cost buckets now cells).2.lookup id)
        ((checkAndCharge cost buckets now cells').2.lookup id) := by
  have hblocked : ∀ bs : List ChainBucket, (∀ b ∈ bs, cost.Charges b) →
      bs.findSome? (ChainBucket.blocked cost now cells') = bs.findSome? (ChainBucket.blocked cost now cells) := by
    intro bs hbs
    induction bs with
    | nil => rfl
    | cons b bs ih =>
      have hbc := hbs b List.mem_cons_self
      have hhead : b.blocked cost now cells' = b.blocked cost now cells :=
        blocked_relates hbc hT (fun hcap => h _ (enforces_chain henf hbc hcap))
      rw [List.findSome?_cons, List.findSome?_cons, ih (fun b' hb' => hbs b' (List.mem_cons_of_mem _ hb')), hhead]
  have hcharged : ∀ (bs : List ChainBucket) (cells cells' : Cells), (∀ b ∈ bs, cost.Charges b) →
      (∀ id, cost.bucketEnforcesACap id = true → Relates cost T id (cells.lookup id) (cells'.lookup id)) →
      ∀ id, cost.bucketEnforcesACap id = true → Relates cost T id
        ((bs.foldl (chargeBucket now) cells).lookup id) ((bs.foldl (chargeBucket now) cells').lookup id) := by
    intro bs
    induction bs with
    | nil => exact fun _ _ _ h => h
    | cons b bs ih =>
      intro cells cells' hbs h
      exact ih _ _ (fun b' hb' => hbs b' (List.mem_cons_of_mem _ hb'))
        (chargeBucket_relates hapart (hbs b List.mem_cons_self) h)
  unfold checkAndCharge
  rw [hblocked buckets hb]
  split
  · exact ⟨rfl, h⟩
  · exact ⟨rfl, hcharged buckets cells cells' hb h⟩

end Lock

namespace Node

variable {n n' : Node}

/-- A step of the flush changes no reading. -/
theorem flush_same (n : Node) (pick : Nat) (ok : Bool) (id : String) :
    Same (n.cells.lookup id) ((n.advanceFlush pick ok).cells.lookup id) := by
  unfold advanceFlush
  split
  · exact Same.refl _
  · split
    · rw [lookup_cleanShard]
      refine Same.map (fun c => ?_) (fun c m => ?_) _
      · split <;> rfl
      · split
        · cases m <;> rfl
        · rfl
    · exact Same.refl _
  · split
    · exact Same.refl _
    · split <;> exact Same.refl _
  · rename_i s ok snaps _
    rw [lookup_settle]
    refine Same.map (fun c => ?_) (fun c m => ?_) _
    · split
      · split <;> rfl
      · rfl
    · split
      · split
        · exact cur_acknowledge c s m
        · cases m <;> rfl
      · rfl

theorem Twin.mono {T' : Nat} (h : Twin cost T n n') (hle : T ≤ T') : Twin cost T' n n' :=
  ⟨h.calls, h.gauges, h.charges, fun id hid => (h.cells id hid).mono hle⟩

/-- A sweep of the one node alone. -/
theorem Twin.sweep {now : Nat} (h : Twin cost T n n') (hT : T ≤ now) (hnow : now < u64Max) (shard : Nat) :
    Twin cost now (n.step cost (.sweep shard now)) n' := by
  refine ⟨h.calls, h.gauges, h.charges, fun id hid => ?_⟩
  show Relates cost now id ((sweepShard cost now n.cells shard).lookup id) _
  rw [lookup_sweepShard]
  split
  · exact (h.cells id hid).sweep hid hT hnow
  · exact (h.cells id hid).mono hT

theorem charges_start (key : VirtualKey) (pool : String) (now : Nat) :
    ∀ b ∈ (Call.start cost key pool now).buckets, cost.Charges b := by
  intro b hb
  unfold Call.start at hb
  split at hb
  · cases hb
  · rename_i plan hplan
    exact charges_of_plan hplan hb

/-- A call that moves keeps the buckets it charges. -/
theorem charges_set {calls : List Call} {k : Nat} {c c' : Call} (hc : calls[k]? = some c)
    (hb : c'.buckets = c.buckets) (h : ∀ c ∈ calls, ∀ b ∈ c.buckets, cost.Charges b) :
    ∀ d ∈ calls.set k c', ∀ b ∈ d.buckets, cost.Charges b := by
  intro d hd b hbd
  rcases List.mem_or_eq_of_mem_set hd with hd | rfl
  · exact h d hd b hbd
  · rw [hb] at hbd
    exact h c (List.mem_of_getElem? hc) b hbd

theorem Twin.advance (henf : cost.Enforces) (hapart : cost.Apart) (h : Twin cost T n n') {k : Nat} {c : Call}
    (hc : n.calls[k]? = some c) (hT : c.phase = .acquiring [] → T ≤ c.now) :
    Twin cost T (n.advanceCall cost k c) (n'.advanceCall cost k c) := by
  unfold advanceCall
  rcases hph : c.phase with (_ | ⟨hold, holds⟩) | _ | result | result
  · obtain ⟨hres, hcells⟩ :=
      checkAndCharge_relates henf hapart (h.charges c (List.mem_of_getElem? hc)) (hT hph) h.cells
    refine ⟨?_, h.gauges, ?_, hcells⟩
    · dsimp only
      rw [hres, h.calls]
    · exact charges_set (c := c) hc rfl h.charges
  · dsimp only
    rw [h.gauges]
    split
    · refine ⟨?_, rfl, charges_set (c := c) hc rfl h.charges, h.cells⟩
      dsimp only
      rw [h.calls]
    · refine ⟨?_, rfl, charges_set (c := c) hc rfl h.charges, h.cells⟩
      dsimp only
      rw [h.calls]
  · exact h
  · dsimp only
    split
    · refine ⟨?_, h.gauges, charges_set (c := c) hc rfl h.charges, h.cells⟩
      dsimp only
      rw [h.calls]
    · refine ⟨?_, ?_, charges_set (c := c) hc rfl h.charges, h.cells⟩
      · dsimp only
        rw [h.calls]
      · dsimp only
        rw [h.gauges]
  · exact h

/-- **One step of both.** A step that sweeps nothing keeps the nodes twins. -/
theorem Twin.step (henf : cost.Enforces) (hapart : cost.Apart) (h : Twin cost T n n') {op : NodeOp}
    (hop : op.isSweep = false) (hT : ∀ t ∈ n.readings op, T ≤ t) :
    Twin cost T (n.step cost op) (n'.step cost op) := by
  cases op with
  | begin key pool now =>
    refine ⟨?_, h.gauges, ?_, h.cells⟩
    · show n'.calls ++ _ = n.calls ++ _
      rw [h.calls]
    · intro c hc
      rcases List.mem_append.1 hc with hc | hc
      · exact h.charges c hc
      · rw [List.mem_singleton.1 hc]
        exact charges_start key pool now
  | advance k =>
    unfold Node.step
    unfold readings at hT
    dsimp only at hT ⊢
    rw [h.calls]
    rcases hc : n.calls[k]? with _ | c
    · exact h
    · rw [hc] at hT
      refine h.advance henf hapart hc (fun hph => ?_)
      dsimp only at hT
      rw [if_pos hph] at hT
      exact hT c.now List.mem_cons_self
  | finish k =>
    unfold Node.step
    dsimp only
    rw [h.calls]
    rcases hc : n.calls[k]? with _ | c
    · exact h
    · dsimp only
      split
      · exact ⟨rfl, h.gauges, charges_set (c := c) hc rfl h.charges, h.cells⟩
      · exact h
  | sweep shard now => cases hop
  | accrue key pool i model tokens now =>
    unfold Node.step
    dsimp only
    rcases hb : (usageBuckets cost key pool)[i]? with _ | b
    · exact h
    · dsimp only
      split
      · exact h
      · refine ⟨h.calls, h.gauges, h.charges, fun id hid => ?_⟩
        obtain ⟨cb, hcb, hcid, hcw⟩ := charges_of_usage hb
        dsimp only
        rw [lookup_accrueBucket, lookup_accrueBucket]
        by_cases he : b.1 = id
        · rw [if_pos he, if_pos he, ← hcw]
          refine (h.cells id hid).touch (f := fun c => c.credit model tokens now) (fun hall => ?_)
            (fun c => rfl) (fun c c' hc => cur_credit_congr hc model tokens now)
          rw [← he, ← hcid] at hall
          exact window_of_capsAllTime hapart hcb hall now
        · rw [if_neg he, if_neg he]
          exact h.cells id hid
  | refund k i =>
    unfold Node.step
    dsimp only
    rw [h.calls]
    rcases hc : n.calls[k]? with _ | c
    · exact h
    · dsimp only
      rcases hb : (usageBuckets cost c.key c.pool)[i]? with _ | b
      · exact h
      · refine ⟨rfl, h.gauges, h.charges, fun id hid => ?_⟩
        dsimp only
        rw [lookup_refundBucket, lookup_refundBucket]
        exact (h.cells id hid).refund (fun w => b.1 = id ∧ w = budgetWindow b.2 c.now)
  | flush =>
    have hcalls : ∀ m : Node, (m.step cost .flush).calls = m.calls ∧ (m.step cost .flush).gauges = m.gauges ∧
        (m.step cost .flush).cells = m.cells := by
      intro m
      unfold Node.step
      dsimp only
      split
      · exact ⟨rfl, rfl, rfl⟩
      · exact ⟨rfl, rfl, rfl⟩
    obtain ⟨hc, hg, hl⟩ := hcalls n
    obtain ⟨hc', hg', hl'⟩ := hcalls n'
    exact ⟨by rw [hc, hc', h.calls], by rw [hg, hg', h.gauges], by rw [hc]; exact h.charges,
      by rw [hl, hl']; exact h.cells⟩
  | flushStep pick ok =>
    have hcalls : ∀ m : Node, (m.advanceFlush pick ok).calls = m.calls ∧
        (m.advanceFlush pick ok).gauges = m.gauges := by
      intro m
      unfold advanceFlush
      split
      · exact ⟨rfl, rfl⟩
      · split <;> exact ⟨rfl, rfl⟩
      · split
        · exact ⟨rfl, rfl⟩
        · split <;> exact ⟨rfl, rfl⟩
      · exact ⟨rfl, rfl⟩
    show Twin cost T (n.advanceFlush pick ok) (n'.advanceFlush pick ok)
    obtain ⟨hc, hg⟩ := hcalls n
    obtain ⟨hc', hg'⟩ := hcalls n'
    exact ⟨by rw [hc, hc', h.calls], by rw [hg, hg', h.gauges], by rw [hc]; exact h.charges,
      fun id hid => (h.cells id hid).congr (flush_same n pick ok id) (flush_same n' pick ok id)⟩
  | tick clock => exact ⟨h.calls, h.gauges, h.charges, h.cells⟩

/-- **A run and its unswept version.** -/
theorem Twin.run (henf : cost.Enforces) (hapart : cost.Apart) {ops : List NodeOp} (h : Twin cost T n n')
    (hT : ∀ t ∈ n.clocks cost ops, T ≤ t) (hmono : (n.clocks cost ops).Pairwise (· ≤ ·))
    (hlt : ∀ t ∈ n.clocks cost ops, t < u64Max) :
    ∃ T', Twin cost T' (Run.exec (Node.step cost) n ops)
      (Run.exec (Node.step cost) n' (ops.filter (fun op => !op.isSweep))) := by
  induction ops generalizing n n' T with
  | nil => exact ⟨T, h⟩
  | cons op ops ih =>
    unfold clocks at hT hmono hlt
    obtain ⟨-, hmono, hle⟩ := List.pairwise_append.1 hmono
    have hlt' : ∀ t ∈ (n.step cost op).clocks cost ops, t < u64Max :=
      fun t ht => hlt t (List.mem_append_right _ ht)
    by_cases hs : op.isSweep = true
    · cases op with
      | sweep shard now =>
        have hnow : now ∈ n.readings (.sweep shard now) := List.mem_cons_self
        have hnext := h.sweep (hT now (List.mem_append_left _ hnow)) (hlt now (List.mem_append_left _ hnow)) shard
        rw [List.filter_cons_of_neg (by simp [NodeOp.isSweep])]
        exact ih hnext (fun t ht => hle now hnow t ht) hmono hlt'
      | _ => cases hs
    · rw [Bool.not_eq_true] at hs
      have hnext := h.step henf hapart hs (fun t ht => hT t (List.mem_append_left _ ht))
      rw [List.filter_cons_of_pos (by simp [hs])]
      exact ih hnext (fun t ht => hT t (List.mem_append_right _ ht)) hmono hlt'

/-- The clock readings of a run never go back, and stay below the top of the counter. -/
def KeepsTime (cost : CostModel) (n : Node) (ops : List NodeOp) : Prop :=
  (n.clocks cost ops).Pairwise (· ≤ ·) ∧ ∀ t ∈ n.clocks cost ops, t < u64Max

instance (cost : CostModel) (n : Node) (ops : List NodeOp) : Decidable (n.KeepsTime cost ops) := by
  unfold KeepsTime
  infer_instance

end Node

/-- **Sweeps decide nothing.** Two runs from a node without calls that differ in their sweeps only have the same
calls, with the same results, in the same states of progress. -/
theorem sweeps_decide_nothing (rates : Option (Table String RateNanos)) (fee : Int) (groups : Table String GroupCfg)
    (n : Node) (ops ops' : List NodeOp) (hapart : (CostModel.resolveParts rates fee groups).Apart)
    (hcalls : n.calls = [])
    (hzero : ∀ id, (CostModel.resolveParts rates fee groups).CapsAllTime id →
      ∀ c, n.cells.lookup id = some c → c.windowStart = 0)
    (hsame : ops.filter (fun op => !op.isSweep) = ops'.filter (fun op => !op.isSweep))
    (hclock : n.KeepsTime (CostModel.resolveParts rates fee groups) ops)
    (hclock' : n.KeepsTime (CostModel.resolveParts rates fee groups) ops') :
    (NodeRun.after (CostModel.resolveParts rates fee groups) n ops).node.calls =
      (NodeRun.after (CostModel.resolveParts rates fee groups) n ops').node.calls := by
  have henf := enforces_resolveParts rates fee groups
  generalize CostModel.resolveParts rates fee groups = cost at *
  have htwin : Node.Twin cost 0 n n := by
    refine ⟨rfl, rfl, ?_, fun id _ => Or.inl ⟨Same.refl _, hzero id⟩⟩
    intro c hc
    rw [hcalls] at hc
    cases hc
  obtain ⟨T, h⟩ := htwin.run henf hapart (fun t _ => Nat.zero_le t) hclock.1 hclock.2
  obtain ⟨T', h'⟩ := htwin.run henf hapart (fun t _ => Nat.zero_le t) hclock'.1 hclock'.2
  rw [NodeRun.node_after, NodeRun.node_after, ← h.calls, ← h'.calls, hsame]

namespace SharedId

/-- A group with a daily limit in one pool, and a group with an all-time limit, whose buckets get the same id. -/
def groups : Table String GroupCfg :=
  Table.insert "a" ⟨none, true, [⟨.requests, 10, some .day, some ⟨"pool", "x@total"⟩, none⟩]⟩
    (Table.insert "a@day#pool:x" ⟨none, true, [⟨.requests, 1, some .total, none, none⟩]⟩ Registry.empty)

def costModel : CostModel := CostModel.resolveParts none 0 groups

def request (call : Nat) (group pool : String) (now : Nat) : List NodeOp :=
  [.begin { LoneKey.key with group := some group } pool now, .advance call]

/-- A request of the first group, and a month later one of the second. -/
def first : List NodeOp := request 0 "a" "x@total" secsPerDay

def second : List NodeOp := request 1 "a@day#pool:x" "" (secsPerDay + maxWindow)

def sweep : NodeOp := .sweep (shardIndex "group:a@day#pool:x@total") (secsPerDay + maxWindow)

def phases (ops : List NodeOp) : List CallPhase := (NodeRun.after costModel Node.new ops).node.calls.map Call.phase

end SharedId

/-- **A shared id is swept.** The all-time cap of one request is used up and refuses; with a sweep in between,
which takes the cell for that of a day long over, it admits. -/
theorem shared_id_evicted :
    (SharedId.first ++ SharedId.second).filter (fun op => !op.isSweep) =
        (SharedId.first ++ SharedId.sweep :: SharedId.second).filter (fun op => !op.isSweep) ∧
      Node.new.KeepsTime SharedId.costModel (SharedId.first ++ SharedId.second) ∧
      Node.new.KeepsTime SharedId.costModel (SharedId.first ++ SharedId.sweep :: SharedId.second) ∧
      SharedId.phases (SharedId.first ++ SharedId.second) =
        [.admitted, .dropping (some (.limit "a@day#pool:x" "requests" (some "total") none none none))] ∧
      SharedId.phases (SharedId.first ++ SharedId.sweep :: SharedId.second) = [.admitted, .admitted] :=
  ⟨rfl, by decide +kernel, by decide +kernel, by decide +kernel, by decide +kernel⟩

namespace DayGroup

theorem apart : costModel.Apart := by
  have hrolls : ∀ g ∈ costModel.groups, ∀ b ∈ g.buckets, Rolling b.window := by decide +kernel
  rintro id ⟨b, ⟨g, hg, hb⟩, -, -, hr⟩
  exact absurd (hrolls g hg b hb) hr

/-- A day's request, a sweep when its window is over, and a request of that later day. -/
def sweptDay : List NodeOp :=
  request 0 100 ++ .sweep (shardIndex "group:a@day") (100 + maxWindow) :: request 1 (100 + maxWindow)

end DayGroup

theorem sweeps_decide_nothing_day :
    (NodeRun.after DayGroup.costModel Node.new DayGroup.sweptDay).node.calls =
      (NodeRun.after DayGroup.costModel Node.new
        (DayGroup.request 0 100 ++ DayGroup.request 1 (100 + maxWindow))).node.calls :=
  sweeps_decide_nothing none 0 DayGroup.groups Node.new _ _ DayGroup.apart rfl
    (fun _ _ _ hc => by cases hc) rfl (by decide +kernel) (by decide +kernel)

end Busbar
