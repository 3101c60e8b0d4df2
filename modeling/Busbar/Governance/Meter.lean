import Busbar.Governance.Admit
import Busbar.Governance.Flush

/-!
# Meters

One reading for every counter a ledger keeps: admitted requests, billable requests, and each tier of each
model's tokens. A cell has a current and an acknowledged reading of every meter, a durable row and a flush
delta have one.

* `cur_accrue`, `cur_charge`, `cur_pruneDeadModels`: what the cell operations do to a reading.
* `meter_applyDelta`: a delta adds its reading to the row's.
* `meter_snap`: the delta of a snapshot is current minus acknowledged.
-/

namespace Busbar

inductive Tier where
  | input | output | cacheRead | cacheWrite
  deriving DecidableEq, Repr

inductive Meter where
  | requests
  | billable
  | tokens (model : String) (tier : Tier)
  deriving DecidableEq, Repr

def TierTokens.get (t : TierTokens) : Tier → Nat
  | .input => t.input
  | .output => t.output
  | .cacheRead => t.cacheRead
  | .cacheWrite => t.cacheWrite

def TierTokensDelta.get (t : TierTokensDelta) : Tier → Int
  | .input => t.input
  | .output => t.output
  | .cacheRead => t.cacheRead
  | .cacheWrite => t.cacheWrite

/-- The current reading. -/
def BudgetCell.cur (c : BudgetCell) : Meter → Nat
  | .requests => c.requests
  | .billable => c.billableRequests
  | .tokens model tier => (modelOf c.models model).cur.get tier

/-- The reading last acknowledged by the store. -/
def BudgetCell.acked (c : BudgetCell) : Meter → Nat
  | .requests => c.flushedRequests
  | .billable => c.flushedBillableRequests
  | .tokens model tier => (modelOf c.models model).flushed.get tier

def UsageLedger.meter (u : UsageLedger) : Meter → Nat
  | .requests => u.requests
  | .billable => u.billableRequests
  | .tokens model tier => ((u.tokensFor model).getD TierTokens.zero).get tier

/-- The delta of a model name; zero for a model the delta leaves out. -/
def UsageDelta.tokensFor (d : UsageDelta) (model : String) : TierTokensDelta :=
  ((d.models.find? (fun m => m.model = model)).map ModelTokensDelta.tokens).getD ⟨0, 0, 0, 0⟩

def UsageDelta.meter (d : UsageDelta) : Meter → Int
  | .requests => d.requests
  | .billable => d.billableRequests
  | .tokens model tier => (d.tokensFor model).get tier

/-- The reading a snapshot asks to acknowledge. -/
def DirtySnap.cur (s : DirtySnap) : Meter → Nat
  | .requests => s.curRequests
  | .billable => s.curBillableRequests
  | .tokens model tier =>
    (((s.curModels.find? (fun e => e.1 = model)).map Prod.snd).getD TierTokens.zero).get tier

@[simp] theorem get_zero (tier : Tier) : TierTokens.zero.get tier = 0 := by
  cases tier <;> rfl

@[simp] theorem get_satAdd (a b : TierTokens) (tier : Tier) :
    (a.satAdd b).get tier = satAdd (a.get tier) (b.get tier) := by
  cases tier <;> rfl

@[simp] theorem get_addSigned (t : TierTokens) (d : TierTokensDelta) (tier : Tier) :
    (t.addSigned d).get tier = satAddSigned (t.get tier) (d.get tier) := by
  cases tier <;> rfl

@[simp] theorem get_zeroDelta (tier : Tier) : TierTokensDelta.get ⟨0, 0, 0, 0⟩ tier = 0 := by
  cases tier <;> rfl

theorem get_tokensDelta (m : ModelCell) (tier : Tier) :
    (tokensDelta m).get tier = signed (m.cur.get tier) - signed (m.flushed.get tier) := by
  cases tier <;> rfl

/-- A zero total is zero in every tier. -/
theorem get_of_total_eq_zero {t : TierTokens} (h : t.total = 0) (tier : Tier) : t.get tier = 0 := by
  unfold TierTokens.total satAdd u64Max at h
  cases tier <;> simp only [TierTokens.get] <;> omega

theorem isZero_iff (t : TierTokensDelta) : t.isZero = true ↔ ∀ tier, t.get tier = 0 := by
  unfold TierTokensDelta.isZero
  constructor
  · intro h tier
    simp only [Bool.and_eq_true, beq_iff_eq] at h
    cases tier
    · exact h.1.1.1
    · exact h.1.1.2
    · exact h.1.2
    · exact h.2
  · intro h
    simp only [Bool.and_eq_true, beq_iff_eq]
    exact ⟨⟨⟨h .input, h .output⟩, h .cacheRead⟩, h .cacheWrite⟩

/-! ## Cells -/

@[simp] theorem cur_fresh (w : Nat) (m : Meter) : (BudgetCell.fresh w).cur m = 0 := by
  cases m with
  | requests => rfl
  | billable => rfl
  | tokens model tier => exact get_zero tier

@[simp] theorem acked_fresh (w : Nat) (m : Meter) : (BudgetCell.fresh w).acked m = 0 := by
  cases m with
  | requests => rfl
  | billable => rfl
  | tokens model tier => exact get_zero tier

/-- What one accrual adds to a reading. -/
def accrual (model : String) (t : TierTokens) : Meter → Nat
  | .tokens model' tier => if model = model' then t.get tier else 0
  | _ => 0

/-- What one admission adds to a reading. -/
def admission : Meter → Nat
  | .tokens _ _ => 0
  | _ => 1

theorem modelOf_set (models : Table String ModelCell) (model model' : String) (m : ModelCell) :
    modelOf (models.set model m) model' = if model = model' then m else modelOf models model' := by
  unfold modelOf
  rw [Table.lookup_set]
  by_cases h : model = model'
  · rw [if_pos h, if_pos h]; rfl
  · rw [if_neg h, if_neg h]

theorem cur_accrue (c : BudgetCell) (model : String) (t : TierTokens) (m : Meter)
    (hm : c.cur m ≤ u64Max) : (c.accrue model t).cur m = satAdd (c.cur m) (accrual model t m) := by
  have hzero : satAdd (c.cur m) 0 = c.cur m := by
    unfold satAdd
    omega
  cases m with
  | requests => exact hzero.symm
  | billable => exact hzero.symm
  | tokens model' tier =>
    unfold BudgetCell.cur BudgetCell.accrue accrual at *
    dsimp only at *
    rw [modelOf_set]
    by_cases h : model = model'
    · subst h
      rw [if_pos rfl, if_pos rfl, get_satAdd]
    · rw [if_neg h, if_neg h, hzero]

@[simp] theorem acked_accrue (c : BudgetCell) (model : String) (t : TierTokens) (m : Meter) :
    (c.accrue model t).acked m = c.acked m := by
  cases m with
  | requests => rfl
  | billable => rfl
  | tokens model' tier =>
    unfold BudgetCell.acked BudgetCell.accrue
    dsimp only
    rw [modelOf_set]
    by_cases h : model = model'
    · subst h
      rw [if_pos rfl]
    · rw [if_neg h]

theorem cur_credit (c : BudgetCell) (model : String) (t : TierTokens) (now : Nat) (m : Meter)
    (hm : c.cur m ≤ u64Max) : (c.credit model t now).cur m = satAdd (c.cur m) (accrual model t m) := by
  rw [← cur_accrue c model t m hm]
  cases m <;> rfl

@[simp] theorem acked_credit (c : BudgetCell) (model : String) (t : TierTokens) (now : Nat) (m : Meter) :
    (c.credit model t now).acked m = c.acked m := by
  rw [← acked_accrue c model t m]
  cases m <;> rfl

theorem cur_refund (c : BudgetCell) (m : Meter) :
    c.refund.cur m = if m = .billable then c.cur m - 1 else c.cur m := by
  cases m <;> rfl

@[simp] theorem acked_refund (c : BudgetCell) (m : Meter) : c.refund.acked m = c.acked m := by
  cases m <;> rfl

theorem cur_charge (c : BudgetCell) (now : Nat) (m : Meter) (hm : c.cur m ≤ u64Max) :
    (c.charge now).cur m = satAdd (c.cur m) (admission m) := by
  cases m with
  | requests => rfl
  | billable => rfl
  | tokens model tier =>
    show c.cur (.tokens model tier) = min (c.cur (.tokens model tier) + 0) u64Max
    omega

@[simp] theorem acked_charge (c : BudgetCell) (now : Nat) (m : Meter) : (c.charge now).acked m = c.acked m := by
  cases m <;> rfl

theorem modelOf_prune (c : BudgetCell) (model : String) :
    modelOf c.pruneDeadModels.models model = modelOf c.models model ∨
      modelOf c.pruneDeadModels.models model = ⟨TierTokens.zero, TierTokens.zero⟩ ∧
        (modelOf c.models model).dead = true := by
  unfold modelOf BudgetCell.pruneDeadModels
  dsimp only
  rw [Table.lookup_retain]
  rcases c.models.lookup model with _ | m
  · exact Or.inl rfl
  · by_cases hd : m.dead = true
    · exact Or.inr ⟨by simp [Option.filter_some, hd], by simpa using hd⟩
    · exact Or.inl (by simp [Option.filter_some, hd])

theorem dead_get {m : ModelCell} (h : m.dead = true) (tier : Tier) :
    m.cur.get tier = 0 ∧ m.flushed.get tier = 0 := by
  unfold ModelCell.dead at h
  rw [Bool.and_eq_true, beq_iff_eq, beq_iff_eq] at h
  exact ⟨get_of_total_eq_zero h.1 tier, get_of_total_eq_zero h.2 tier⟩

/-- Pruning changes no reading. -/
@[simp] theorem cur_pruneDeadModels (c : BudgetCell) (m : Meter) : c.pruneDeadModels.cur m = c.cur m := by
  cases m with
  | requests => rfl
  | billable => rfl
  | tokens model tier =>
    unfold BudgetCell.cur
    dsimp only
    rcases modelOf_prune c model with h | ⟨h, hd⟩
    · rw [h]
    · rw [h, (dead_get hd tier).1, get_zero]

@[simp] theorem acked_pruneDeadModels (c : BudgetCell) (m : Meter) :
    c.pruneDeadModels.acked m = c.acked m := by
  cases m with
  | requests => rfl
  | billable => rfl
  | tokens model tier =>
    unfold BudgetCell.acked
    dsimp only
    rcases modelOf_prune c model with h | ⟨h, hd⟩
    · rw [h]
    · rw [h, (dead_get hd tier).2, get_zero]

/-! ## Rows and deltas -/

@[simp] theorem meter_default (m : Meter) : UsageLedger.default.meter m = 0 := by
  cases m with
  | requests => rfl
  | billable => rfl
  | tokens model tier => exact get_zero tier

theorem find_applyModelDelta (models : List ModelTokens) (d : ModelTokensDelta) (model : String) :
    ((applyModelDelta models d).find? (fun m => m.model = model)) =
      if d.model = model then
        some ⟨model, (((models.find? (fun m => m.model = model)).map ModelTokens.tokens).getD
          TierTokens.zero).addSigned d.tokens⟩
      else models.find? (fun m => m.model = model) := by
  induction models with
  | nil =>
    unfold applyModelDelta
    by_cases h : d.model = model <;> simp [h]
  | cons m ms ih =>
    unfold applyModelDelta
    by_cases hm : m.model = d.model
    · rw [if_pos hm]
      by_cases h : d.model = model
      · have hmm : m.model = model := hm.trans h
        simp [h, hmm]
      · have hmm : ¬ m.model = model := fun e => h (hm.symm.trans e)
        simp [h, hmm]
    · rw [if_neg hm]
      by_cases hmm : m.model = model
      · have h : ¬ d.model = model := fun e => hm (hmm.trans e.symm)
        simp [h, hmm]
      · rw [List.find?_cons_of_neg (by simpa using hmm), ih, List.find?_cons_of_neg (by simpa using hmm)]

/-- A row's tokens after a list of deltas of different models. -/
theorem tokens_foldl_applyModelDelta {ds : List ModelTokensDelta}
    (hnd : (ds.map ModelTokensDelta.model).Nodup) (models : List ModelTokens) (model : String) :
    (((ds.foldl applyModelDelta models).find? (fun m => m.model = model)).map ModelTokens.tokens).getD
        TierTokens.zero =
      match ds.find? (fun d => d.model = model) with
      | some d => (((models.find? (fun m => m.model = model)).map ModelTokens.tokens).getD
          TierTokens.zero).addSigned d.tokens
      | none => ((models.find? (fun m => m.model = model)).map ModelTokens.tokens).getD TierTokens.zero := by
  induction ds generalizing models with
  | nil => rfl
  | cons d ds ih =>
    rw [List.map_cons, List.nodup_cons] at hnd
    rw [List.foldl_cons, ih hnd.2, find_applyModelDelta]
    by_cases h : d.model = model
    · have hnone : ds.find? (fun d => d.model = model) = none := by
        rw [List.find?_eq_none]
        intro d' hd' he
        exact hnd.1 (List.mem_map.2 ⟨d', hd', (by simpa using he : d'.model = model).trans h.symm⟩)
      rw [hnone, List.find?_cons_of_pos (by simpa using h), if_pos h]
      rfl
    · rw [List.find?_cons_of_neg (by simpa using h), if_neg h]

/-- **A delta adds its reading to the row's**, saturating. -/
theorem meter_applyDelta {u : UsageLedger} {d : UsageDelta} (hnd : (d.models.map ModelTokensDelta.model).Nodup)
    (m : Meter) (hm : u.meter m ≤ u64Max) :
    (u.applyDelta d).meter m = satAddSigned (u.meter m) (d.meter m) := by
  cases m with
  | requests => rfl
  | billable => rfl
  | tokens model tier =>
    unfold UsageLedger.meter UsageLedger.tokensFor UsageLedger.applyDelta UsageDelta.meter
      UsageDelta.tokensFor at *
    dsimp only at *
    rw [tokens_foldl_applyModelDelta hnd]
    rcases hf : d.models.find? (fun d => d.model = model) with _ | e
    · rw [hf, Option.map_none, Option.getD_none, get_zeroDelta]
      exact (satAddSigned_of_le (by omega) hm).symm
    · rw [hf]
      exact get_addSigned _ _ _

/-! ## Sums over models -/

/-- The tokens of a list of models, all tiers together. -/
def totalOf (views : List (String × TierTokens)) : Nat := views.foldl (fun acc e => satAdd acc e.2.total) 0

/-- The counters of one model name in a list of models. -/
def viewOf (views : List (String × TierTokens)) (model : String) : TierTokens :=
  ((views.find? (fun e => e.1 = model)).map Prod.snd).getD TierTokens.zero

theorem viewOf_of_mem {l : List (String × TierTokens)} (hnd : (l.map Prod.fst).Nodup) {e : String × TierTokens}
    (he : e ∈ l) : viewOf l e.1 = e.2 := by
  unfold viewOf
  rcases hf : l.find? (fun e' => e'.1 = e.1) with _ | e₂
  · exact absurd (List.find?_eq_none.1 hf e he) (by simp)
  · have hk : e₂.1 = e.1 := by simpa using List.find?_some hf
    rw [hf, List.inj_on_of_nodup_map hnd (List.mem_of_find?_eq_some hf) he hk]
    rfl

/-- A sum over models, each of a weight that is nothing for a model without tokens, follows the single
models. -/
theorem sum_le_of_views {g : String × TierTokens → Nat} (hzero : ∀ model, g (model, TierTokens.zero) = 0)
    {l l' : List (String × TierTokens)} (hnd : (l.map Prod.fst).Nodup)
    (h : ∀ model, g (model, viewOf l model) ≤ g (model, viewOf l' model)) :
    (l.map g).sum ≤ (l'.map g).sum := by
  have hentry : ∀ e ∈ l, g e = 0 ∨ ∃ e' ∈ l', e'.1 = e.1 ∧ g e ≤ g e' := by
    intro e he
    have hle := h e.1
    rw [viewOf_of_mem hnd he] at hle
    unfold viewOf at hle
    rcases hf : l'.find? (fun e' => e'.1 = e.1) with _ | e'
    · rw [hf, Option.map_none, Option.getD_none, hzero] at hle
      exact Or.inl (Nat.le_zero.1 hle)
    · rw [hf] at hle
      have hk : e'.1 = e.1 := by simpa using List.find?_some hf
      have hpair : (e.1, e'.2) = e' := by rw [← hk]
      have hle : g e ≤ g (e.1, e'.2) := hle
      rw [hpair] at hle
      exact Or.inr ⟨e', List.mem_of_find?_eq_some hf, hk, hle⟩
  clear h
  induction l generalizing l' with
  | nil => exact Nat.zero_le _
  | cons e l ih =>
    rw [List.map_cons, List.nodup_cons] at hnd
    rw [List.map_cons, List.sum_cons]
    rcases hentry e List.mem_cons_self with hz | ⟨e', he', hkey, hle⟩
    · have := ih hnd.2 (fun e₂ he₂ => hentry e₂ (List.mem_cons_of_mem _ he₂))
      omega
    · -- the model's own entry is set aside, the others find theirs in the rest
      have hrest : (l.map g).sum ≤ ((l'.erase e').map g).sum := ih hnd.2 (fun e₂ he₂ => by
        rcases hentry e₂ (List.mem_cons_of_mem _ he₂) with hz | ⟨e₂', he₂', hkey₂, hle₂⟩
        · exact Or.inl hz
        · refine Or.inr ⟨e₂', (List.mem_erase_of_ne ?_).2 he₂', hkey₂, hle₂⟩
          rintro rfl
          exact hnd.1 (List.mem_map.2 ⟨e₂, he₂, hkey₂.symm.trans hkey⟩))
      have hsum := ((List.perm_cons_erase he').map g).sum_nat
      rw [List.map_cons, List.sum_cons] at hsum
      omega

theorem foldl_satAdd (views : List (String × TierTokens)) (acc : Nat) (h : acc ≤ u64Max) :
    views.foldl (fun acc e => satAdd acc e.2.total) acc =
      min (acc + (views.map (fun e => e.2.total)).sum) u64Max := by
  induction views generalizing acc with
  | nil =>
    rw [List.foldl_nil, List.map_nil, List.sum_nil]
    omega
  | cons e views ih =>
    have hs : satAdd acc e.2.total ≤ u64Max := by
      unfold satAdd
      omega
    rw [List.foldl_cons, ih _ hs, List.map_cons, List.sum_cons]
    unfold satAdd
    omega

theorem total_mono {t t' : TierTokens} (h : ∀ tier, t.get tier ≤ t'.get tier) : t.total ≤ t'.total := by
  have h₁ := h .input
  have h₂ := h .output
  have h₃ := h .cacheRead
  have h₄ := h .cacheWrite
  unfold TierTokens.get at h₁ h₂ h₃ h₄
  dsimp only at h₁ h₂ h₃ h₄
  unfold TierTokens.total satAdd
  omega

/-- Totals follow the counters of the single models. -/
theorem totalOf_le {l l' : List (String × TierTokens)} (hnd : (l.map Prod.fst).Nodup)
    (h : ∀ model tier, (viewOf l model).get tier ≤ (viewOf l' model).get tier) : totalOf l ≤ totalOf l' := by
  unfold totalOf
  rw [foldl_satAdd l 0 (Nat.zero_le _), foldl_satAdd l' 0 (Nat.zero_le _)]
  have hsum : (l.map (fun e => e.2.total)).sum ≤ (l'.map (fun e => e.2.total)).sum :=
    sum_le_of_views (g := fun e => e.2.total) (fun _ => rfl) hnd (fun model => total_mono (h model))
  omega

/-! ## Snapshots -/

theorem nodup_modelDeltas (c : BudgetCell) : ((modelDeltas c).map ModelTokensDelta.model).Nodup := by
  have hsub : ((modelDeltas c).map ModelTokensDelta.model).Sublist (c.models.rows.map Prod.fst) := by
    unfold modelDeltas
    induction c.models.rows with
    | nil => exact List.Sublist.slnil
    | cons e l ih =>
      rw [List.filterMap_cons]
      split
      · exact ih.cons _
      · rename_i x hx
        split at hx
        · cases hx
        · cases hx
          exact ih.cons_cons _
  exact c.models.nodup.sublist hsub

theorem find_modelViews (c : BudgetCell) (model : String) :
    (c.modelViews.find? (fun e => e.1 = model)) = (c.models.lookup model).map (fun m => (model, m.cur)) := by
  unfold BudgetCell.modelViews Table.lookup Registry.get
  rw [List.find?_map, Option.map_map]
  have hp : ((fun e : String × TierTokens => decide (e.1 = model)) ∘
      fun e : String × ModelCell => (e.1, e.2.cur)) = fun e => decide (e.1 = model) := rfl
  rw [hp]
  rcases hf : c.models.rows.find? (fun e => decide (e.1 = model)) with _ | e
  · rw [hf]; rfl
  · have he : e.1 = model := by simpa using List.find?_some hf
    rw [hf, Option.map_some, Option.map_some, ← he]
    rfl

/-- The reading of a snapshot is the cell's. -/
theorem cur_snap (id : String) (c : BudgetCell) (m : Meter) : (DirtySnap.of id c).cur m = c.cur m := by
  cases m with
  | requests => rfl
  | billable => rfl
  | tokens model tier =>
    show ((((c.modelViews.find? (fun e => e.1 = model)).map Prod.snd).getD TierTokens.zero).get tier) =
      (modelOf c.models model).cur.get tier
    rw [find_modelViews]
    unfold modelOf
    rcases c.models.lookup model with _ | mc <;> rfl

theorem find_modelDeltas (c : BudgetCell) (model : String) :
    (modelDeltas c).find? (fun d => d.model = model) =
      (c.models.lookup model).bind (fun m =>
        if (tokensDelta m).isZero then none else some ⟨model, tokensDelta m⟩) := by
  have hrow : ∀ e ∈ c.models.rows, e.1 = model → c.models.lookup model = some e.2 := by
    intro e he hk
    exact Table.lookup_eq_some.2 (hk ▸ he)
  rcases hl : c.models.lookup model with _ | mc
  · rw [Option.bind_none, List.find?_eq_none]
    intro d hd he
    obtain ⟨e, hmem, hx⟩ := List.mem_filterMap.1 hd
    split at hx
    · cases hx
    · cases hx
      have := hrow e hmem (by simpa using he)
      rw [hl] at this
      cases this
  · rw [Option.bind_some]
    have hmc := Table.lookup_eq_some.1 hl
    split
    · rename_i hz
      rw [List.find?_eq_none]
      intro d hd he
      obtain ⟨e, hmem, hx⟩ := List.mem_filterMap.1 hd
      split at hx
      · cases hx
      · rename_i hnz
        cases hx
        have := hrow e hmem (by simpa using he)
        rw [hl] at this
        exact hnz (Option.some.inj this ▸ hz)
    · rename_i hnz
      have hmem : (⟨model, tokensDelta mc⟩ : ModelTokensDelta) ∈ modelDeltas c := by
        refine List.mem_filterMap.2 ⟨(model, mc), hmc, ?_⟩
        rw [if_neg hnz]
      rcases hf : (modelDeltas c).find? (fun d => d.model = model) with _ | d
      · exact absurd (List.find?_eq_none.1 hf _ hmem) (by simp)
      · have hdm : d.model = model := by simpa using List.find?_some hf
        have heq := List.inj_on_of_nodup_map (nodup_modelDeltas c) (List.mem_of_find?_eq_some hf) hmem hdm
        rw [hf, heq]

/-- **The delta of a snapshot is current minus acknowledged**, in the signed domain. -/
theorem meter_snap (id : String) (c : BudgetCell) (m : Meter) :
    (DirtySnap.of id c).delta.meter m = signed (c.cur m) - signed (c.acked m) := by
  cases m with
  | requests => rfl
  | billable => rfl
  | tokens model tier =>
    show ((((modelDeltas c).find? (fun d => d.model = model)).map ModelTokensDelta.tokens).getD
      ⟨0, 0, 0, 0⟩).get tier = signed ((modelOf c.models model).cur.get tier) -
        signed ((modelOf c.models model).flushed.get tier)
    rw [find_modelDeltas]
    unfold modelOf
    rcases c.models.lookup model with _ | mc
    · simp
    · simp only [Option.bind_some, Option.getD_some]
      split
      · rename_i hz
        have h0 := (isZero_iff _).1 hz tier
        rw [get_tokensDelta] at h0
        rw [Option.map_none, Option.getD_none, get_zeroDelta, h0]
      · exact get_tokensDelta mc tier

end Busbar
