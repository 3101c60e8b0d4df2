import Busbar.Cost
import Mathlib.Algebra.Order.BigOperators.Group.List
import Mathlib.Algebra.Order.Ring.Int
import Mathlib.Tactic.Linarith
import Mathlib.Tactic.Ring

/-!
# Spend

Spend is derived from tokens and rates at the time it is read. The total of a ledger saturates; the cost of one model
is four products summed in 128 bits, which hold any one of them but not all four.

* `CostModel.deriveSpendMicros`: the spend in micro-units, beside the one in cents.
* `CostModel.deriveSpendCents_eq`, `CostModel.deriveSpendMicros_eq`: what the two compute, saturations included.
* `CostModel.spend_exact_iff`: the spend is the exact total, saturated, if and only if no model's cost wraps or what is
  left of the costs saturates anyway; then it grows with every count, rate and fee.
* `CostModel.wrapped_cost_is_free`: a ledger whose cost wraps to zero.
-/

namespace Busbar

/-- The cost of one split at one rate. -/
def RateNanos.exactNanos (r : RateNanos) (t : TierTokens) : Nat :=
  t.input * r.input + t.output * r.output + t.cacheRead * r.cacheRead + t.cacheWrite * r.cacheWrite

theorem RateNanos.costNanos_eq (r : RateNanos) (t : TierTokens) : r.costNanos t = r.exactNanos t % 2 ^ 128 := rfl

namespace CostModel

def nanosPerMicro : Nat := 1000

/-- The loop over a ledger's models. -/
def ledgerNanos (cost : CostModel) (models : List (String × TierTokens)) : Nat :=
  models.foldl (fun nanos m =>
    match cost.rateFor m.1 with
    | some rate => min (nanos + rate.costNanos m.2) (2 ^ 128 - 1)
    | none => nanos) 0

/-- Spend in micro-units; a cent is 10000 of them. -/
def deriveSpendMicros (cost : CostModel) (models : List (String × TierTokens)) (feeRequests : Nat)
    (includeRequestFee : Bool) : Int :=
  let micros : Int := min (cost.ledgerNanos models / nanosPerMicro : Nat) i64Max
  if includeRequestFee then
    let fee := min (min (cost.pricePerRequestCents * 10000) i64Max * min (feeRequests : Int) i64Max) i64Max
    min (micros + fee) i64Max
  else micros

variable (cost : CostModel) (models : List (String × TierTokens)) (feeRequests : Nat) (includeRequestFee : Bool)

/-! ## The exact total -/

/-- The cost of a model's tokens; a model without a rate costs nothing. -/
def modelNanos (m : String × TierTokens) : Nat := ((cost.rateFor m.1).map fun r => r.exactNanos m.2).getD 0

def totalNanos : Nat := (models.map cost.modelNanos).sum

def requestFee : Int := if includeRequestFee then cost.pricePerRequestCents * feeRequests else 0

def exactCents : Int := (cost.totalNanos models / nanosPerCent : Nat) + cost.requestFee feeRequests includeRequestFee

def exactMicros : Int :=
  (cost.totalNanos models / nanosPerMicro : Nat) + 10000 * cost.requestFee feeRequests includeRequestFee

/-- Both projections are the exact total where it fits, and the greatest value where it does not. -/
def SpendExact : Prop :=
  cost.deriveSpendCents models feeRequests includeRequestFee =
      min (cost.exactCents models feeRequests includeRequestFee) i64Max ∧
    cost.deriveSpendMicros models feeRequests includeRequestFee =
      min (cost.exactMicros models feeRequests includeRequestFee) i64Max

/-- The cost of each model fits 128 bits. -/
def CostsFit : Prop := ∀ m ∈ models, cost.modelNanos m < 2 ^ 128

/-- What the 128 bits hold of the costs. -/
def heldNanos : Nat := (models.map fun m => cost.modelNanos m % 2 ^ 128).sum

/-- The spend is beyond the type even without what the costs exceed 128 bits by. -/
def StillSaturates : Prop :=
  i64Max ≤ (cost.heldNanos models / nanosPerCent : Nat) + cost.requestFee feeRequests includeRequestFee

/-! ## What the two projections compute -/

theorem foldl_saturating {α : Type} (f : α → Nat) (bound : Nat) (l : List α) (n : Nat) (hn : n ≤ bound) :
    l.foldl (fun acc a => min (acc + f a) bound) n = min (n + (l.map f).sum) bound := by
  induction l generalizing n with
  | nil => simp [hn]
  | cons a l ih =>
    rw [List.foldl_cons, ih _ (Nat.min_le_right _ _), List.map_cons, List.sum_cons]
    omega

theorem ledgerNanos_eq : cost.ledgerNanos models = min (cost.heldNanos models) (2 ^ 128 - 1) := by
  have hstep : (fun (nanos : Nat) (m : String × TierTokens) =>
      match cost.rateFor m.1 with
      | some rate => min (nanos + rate.costNanos m.2) (2 ^ 128 - 1)
      | none => nanos) =
      fun nanos m => if (cost.rateFor m.1).isSome
        then min (nanos + cost.modelNanos m % 2 ^ 128) (2 ^ 128 - 1) else nanos := by
    funext nanos m
    unfold modelNanos
    cases cost.rateFor m.1 with
    | none => rfl
    | some r => rfl
  have hbounded : ∀ (l : List (String × TierTokens)) (n : Nat), n ≤ 2 ^ 128 - 1 →
      l.foldl (fun nanos m => if (cost.rateFor m.1).isSome
        then min (nanos + cost.modelNanos m % 2 ^ 128) (2 ^ 128 - 1) else nanos) n =
      l.foldl (fun nanos m => min (nanos + cost.modelNanos m % 2 ^ 128) (2 ^ 128 - 1)) n := by
    intro l
    induction l with
    | nil => exact fun _ _ => rfl
    | cons m l ih =>
      intro n hn
      rw [List.foldl_cons, List.foldl_cons]
      have hsame : (if (cost.rateFor m.1).isSome
          then min (n + cost.modelNanos m % 2 ^ 128) (2 ^ 128 - 1) else n) =
          min (n + cost.modelNanos m % 2 ^ 128) (2 ^ 128 - 1) := by
        cases hr : cost.rateFor m.1 with
        | some r => rfl
        | none =>
          -- a model without a rate adds nothing
          have hfree : cost.modelNanos m = 0 := by rw [modelNanos, hr]; rfl
          rw [hfree, Nat.zero_mod, Nat.add_zero, Nat.min_eq_left hn]
          rfl
      rw [hsame]
      exact ih _ (Nat.min_le_right _ _)
  unfold ledgerNanos heldNanos
  rw [hstep, hbounded models 0 (Nat.zero_le _),
    foldl_saturating (fun m => cost.modelNanos m % 2 ^ 128) _ models 0 (Nat.zero_le _), Nat.zero_add]

/-- A fee that saturates in steps saturates as a whole. -/
theorem saturated_fee {price : Int} (hprice : 0 ≤ price) (n : Nat) :
    min (min price i64Max * min (n : Int) i64Max) i64Max = min (price * n) i64Max := by
  have hmax : (1 : Int) ≤ i64Max := by decide
  rcases Nat.eq_zero_or_pos n with rfl | hn
  · have hzero : min ((0 : Nat) : Int) i64Max = 0 := by decide
    rw [hzero, mul_zero, Nat.cast_zero, mul_zero]
  have hn1 : (1 : Int) ≤ n := by exact_mod_cast hn
  rcases Int.lt_or_le i64Max price with hp | hp
  · have h₁ : i64Max ≤ min price i64Max * min (n : Int) i64Max := by
      rw [min_eq_right hp.le]
      exact le_mul_of_one_le_right (by omega) (le_min hn1 hmax)
    have h₂ : i64Max ≤ price * n := hp.le.trans (le_mul_of_one_le_right hprice hn1)
    rw [min_eq_right h₁, min_eq_right h₂]
  rw [min_eq_left hp]
  rcases Int.lt_or_le i64Max n with hbig | hsmall
  · rcases Int.lt_or_le 0 price with hpos | hzero
    · have h₁ : i64Max ≤ price * min (n : Int) i64Max := by
        rw [min_eq_right hbig.le]
        exact le_mul_of_one_le_left (by omega) hpos
      have h₂ : i64Max ≤ price * n := hbig.le.trans (le_mul_of_one_le_left (by omega) hpos)
      rw [min_eq_right h₁, min_eq_right h₂]
    · have hp0 : price = 0 := by omega
      rw [hp0, zero_mul, zero_mul]
  · rw [min_eq_left hsmall]

/-- Saturating the parts first changes nothing. -/
theorem min_add_min {a b M : Int} (ha : 0 ≤ a) (hb : 0 ≤ b) (hM : 0 ≤ M) :
    min (min a M + min b M) M = min (a + b) M := by
  omega

theorem i64Max_nonneg : (0 : Int) ≤ i64Max := by decide

variable {cost}

theorem requestFee_nonneg (hprice : 0 ≤ cost.pricePerRequestCents) :
    0 ≤ cost.requestFee feeRequests includeRequestFee := by
  unfold requestFee
  split
  · exact mul_nonneg hprice (Int.natCast_nonneg _)
  · exact le_rfl

/-- The 128 bits saturate beyond what 64 hold in either unit. -/
theorem saturated_units (held : Nat) {k : Nat} (hk : 1 ≤ k) (hle : k ≤ nanosPerCent) :
    min ((min held (2 ^ 128 - 1) / k : Nat) : Int) i64Max = min ((held / k : Nat) : Int) i64Max := by
  rcases Nat.lt_or_ge held (2 ^ 128) with hfit | hbig
  · rw [Nat.min_eq_left (by omega)]
  · have hcap : (2 ^ 128 - 1) / nanosPerCent ≤ (2 ^ 128 - 1) / k := Nat.div_le_div_left hle hk
    have hcap' : (2 ^ 128 - 1) / k ≤ held / k := Nat.div_le_div_right (by omega)
    have hgreat : i64Max ≤ ((2 ^ 128 - 1) / nanosPerCent : Nat) := by decide
    rw [Nat.min_eq_right (by omega)]
    omega

theorem deriveSpendCents_eq (hprice : 0 ≤ cost.pricePerRequestCents) (hmax : cost.pricePerRequestCents ≤ i64Max) :
    cost.deriveSpendCents models feeRequests includeRequestFee =
      min ((cost.heldNanos models / nanosPerCent : Nat) + cost.requestFee feeRequests includeRequestFee) i64Max := by
  have hheld := saturated_units (cost.heldNanos models) (k := nanosPerCent) (by decide) le_rfl
  have hnonneg := requestFee_nonneg feeRequests includeRequestFee hprice
  have hfee := saturated_fee hprice feeRequests
  rw [min_eq_left hmax] at hfee
  have hshape : cost.deriveSpendCents models feeRequests includeRequestFee =
      max (if includeRequestFee
        then min (min ((cost.ledgerNanos models / nanosPerCent : Nat) : Int) i64Max +
          min (cost.pricePerRequestCents * min (feeRequests : Int) i64Max) i64Max) i64Max
        else min ((cost.ledgerNanos models / nanosPerCent : Nat) : Int) i64Max) 0 := rfl
  rw [hshape, ledgerNanos_eq, hheld, hfee]
  unfold requestFee at hnonneg ⊢
  cases includeRequestFee with
  | true =>
    rw [if_pos rfl] at hnonneg
    rw [if_pos rfl, if_pos rfl, min_add_min (Int.natCast_nonneg _) hnonneg i64Max_nonneg]
    exact max_eq_left (le_min (add_nonneg (Int.natCast_nonneg _) hnonneg) i64Max_nonneg)
  | false =>
    rw [if_neg Bool.false_ne_true, if_neg Bool.false_ne_true, add_zero]
    exact max_eq_left (le_min (Int.natCast_nonneg _) i64Max_nonneg)

theorem deriveSpendMicros_eq (hprice : 0 ≤ cost.pricePerRequestCents) :
    cost.deriveSpendMicros models feeRequests includeRequestFee =
      min ((cost.heldNanos models / nanosPerMicro : Nat) + 10000 * cost.requestFee feeRequests includeRequestFee)
        i64Max := by
  have hheld := saturated_units (cost.heldNanos models) (k := nanosPerMicro) (by decide) (by decide)
  have hnonneg := requestFee_nonneg feeRequests includeRequestFee hprice
  have hmicroPrice : 0 ≤ cost.pricePerRequestCents * 10000 := by omega
  have hfee := saturated_fee hmicroPrice feeRequests
  unfold deriveSpendMicros
  dsimp only
  rw [ledgerNanos_eq, hheld, hfee]
  unfold requestFee at hnonneg ⊢
  have hcomm : cost.pricePerRequestCents * 10000 * (feeRequests : Int) =
      10000 * (cost.pricePerRequestCents * feeRequests) := by ring
  cases includeRequestFee with
  | true =>
    rw [if_pos rfl] at hnonneg
    rw [if_pos rfl, if_pos rfl, hcomm]
    exact min_add_min (Int.natCast_nonneg _) (by omega) i64Max_nonneg
  | false => rw [if_neg Bool.false_ne_true, if_neg Bool.false_ne_true, mul_zero, add_zero]

/-! ## When the spend is exact -/

theorem heldNanos_of_fit (h : cost.CostsFit models) : cost.heldNanos models = cost.totalNanos models :=
  congrArg List.sum (List.map_congr_left fun m hm => Nat.mod_eq_of_lt (h m hm))

theorem totalNanos_of_not_fit (h : ¬ cost.CostsFit models) : 2 ^ 128 ≤ cost.totalNanos models := by
  unfold CostsFit at h
  push Not at h
  obtain ⟨m, hm, hbig⟩ := h
  have hsum : cost.modelNanos m ≤ cost.totalNanos models :=
    List.single_le_sum (fun _ _ => Nat.zero_le _) _ (List.mem_map_of_mem hm)
  exact hbig.trans hsum

/-- A cost beyond 128 bits is beyond the type in either unit. -/
theorem units_of_not_fit {k : Nat} (hk : 1 ≤ k) (hle : k ≤ nanosPerCent) (h : ¬ cost.CostsFit models) :
    i64Max ≤ (cost.totalNanos models / k : Nat) := by
  have hbig := totalNanos_of_not_fit models h
  have hcap : 2 ^ 128 / nanosPerCent ≤ 2 ^ 128 / k := Nat.div_le_div_left hle hk
  have hcap' : 2 ^ 128 / k ≤ cost.totalNanos models / k := Nat.div_le_div_right hbig
  have hgreat : i64Max ≤ (2 ^ 128 / nanosPerCent : Nat) := by decide
  omega

/-- What saturates in cents saturates in micro-units. -/
theorem micros_of_cents (hprice : 0 ≤ cost.pricePerRequestCents)
    (h : cost.StillSaturates models feeRequests includeRequestFee) :
    i64Max ≤ (cost.heldNanos models / nanosPerMicro : Nat) +
      10000 * cost.requestFee feeRequests includeRequestFee := by
  have hfee := requestFee_nonneg feeRequests includeRequestFee hprice
  have hunits : cost.heldNanos models / nanosPerCent ≤ cost.heldNanos models / nanosPerMicro :=
    Nat.div_le_div_left (by decide) (by decide)
  unfold StillSaturates at h
  omega

theorem spendExact_iff (hprice : 0 ≤ cost.pricePerRequestCents) (hmax : cost.pricePerRequestCents ≤ i64Max) :
    cost.SpendExact models feeRequests includeRequestFee ↔
      cost.CostsFit models ∨ cost.StillSaturates models feeRequests includeRequestFee := by
  have hfee := requestFee_nonneg feeRequests includeRequestFee hprice
  unfold SpendExact exactCents exactMicros
  rw [deriveSpendCents_eq models feeRequests includeRequestFee hprice hmax,
    deriveSpendMicros_eq models feeRequests includeRequestFee hprice]
  by_cases hfit : cost.CostsFit models
  · rw [heldNanos_of_fit models hfit]
    exact iff_of_true ⟨rfl, rfl⟩ (Or.inl hfit)
  have hcents := units_of_not_fit models (k := nanosPerCent) (by decide) le_rfl hfit
  have hmicros := units_of_not_fit models (k := nanosPerMicro) (by decide) (by decide) hfit
  rw [min_eq_right (hcents.trans (le_add_of_nonneg_right hfee)),
    min_eq_right (hmicros.trans (le_add_of_nonneg_right (by omega)))]
  constructor
  · rintro ⟨hc, -⟩
    exact Or.inr (min_eq_right_iff.1 hc)
  · rintro (hf | hsat)
    · exact absurd hf hfit
    · exact ⟨min_eq_right hsat, min_eq_right (micros_of_cents models feeRequests includeRequestFee hprice hsat)⟩

/-! ## Monotonicity -/

def tokensAtMost (t t' : TierTokens) : Prop :=
  t.input ≤ t'.input ∧ t.output ≤ t'.output ∧ t.cacheRead ≤ t'.cacheRead ∧ t.cacheWrite ≤ t'.cacheWrite

def ratesAtMost (r r' : RateNanos) : Prop :=
  r.input ≤ r'.input ∧ r.output ≤ r'.output ∧ r.cacheRead ≤ r'.cacheRead ∧ r.cacheWrite ≤ r'.cacheWrite

/-- No token count, rate, fee or number of requests is less on the right. -/
structure Grows (cost : CostModel) (models : List (String × TierTokens)) (feeRequests : Nat)
    (cost' : CostModel) (models' : List (String × TierTokens)) (feeRequests' : Nat) : Prop where
  tokens : List.Forall₂ (fun m m' => m.1 = m'.1 ∧ tokensAtMost m.2 m'.2) models models'
  rates : ∀ model r, cost.rateFor model = some r → ∃ r', cost'.rateFor model = some r' ∧ ratesAtMost r r'
  price : cost.pricePerRequestCents ≤ cost'.pricePerRequestCents
  requests : feeRequests ≤ feeRequests'

theorem exactNanos_mono {r r' : RateNanos} {t t' : TierTokens} (hr : ratesAtMost r r') (ht : tokensAtMost t t') :
    r.exactNanos t ≤ r'.exactNanos t' := by
  obtain ⟨hr₁, hr₂, hr₃, hr₄⟩ := hr
  obtain ⟨ht₁, ht₂, ht₃, ht₄⟩ := ht
  have h₁ := Nat.mul_le_mul ht₁ hr₁
  have h₂ := Nat.mul_le_mul ht₂ hr₂
  have h₃ := Nat.mul_le_mul ht₃ hr₃
  have h₄ := Nat.mul_le_mul ht₄ hr₄
  unfold RateNanos.exactNanos
  omega

variable {models feeRequests} {cost' : CostModel} {models' : List (String × TierTokens)} {feeRequests' : Nat}

theorem Grows.totalNanos (h : Grows cost models feeRequests cost' models' feeRequests') :
    cost.totalNanos models ≤ cost'.totalNanos models' := by
  have hmodel : ∀ m m' : String × TierTokens, m.1 = m'.1 ∧ tokensAtMost m.2 m'.2 →
      cost.modelNanos m ≤ cost'.modelNanos m' := by
    rintro m m' ⟨hname, ht⟩
    unfold modelNanos
    rw [← hname]
    cases hr : cost.rateFor m.1 with
    | none => exact Nat.zero_le _
    | some r =>
      obtain ⟨r', hr', hle⟩ := h.rates m.1 r hr
      rw [hr']
      exact exactNanos_mono hle ht
  have htokens := h.tokens
  unfold CostModel.totalNanos
  clear h
  induction htokens with
  | nil => exact le_rfl
  | cons hm _ ih =>
    rw [List.map_cons, List.map_cons, List.sum_cons, List.sum_cons]
    exact Nat.add_le_add (hmodel _ _ hm) ih

theorem Grows.requestFee (h : Grows cost models feeRequests cost' models' feeRequests')
    (hprice : 0 ≤ cost.pricePerRequestCents) :
    cost.requestFee feeRequests includeRequestFee ≤ cost'.requestFee feeRequests' includeRequestFee := by
  have hreq : (feeRequests : Int) ≤ feeRequests' := by exact_mod_cast h.requests
  unfold CostModel.requestFee
  split
  · exact mul_le_mul h.price hreq (Int.natCast_nonneg _) (hprice.trans h.price)
  · exact le_rfl

/-- The exact totals grow, and so do the projections that are exact. -/
theorem Grows.spend (h : Grows cost models feeRequests cost' models' feeRequests')
    (hprice : 0 ≤ cost.pricePerRequestCents) (he : cost.SpendExact models feeRequests includeRequestFee)
    (he' : cost'.SpendExact models' feeRequests' includeRequestFee) :
    cost.deriveSpendCents models feeRequests includeRequestFee ≤
        cost'.deriveSpendCents models' feeRequests' includeRequestFee ∧
      cost.deriveSpendMicros models feeRequests includeRequestFee ≤
        cost'.deriveSpendMicros models' feeRequests' includeRequestFee := by
  have htotal := h.totalNanos
  have hfee := h.requestFee includeRequestFee hprice
  have hcents : cost.totalNanos models / nanosPerCent ≤ cost'.totalNanos models' / nanosPerCent :=
    Nat.div_le_div_right htotal
  have hmicros : cost.totalNanos models / nanosPerMicro ≤ cost'.totalNanos models' / nanosPerMicro :=
    Nat.div_le_div_right htotal
  rw [he.1, he.2, he'.1, he'.2]
  unfold exactCents exactMicros
  exact ⟨min_le_min_right _ (by omega), min_le_min_right _ (by omega)⟩

variable (models feeRequests)

/-- **When the derived spend is right.** It is the exact total, or the greatest value where that does not fit, if and
only if the cost of each model fits 128 bits or what is held of the costs saturates anyway. It is never negative, and
where it is right it grows with every token count, rate, fee and number of requests. -/
theorem spend_exact_iff (hprice : 0 ≤ cost.pricePerRequestCents) (hmax : cost.pricePerRequestCents ≤ i64Max) :
    (cost.SpendExact models feeRequests includeRequestFee ↔
      cost.CostsFit models ∨ cost.StillSaturates models feeRequests includeRequestFee) ∧
    0 ≤ cost.deriveSpendCents models feeRequests includeRequestFee ∧
    0 ≤ cost.deriveSpendMicros models feeRequests includeRequestFee ∧
    ∀ (cost' : CostModel) (models' : List (String × TierTokens)) (feeRequests' : Nat),
      Grows cost models feeRequests cost' models' feeRequests' →
      cost.SpendExact models feeRequests includeRequestFee → cost'.SpendExact models' feeRequests' includeRequestFee →
      cost.deriveSpendCents models feeRequests includeRequestFee ≤
          cost'.deriveSpendCents models' feeRequests' includeRequestFee ∧
        cost.deriveSpendMicros models feeRequests includeRequestFee ≤
          cost'.deriveSpendMicros models' feeRequests' includeRequestFee := by
  have hfee := requestFee_nonneg feeRequests includeRequestFee hprice
  refine ⟨spendExact_iff models feeRequests includeRequestFee hprice hmax, ?_, ?_, ?_⟩
  · rw [deriveSpendCents_eq models feeRequests includeRequestFee hprice hmax]
    exact le_min (add_nonneg (Int.natCast_nonneg _) hfee) i64Max_nonneg
  · rw [deriveSpendMicros_eq models feeRequests includeRequestFee hprice]
    exact le_min (add_nonneg (Int.natCast_nonneg _) (by omega)) i64Max_nonneg
  · intro cost' models' feeRequests' hgrows he he'
    exact hgrows.spend includeRequestFee hprice he he'

/-- A rate card of one model, and its ledger. -/
def pricedAt (rate : Nat) : CostModel where
  rates := some (Table.insert "m" ⟨rate, rate, rate, rate⟩ Registry.empty)
  groups := []
  groupIdx := fun _ => none
  cappedBucketIds := []
  pricePerRequestCents := 0

def usedTokens (tokens : Nat) : List (String × TierTokens) := [("m", ⟨tokens, tokens, tokens, tokens⟩)]

theorem spend_exact_iff_small : (pricedAt 1000).SpendExact (usedTokens 1000000) 3 true := by
  have hprice : 0 ≤ (pricedAt 1000).pricePerRequestCents := by decide
  obtain ⟨hiff, -⟩ := spend_exact_iff (usedTokens 1000000) 3 true hprice (by decide)
  refine hiff.2 (Or.inl fun m hm => ?_)
  obtain rfl := List.mem_singleton.1 hm
  decide +kernel

/-- **A ledger over the top is free.** Four products of `2 ^ 126` sum to zero in 128 bits. -/
theorem wrapped_cost_is_free :
    (pricedAt (2 ^ 63)).deriveSpendCents (usedTokens (2 ^ 63)) 0 true = 0 ∧
      i64Max < (pricedAt (2 ^ 63)).exactCents (usedTokens (2 ^ 63)) 0 true ∧
      ¬ (pricedAt (2 ^ 63)).SpendExact (usedTokens (2 ^ 63)) 0 true := by
  have hfree : (pricedAt (2 ^ 63)).deriveSpendCents (usedTokens (2 ^ 63)) 0 true = 0 := by decide +kernel
  have hbig : i64Max < (pricedAt (2 ^ 63)).exactCents (usedTokens (2 ^ 63)) 0 true := by decide +kernel
  refine ⟨hfree, hbig, fun he => ?_⟩
  have hright := he.1
  rw [hfree, min_eq_right hbig.le] at hright
  exact absurd hright (by decide)

end CostModel

end Busbar
