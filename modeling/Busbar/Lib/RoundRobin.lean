import Mathlib.Algebra.BigOperators.Ring.Finset
import Mathlib.Algebra.Order.BigOperators.Group.Finset
import Mathlib.Tactic.Linarith
import Mathlib.Tactic.Ring

/-!
# Smooth weighted round robin

Members hold accounts. In a turn some members get credits, and one whose account is then the greatest among
those with a credit pays all the credits back. The members with a credit and the credits may differ from
turn to turn.

* `sum_turn`: a turn keeps the sum of the accounts.
* `Level.turn`: the accounts of any `k` of `n` members stay below `k * (n - k)` times the greatest total.
* `Level.bounds`: so accounts that sum to zero are bounded, however long the schedule runs.
* `Schedule.accounts_gt`, `Schedule.accounts_lt`: the bounds when the credits are the same in every turn.
* `Schedule.wins_add`: then any turns as many as the total are shared out in proportion to the credits.
-/

namespace RoundRobin

open Finset

variable {α : Type} [DecidableEq α]

/-- The accounts after a turn. -/
def turn (credit : α → ℤ) (total : ℤ) (winner : α) (x : α → ℤ) : α → ℤ :=
  fun i => x i + credit i - if i = winner then total else 0

variable {s T : Finset α} {credit x : α → ℤ} {total B : ℤ} {winner : α}

/-- What a turn does to the accounts of a set of members. -/
theorem sum_turn_of (T : Finset α) :
    ∑ i ∈ T, turn credit total winner x i =
      ∑ i ∈ T, x i + ∑ i ∈ T, credit i - if winner ∈ T then total else 0 := by
  unfold turn
  rw [sum_sub_distrib, sum_add_distrib, sum_ite_eq']

/-- **A turn keeps the sum.** -/
theorem sum_turn (htotal : ∑ i ∈ s, credit i = total) (hw : winner ∈ s) :
    ∑ i ∈ s, turn credit total winner x i = ∑ i ∈ s, x i := by
  rw [sum_turn_of, if_pos hw, htotal]
  ring

/-- The accounts of any `k` of the `n` members sum to at most `B * k * (n - k)`. -/
def Level (B : ℤ) (s : Finset α) (x : α → ℤ) : Prop :=
  ∀ T ⊆ s, ∑ i ∈ T, x i ≤ B * (#T * (#s - #T))

omit [DecidableEq α] in
theorem Level.zero (hB : 0 ≤ B) (s : Finset α) : Level B s (fun _ => 0) := by
  intro T hT
  have hcard : (#T : ℤ) ≤ #s := by exact_mod_cast card_le_card hT
  have hT0 : (0 : ℤ) ≤ #T := Int.natCast_nonneg _
  have hs : (0 : ℤ) ≤ #s - #T := by linarith
  rw [sum_const_zero]
  positivity

omit [DecidableEq α] in
theorem Level.congr {x' : α → ℤ} (h : Level B s x) (hx : ∀ i ∈ s, x' i = x i) : Level B s x' := by
  intro T hT
  rw [sum_congr rfl fun i hi => hx i (hT hi)]
  exact h T hT

/-- **A turn keeps the level.** A set with the winner only loses. A set without it that gained has a member that
the winner beat: trade that member for the winner, and the two smaller bounds around the set average below its
own. -/
theorem Level.turn (h : Level B s x) (hpos : ∀ i, 0 ≤ credit i) (htotal : ∑ i ∈ s, credit i = total)
    (hB : total ≤ B) (hw : winner ∈ s)
    (hbest : ∀ i ∈ s, 0 < credit i → x i + credit i ≤ x winner + credit winner) :
    Level B s (turn credit total winner x) := by
  intro T hT
  have hgain : ∑ i ∈ T, credit i ≤ total := by
    rw [← htotal]
    exact sum_le_sum_of_subset_of_nonneg hT fun i _ _ => hpos i
  rw [sum_turn_of]
  by_cases hwT : winner ∈ T
  · rw [if_pos hwT]
    have hbound := h T hT
    linarith
  rw [if_neg hwT, sub_zero]
  by_cases hnone : ∀ i ∈ T, credit i = 0
  · rw [sum_eq_zero hnone, add_zero]
    exact h T hT
  push Not at hnone
  obtain ⟨i, hiT, hci⟩ := hnone
  have hcredit : 0 < credit i := lt_of_le_of_ne (hpos i) (Ne.symm hci)
  have hbeat := hbest i (hT hiT) hcredit
  -- the set with the winner, and the set without the beaten member
  have hplus := h (insert winner T) (insert_subset hw hT)
  have hminus := h (T.erase i) ((erase_subset i T).trans hT)
  rw [sum_insert hwT, card_insert_of_notMem hwT] at hplus
  have hsplit : ∑ j ∈ T.erase i, x j = ∑ j ∈ T, x j - x i := by
    rw [← sum_erase_add T x hiT]
    ring
  have hcardi : ((#(T.erase i) : ℕ) : ℤ) = #T - 1 := by
    rw [card_erase_of_mem hiT, Nat.cast_sub (card_pos.2 ⟨i, hiT⟩), Nat.cast_one]
  rw [hsplit, hcardi] at hminus
  have hrest : ∑ j ∈ T, credit j + credit winner ≤ total := by
    rw [← htotal, add_comm, ← sum_insert hwT]
    exact sum_le_sum_of_subset_of_nonneg (insert_subset hw hT) fun i _ _ => hpos i
  have hcw := hpos winner
  push_cast at hplus
  -- the second difference of `k * (n - k)` is `-2`
  have harith : B * ((#T + 1) * (#s - (#T + 1))) + B * ((#T - 1) * (#s - (#T - 1))) =
      2 * (B * (#T * (#s - #T))) - 2 * B := by ring
  linarith

/-- Accounts that sum to zero are bounded on both sides. -/
theorem Level.bounds (h : Level B s x) (hsum : ∑ i ∈ s, x i = 0) {i : α} (hi : i ∈ s) :
    -(B * (#s - 1)) ≤ x i ∧ x i ≤ B * (#s - 1) := by
  constructor
  · have hothers := h (s.erase i) (erase_subset i s)
    have hsplit : ∑ j ∈ s.erase i, x j = - x i := by
      have := sum_erase_add s x hi
      linarith
    have hcard : ((#(s.erase i) : ℕ) : ℤ) = #s - 1 := by
      rw [card_erase_of_mem hi, Nat.cast_sub (card_pos.2 ⟨i, hi⟩), Nat.cast_one]
    rw [hsplit, hcard] at hothers
    have : B * ((#s - 1) * (#s - (#s - 1))) = B * (#s - 1) := by ring
    linarith
  · have hone := h {i} (singleton_subset_iff.2 hi)
    rw [sum_singleton, card_singleton] at hone
    simpa using hone

/-! ## The same credits in every turn -/

/-- In a turn someone's account is positive before the payment, so no account falls to minus the total. -/
theorem turn_gt (hsum : ∑ i ∈ s, x i = 0) (htotal : ∑ i ∈ s, credit i = total) (hpos : 0 < total)
    (hcredit : ∀ i, 0 ≤ credit i) (hbest : ∀ i ∈ s, x i + credit i ≤ x winner + credit winner)
    (hlow : ∀ i ∈ s, -total < x i) : ∀ i ∈ s, -total < turn credit total winner x i := by
  have hwinner : 0 < x winner + credit winner := by
    by_contra hno
    have hall : ∑ i ∈ s, (x i + credit i) ≤ 0 := sum_nonpos fun i hi => (hbest i hi).trans (not_lt.1 hno)
    rw [sum_add_distrib, hsum, htotal] at hall
    omega
  intro i hi
  have hbefore := hlow i hi
  have hgain := hcredit i
  unfold turn
  by_cases hw : i = winner
  · rw [if_pos hw, hw]
    omega
  · rw [if_neg hw]
    omega

/-- A schedule: who wins is a function of the accounts. -/
structure Schedule (s : Finset α) (credit : α → ℤ) (total : ℤ) where
  pick : (α → ℤ) → α
  mem : ∀ x, pick x ∈ s
  best : ∀ x, ∀ i ∈ s, x i + credit i ≤ x (pick x) + credit (pick x)

namespace Schedule

variable (S : Schedule s credit total)

/-- The accounts after `n` turns from zero. -/
def accounts : ℕ → α → ℤ
  | 0 => fun _ => 0
  | n + 1 => turn credit total (S.pick (accounts n)) (accounts n)

/-- How often a member has won in the first `n` turns. -/
def wins (n : ℕ) (i : α) : ℕ := #{j ∈ range n | S.pick (S.accounts j) = i}

theorem wins_succ (n : ℕ) (i : α) : S.wins (n + 1) i = S.wins n i + if S.pick (S.accounts n) = i then 1 else 0 := by
  unfold wins
  rw [range_add_one, filter_insert]
  split
  · rw [card_insert_of_notMem (by simp)]
  · rfl

/-- An account is what its member got less what it paid. -/
theorem accounts_eq (n : ℕ) (i : α) : S.accounts n i = n * credit i - total * S.wins n i := by
  induction n with
  | zero => simp [accounts, wins]
  | succ n ih =>
    rw [accounts, turn, ih, wins_succ]
    by_cases hw : S.pick (S.accounts n) = i
    · rw [if_pos hw.symm, if_pos hw]
      push_cast
      ring
    · rw [if_neg (Ne.symm hw), if_neg hw]
      push_cast
      ring

variable (htotal : ∑ i ∈ s, credit i = total)
include htotal

theorem sum_accounts (n : ℕ) : ∑ i ∈ s, S.accounts n i = 0 := by
  induction n with
  | zero => simp [accounts]
  | succ n ih => rw [accounts, sum_turn htotal (S.mem _), ih]

variable (hpos : 0 < total) (hcredit : ∀ i, 0 ≤ credit i)
include hpos hcredit

theorem accounts_gt (n : ℕ) : ∀ i ∈ s, -total < S.accounts n i := by
  induction n with
  | zero =>
    intro i _
    show -total < 0
    omega
  | succ n ih => exact turn_gt (S.sum_accounts htotal n) htotal hpos hcredit (S.best _) ih

/-- No account reaches the total times the number of members. -/
theorem accounts_lt (n : ℕ) {i : α} (hi : i ∈ s) : S.accounts n i ≤ total * (#s - 1) := by
  have hsum := S.sum_accounts htotal n
  rw [← add_sum_erase s _ hi] at hsum
  have hothers : ∑ j ∈ s.erase i, (-total) ≤ ∑ j ∈ s.erase i, S.accounts n j :=
    sum_le_sum fun j hj => (S.accounts_gt htotal hpos hcredit n j (mem_of_mem_erase hj)).le
  have hcard : ((#(s.erase i) : ℕ) : ℤ) = #s - 1 := by
    rw [card_erase_of_mem hi, Nat.cast_sub (card_pos.2 ⟨i, hi⟩), Nat.cast_one]
  rw [sum_const, nsmul_eq_mul, hcard] at hothers
  have : (((#s : ℕ) : ℤ) - 1) * -total = -(total * (#s - 1)) := by ring
  linarith

/-- **A round.** After as many turns as the total every account is back at zero: each is a multiple of the total
above minus the total, and they sum to zero. -/
theorem accounts_round {n : ℕ} (hn : (n : ℤ) = total) : ∀ i ∈ s, S.accounts n i = 0 := by
  have hnonneg : ∀ i ∈ s, 0 ≤ S.accounts n i := by
    intro i hi
    have hgt := S.accounts_gt htotal hpos hcredit n i hi
    have heq : S.accounts n i = total * (credit i - S.wins n i) := by
      rw [S.accounts_eq, hn]
      ring
    rw [heq] at hgt ⊢
    have hwhole : -1 < credit i - S.wins n i := by
      by_contra hle
      have : total * (credit i - S.wins n i) ≤ total * (-1) := mul_le_mul_of_nonneg_left (not_lt.1 hle) hpos.le
      linarith
    exact mul_nonneg hpos.le (by omega)
  intro i hi
  exact (sum_eq_zero_iff_of_nonneg hnonneg).1 (S.sum_accounts htotal n) i hi

/-- From zero the turns repeat after a round. -/
theorem accounts_add {n : ℕ} (hn : (n : ℤ) = total) (hzero : ∀ i, i ∉ s → credit i = 0) (m : ℕ) :
    S.accounts (m + n) = S.accounts m := by
  induction m with
  | zero =>
    rw [Nat.zero_add]
    funext i
    by_cases hi : i ∈ s
    · rw [S.accounts_round htotal hpos hcredit hn i hi, accounts]
    · have hnever : S.wins n i = 0 := by
        unfold wins
        rw [card_eq_zero, filter_eq_empty_iff]
        intro j _ hj
        exact hi (hj ▸ S.mem _)
      rw [S.accounts_eq, hzero i hi, hnever, accounts]
      simp
  | succ m ih => rw [Nat.succ_add, accounts, accounts, ih]

/-- **Exact proportionality.** In any turns as many as the total each member wins as often as its credit says. -/
theorem wins_add {n : ℕ} (hn : (n : ℤ) = total) (hzero : ∀ i, i ∉ s → credit i = 0) (m : ℕ) (i : α) :
    (S.wins (m + n) i : ℤ) = S.wins m i + credit i := by
  have hsame := congrFun (S.accounts_add htotal hpos hcredit hn hzero m) i
  rw [S.accounts_eq, S.accounts_eq] at hsame
  push_cast at hsame
  rw [hn] at hsame
  have hmul : total * (S.wins (m + n) i : ℤ) = total * (S.wins m i + credit i) := by linarith
  exact mul_left_cancel₀ hpos.ne' hmul

end Schedule

end RoundRobin
