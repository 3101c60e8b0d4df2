import Busbar.Lib.Run
import Busbar.Health.Availability

/-!
# The request budget under contention

A lane's request budget is one atomic counter. `spend_budget` reads it and then tries to lower what it has read by
one; a try that loses against another writer starts over from the value it lost to. Any number of such calls run at
once, and a request whose body failed gives its unit back. The runs below are the interleavings of all these steps.

* `Contention.round_lane`, `Contention.refund_lane`: a step takes effect on the lane at one point, or not at all.
* `Contention.Ceiling`: the budget and the units out of it make up the cap.
* `Contention.look`: what a call has read was the budget at an earlier point of the run.
* `budget_ceiling`: both, after every run from a limited lane.
-/

namespace Busbar

open LaneState Run

/-- Where a call of `spend_budget` stands. -/
inductive SpendCall where
  /-- in the loop, with the budget it has seen last -/
  | looking (cur : Int)
  | spent
  | refunded
  | exhausted
  deriving DecidableEq, Repr

/-- The atomic steps of the calls; the calls are numbered as they come. -/
inductive BudgetOp where
  | enter
  | round (call : Nat) (spurious : Bool)
  | refund (call : Nat)
  deriving DecidableEq, Repr

namespace LaneState

/-- The weak compare-and-swap on the budget: it may fail without a reason, and it tells the value it met. -/
def compareExchangeWeak (ls : LaneState) (current new : Int) (spurious : Bool) : Except Int LaneState :=
  if ls.budget = current ∧ spurious = false then .ok { ls with budget := new } else .error ls.budget

end LaneState

/-- A lane and the calls on its budget so far. -/
structure Contention where
  lane : LaneState
  calls : List SpendCall

namespace Contention

variable (s : Contention) (i : Nat) (spurious : Bool)

/-- The first read of a call. An unlimited lane has nothing to spend. -/
def enter : Contention :=
  { s with calls := s.calls ++ [if s.lane.limited then .looking s.lane.budget else .spent] }

/-- One round of the loop. -/
def round : Contention :=
  match s.calls[i]? with
  | some (.looking cur) =>
    if cur ≤ 0 then { s with calls := s.calls.set i .exhausted }
    else
      match s.lane.compareExchangeWeak cur (cur - 1) spurious with
      | .ok lane => ⟨lane, s.calls.set i .spent⟩
      | .error observed => { s with calls := s.calls.set i (.looking observed) }
  | _ => s

/-- The refund of a call that has spent. -/
def refund : Contention :=
  match s.calls[i]? with
  | some .spent => ⟨s.lane.refundBudget, s.calls.set i .refunded⟩
  | _ => s

def step (s : Contention) : BudgetOp → Contention
  | .enter => s.enter
  | .round call spurious => s.round call spurious
  | .refund call => s.refund call

/-- The spends that were not refunded. -/
def unrefunded : Nat := s.calls.count .spent

variable {s i spurious} {cap : Int}

/-! ## What a step can do -/

/-- The loop of a call in three ways: it gives up, it takes a unit, or it looks again. -/
theorem round_cases (spurious : Bool) {cur : Int} (hi : s.calls[i]? = some (.looking cur)) :
    (cur ≤ 0 ∧ s.round i spurious = ⟨s.lane, s.calls.set i .exhausted⟩) ∨
      (0 < cur ∧ s.lane.budget = cur ∧
        s.round i spurious = ⟨{ s.lane with budget := cur - 1 }, s.calls.set i .spent⟩) ∨
      (0 < cur ∧ s.round i spurious = ⟨s.lane, s.calls.set i (.looking s.lane.budget)⟩) := by
  unfold round LaneState.compareExchangeWeak
  rw [hi]
  by_cases hcur : cur ≤ 0
  · exact Or.inl ⟨hcur, if_pos hcur⟩
  · have hpos : 0 < cur := by omega
    refine Or.inr ?_
    dsimp only
    rw [if_neg hcur]
    by_cases hb : s.lane.budget = cur ∧ spurious = false
    · rw [if_pos hb]
      exact Or.inl ⟨hpos, hb.1, rfl⟩
    · rw [if_neg hb]
      exact Or.inr ⟨hpos, rfl⟩

/-- A round of a call that is not in the loop does nothing. -/
theorem round_of_not_looking (hi : ∀ cur, s.calls[i]? ≠ some (.looking cur)) : s.round i spurious = s := by
  unfold round
  split
  · rename_i cur h
    exact absurd h (hi cur)
  · rfl

/-- **A round is atomic.** It leaves the lane alone, or it is one spend at this very moment. -/
theorem round_lane (hl : s.lane.limited = true) :
    (s.round i spurious).lane = s.lane ∨
      s.lane.spendBudget = (true, (s.round i spurious).lane) := by
  by_cases hlook : ∃ cur, s.calls[i]? = some (.looking cur)
  · obtain ⟨cur, hi⟩ := hlook
    rcases round_cases spurious hi with ⟨-, h⟩ | ⟨hpos, hb, h⟩ | ⟨-, h⟩
    · exact Or.inl (by rw [h])
    · refine Or.inr ?_
      have hne : ¬ s.lane.budget ≤ 0 := by omega
      unfold LaneState.spendBudget
      rw [if_pos hl, if_neg hne, h, hb]
    · exact Or.inl (by rw [h])
  · refine Or.inl (congrArg lane (round_of_not_looking fun cur h => hlook ⟨cur, h⟩))

theorem refund_cases :
    (s.calls[i]? = some .spent ∧ s.refund i = ⟨s.lane.refundBudget, s.calls.set i .refunded⟩) ∨
      s.refund i = s := by
  unfold refund
  split
  · rename_i h
    exact Or.inl ⟨h, rfl⟩
  · exact Or.inr rfl

/-! ## The ceiling -/

/-- The budget and the units that were taken from it and not given back make up the cap; no call has ever read
less than nothing. -/
structure Ceiling (cap : Int) (s : Contention) : Prop where
  limited : s.lane.limited = true
  nonneg : 0 ≤ s.lane.budget
  balance : (s.unrefunded : Int) = cap - s.lane.budget
  seen : ∀ cur, .looking cur ∈ s.calls → 0 ≤ cur

/-- The units out after one call has moved on. -/
theorem count_set_call {calls : List SpendCall} {old : SpendCall} (new : SpendCall) (hi : calls[i]? = some old) :
    ((calls.set i new).count .spent : Int) =
      calls.count .spent - (if old = .spent then 1 else 0) + if new = .spent then 1 else 0 := by
  obtain ⟨hlt, hget⟩ := List.getElem?_eq_some_iff.1 hi
  have hmem : old = .spent → 0 < calls.count .spent := by
    intro h
    rw [List.count_pos_iff, ← h, ← hget]
    exact List.getElem_mem hlt
  rw [List.count_set hlt, hget]
  by_cases hold : old = .spent
  · have hpos := hmem hold
    by_cases hnew : new = .spent <;> simp [hold, hnew] <;> omega
  · by_cases hnew : new = .spent <;> simp [hold, hnew]

/-- A call moves on and the lane with it: the budget falls by what the call has taken or rises by what it gave back. -/
theorem Ceiling.move (h : Ceiling cap s) {old new : SpendCall} {lane : LaneState} (hi : s.calls[i]? = some old)
    (hl : lane.limited = true) (hnonneg : 0 ≤ lane.budget)
    (hunit : s.lane.budget - lane.budget = (if new = .spent then 1 else 0) - (if old = .spent then 1 else 0))
    (hseen : ∀ cur, new = .looking cur → 0 ≤ cur) : Ceiling cap ⟨lane, s.calls.set i new⟩ := by
  refine ⟨hl, hnonneg, ?_, ?_⟩
  · have hbalance := h.balance
    have hcount := count_set_call new hi
    unfold unrefunded at hbalance ⊢
    dsimp only
    omega
  · intro cur hmem
    rcases List.mem_or_eq_of_mem_set hmem with hold | hnew
    · exact h.seen cur hold
    · exact hseen cur hnew.symm

theorem Ceiling.enter (h : Ceiling cap s) : Ceiling cap s.enter := by
  have henter : s.enter.calls = s.calls ++ [.looking s.lane.budget] := by
    unfold Contention.enter
    rw [if_pos h.limited]
  refine ⟨h.limited, h.nonneg, ?_, ?_⟩
  · have hcount : s.enter.unrefunded = s.unrefunded := by
      unfold unrefunded
      rw [henter, List.count_append]
      simp
    rw [hcount]
    exact h.balance
  · intro cur hcur
    rw [henter, List.mem_append, List.mem_singleton] at hcur
    rcases hcur with hold | hnew
    · exact h.seen cur hold
    · obtain rfl := SpendCall.looking.inj hnew
      exact h.nonneg

theorem Ceiling.round (h : Ceiling cap s) : Ceiling cap (s.round i spurious) := by
  by_cases hlook : ∃ cur, s.calls[i]? = some (.looking cur)
  · obtain ⟨cur, hi⟩ := hlook
    rcases round_cases spurious hi with ⟨-, hr⟩ | ⟨hcur, hb, hr⟩ | ⟨-, hr⟩
    · rw [hr]
      exact h.move hi h.limited h.nonneg (by simp) (fun cur' hnew => by cases hnew)
    · -- the unit the call takes is the one the budget loses, and there was one
      rw [hr]
      refine h.move hi h.limited ?_ ?_ (fun cur' hnew => by cases hnew)
      · dsimp only
        omega
      · simp only [if_true, reduceCtorEq, if_false]
        omega
    · rw [hr]
      refine h.move hi h.limited h.nonneg (by simp) ?_
      intro cur' hnew
      obtain rfl := SpendCall.looking.inj hnew
      exact h.nonneg
  · rw [round_of_not_looking fun cur hi => hlook ⟨cur, hi⟩]
    exact h

theorem Ceiling.refund (h : Ceiling cap s) : Ceiling cap (s.refund i) := by
  rcases refund_cases (s := s) (i := i) with ⟨hi, hr⟩ | hr
  · have hlane : s.lane.refundBudget = { s.lane with budget := s.lane.budget + 1 } := if_pos h.limited
    have hnonneg := h.nonneg
    rw [hr, hlane]
    refine h.move hi h.limited ?_ ?_ (fun cur hnew => by cases hnew)
    · dsimp only
      omega
    · simp only [if_true, reduceCtorEq, if_false]
      omega
  · rw [hr]
    exact h

theorem Ceiling.step (h : Ceiling cap s) (op : BudgetOp) : Ceiling cap (s.step op) := by
  cases op with
  | enter => exact h.enter
  | round call spurious => exact h.round
  | refund call => exact h.refund

/-- The cap is never passed: a unit that is out was taken. -/
theorem Ceiling.le_cap (h : Ceiling cap s) : s.lane.budget ≤ cap := by
  have hbalance := h.balance
  omega

/-! ## Where a call has looked -/

/-- The state after a run on a lane nobody has called yet. -/
def after (ls : LaneState) (ops : List BudgetOp) : Contention := exec step ⟨ls, []⟩ ops

variable {ls : LaneState} {ops : List BudgetOp}

theorem after_snoc (op : BudgetOp) : after ls (ops ++ [op]) = (after ls ops).step op := exec_snoc ..

theorem after_ceiling (hl : ls.limited = true) (h0 : 0 ≤ ls.budget) (ops : List BudgetOp) :
    Ceiling ls.budget (after ls ops) := by
  have hstart : Ceiling ls.budget ⟨ls, []⟩ := by
    refine ⟨hl, h0, ?_, ?_⟩
    · unfold unrefunded
      simp
    · intro cur hcur
      cases hcur
  exact exec_invariant step (fun _ op h => h.step op) hstart ops

/-- What one step can make of a call: it stays as it was, it reads the budget as the step leaves it, it has its unit
or gives it back, or it gives up on a reading of nothing. -/
theorem call_step {op : BudgetOp} {call : SpendCall} (h : (s.step op).calls[i]? = some call) :
    s.calls[i]? = some call ∨ call = .looking (s.step op).lane.budget ∨ call = .spent ∨ call = .refunded ∨
      (call = .exhausted ∧ ∃ cur, cur ≤ 0 ∧ s.calls[i]? = some (.looking cur)) := by
  have hset : ∀ {j : Nat} {new : SpendCall}, (s.calls.set j new)[i]? = some call →
      s.calls[i]? = some call ∨ (call = new ∧ j = i) := by
    intro j new hget
    rw [List.getElem?_set] at hget
    by_cases hj : j = i
    · rw [if_pos hj] at hget
      by_cases hlt : j < s.calls.length
      · rw [if_pos hlt] at hget
        exact Or.inr ⟨(Option.some.inj hget).symm, hj⟩
      · rw [if_neg hlt] at hget
        cases hget
    · rw [if_neg hj] at hget
      exact Or.inl hget
  cases op with
  | enter =>
    have hcalls : (s.step .enter).calls = s.calls ++
        [if s.lane.limited then .looking s.lane.budget else .spent] := rfl
    rw [hcalls, List.getElem?_append] at h
    by_cases hlt : i < s.calls.length
    · rw [if_pos hlt] at h
      exact Or.inl h
    · rw [if_neg hlt] at h
      have hmem := List.mem_of_getElem? h
      rw [List.mem_singleton] at hmem
      by_cases hl : s.lane.limited = true
      · rw [if_pos hl] at hmem
        exact Or.inr (Or.inl hmem)
      · rw [if_neg hl] at hmem
        exact Or.inr (Or.inr (Or.inl hmem))
  | round j spurious =>
    change (s.round j spurious).calls[i]? = _ at h
    change _ ∨ call = .looking (s.round j spurious).lane.budget ∨ _
    by_cases hlook : ∃ seen, s.calls[j]? = some (.looking seen)
    · obtain ⟨seen, hcall⟩ := hlook
      rcases round_cases spurious hcall with ⟨hseen, hr⟩ | ⟨-, -, hr⟩ | ⟨-, hr⟩
      · rw [hr] at h
        rcases hset h with hold | ⟨hnew, hj⟩
        · exact Or.inl hold
        · rw [hj] at hcall
          exact Or.inr (Or.inr (Or.inr (Or.inr ⟨hnew, seen, hseen, hcall⟩)))
      · rw [hr] at h
        rcases hset h with hold | ⟨hnew, -⟩
        · exact Or.inl hold
        · exact Or.inr (Or.inr (Or.inl hnew))
      · rw [hr] at h ⊢
        rcases hset h with hold | ⟨hnew, -⟩
        · exact Or.inl hold
        · exact Or.inr (Or.inl hnew)
    · rw [round_of_not_looking fun cur hcall => hlook ⟨cur, hcall⟩] at h
      exact Or.inl h
  | refund j =>
    change (s.refund j).calls[i]? = _ at h
    rcases refund_cases (s := s) (i := j) with ⟨-, hr⟩ | hr
    · rw [hr] at h
      rcases hset h with hold | ⟨hnew, -⟩
      · exact Or.inl hold
      · exact Or.inr (Or.inr (Or.inr (Or.inl hnew)))
    · rw [hr] at h
      exact Or.inl h

/-- **What a call goes by was true once.** At some point of the run, the call already running, the budget was what
it has seen. -/
theorem look {cur : Int} (h : (after ls ops).calls[i]? = some (.looking cur)) :
    ∃ pre, pre <+: ops ∧ (after ls pre).lane.budget = cur ∧
      (after ls pre).calls[i]? = some (.looking cur) := by
  induction ops using List.reverseRecOn with
  | nil => cases h
  | append_singleton ops op ih =>
    have hstep := h
    rw [after_snoc] at hstep
    rcases call_step hstep with hold | hnow | hno | hno | ⟨hno, -⟩
    · obtain ⟨pre, hpre, hbudget, hcall⟩ := ih hold
      exact ⟨pre, hpre.trans (List.prefix_append ops [op]), hbudget, hcall⟩
    · refine ⟨ops ++ [op], List.prefix_refl _, ?_, h⟩
      rw [after_snoc]
      exact (SpendCall.looking.inj hnow).symm
    all_goals cases hno

/-- A call that has given up was at some point looking at nothing or less. -/
theorem exhausted_looked (h : (after ls ops).calls[i]? = some .exhausted) :
    ∃ pre, pre <+: ops ∧ ∃ cur, cur ≤ 0 ∧ (after ls pre).calls[i]? = some (.looking cur) := by
  induction ops using List.reverseRecOn with
  | nil => cases h
  | append_singleton ops op ih =>
    rw [after_snoc] at h
    rcases call_step h with hold | hno | hno | hno | ⟨-, cur, hcur, hlook⟩
    · obtain ⟨pre, hpre, hcall⟩ := ih hold
      exact ⟨pre, hpre.trans (List.prefix_append ops [op]), hcall⟩
    · cases hno
    · cases hno
    · cases hno
    · exact ⟨ops, List.prefix_append ops [op], cur, hcur, hlook⟩

end Contention

open Contention

/-- **The budget is a hard ceiling.** After every interleaving of calls and refunds on a limited lane the budget lies
between zero and the cap, the spends not refunded are the cap less the budget, and a call that has failed was running
at a point where the budget was zero. -/
theorem budget_ceiling (ls : LaneState) (hl : ls.limited = true) (hcap : 0 ≤ ls.budget) (ops : List BudgetOp) :
    (0 ≤ (after ls ops).lane.budget ∧ (after ls ops).lane.budget ≤ ls.budget) ∧
      ((after ls ops).unrefunded : Int) = ls.budget - (after ls ops).lane.budget ∧
      ∀ i : Nat, (after ls ops).calls[i]? = some .exhausted →
        ∃ pre, pre <+: ops ∧ (after ls pre).lane.budget = 0 ∧
          (after ls pre).calls[i]? = some (.looking 0) := by
  have hceil := after_ceiling hl hcap ops
  refine ⟨⟨hceil.nonneg, hceil.le_cap⟩, hceil.balance, ?_⟩
  intro i hi
  obtain ⟨pre, hpre, cur, hcur, hlook⟩ := exhausted_looked hi
  -- nobody has read less than zero, so what the call gave up on was zero
  have hseen := (after_ceiling hl hcap pre).seen cur (List.mem_of_getElem? hlook)
  obtain rfl : cur = 0 := by omega
  obtain ⟨pre', hpre', hbudget, hcall⟩ := look hlook
  exact ⟨pre', hpre'.trans hpre, hbudget, hcall⟩

/-- A lane of one request. Two calls read the budget before either has spent; one fails for no reason first and is
too late then, and the winner's unit comes back. -/
def oneUnit : LaneState := ofData (LaneData.ofModel "m" ⟨"p", none, 1⟩)

def contended : List BudgetOp :=
  [.enter, .enter, .round 0 true, .round 1 false, .round 0 false, .round 0 false, .refund 1]

theorem budget_ceiling_contended :
    (after oneUnit contended).calls = [.exhausted, .refunded] ∧
      0 ≤ (after oneUnit contended).lane.budget ∧
      ∃ pre, pre <+: contended ∧ (after oneUnit pre).lane.budget = 0 ∧
        (after oneUnit pre).calls[0]? = some (.looking 0) := by
  have hcalls : (after oneUnit contended).calls = [.exhausted, .refunded] := by decide
  have hceiling := budget_ceiling oneUnit (by decide) (by decide) contended
  exact ⟨hcalls, hceiling.1.1, hceiling.2.2 0 (by rw [hcalls]; rfl)⟩

end Busbar
