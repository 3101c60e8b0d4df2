import Busbar.Lib.Run
import Mathlib.Algebra.BigOperators.Group.List.Basic
import Mathlib.Tactic.Abel

/-!
# Parcels

Amounts that are collected in one place, taken from there by any number of couriers, and delivered or given back piece by
piece. The amounts are those of a commutative monoid, so one amount may stand for all the counters of all the keys of a
system.

* `Step.conserved`: a step moves amounts or collects one, and loses none.
* `Reach.conserved`: what was collected is pending, with a courier, or delivered.
* `Reach.of_along`: a run whose every step is a step of parcels reaches what a run of parcels reaches.
-/

namespace Parcels

open Run

variable {G : Type} [AddCommMonoid G]

structure State (G : Type) where
  pending : G
  held : G
  delivered : G

def State.init : State G := ⟨0, 0, 0⟩

/-- One step, and the amount it collects. -/
inductive Step (s : State G) : G → State G → Prop
  | stay {s' : State G} (pending : s'.pending = s.pending) (held : s'.held = s.held)
    (delivered : s'.delivered = s.delivered) : Step s 0 s'
  | collect {s' : State G} {a : G} (pending : s'.pending = s.pending + a) (held : s'.held = s.held)
    (delivered : s'.delivered = s.delivered) : Step s a s'
  | take {s' : State G} (pending : s'.pending = 0) (held : s'.held = s.held + s.pending)
    (delivered : s'.delivered = s.delivered) : Step s 0 s'
  | deliver {s' : State G} {a : G} (pending : s'.pending = s.pending) (held : s.held = a + s'.held)
    (delivered : s'.delivered = s.delivered + a) : Step s 0 s'
  | giveBack {s' : State G} {a : G} (pending : s'.pending = s.pending + a) (held : s.held = a + s'.held)
    (delivered : s'.delivered = s.delivered) : Step s 0 s'

/-- Everything that is somewhere. -/
def State.all (s : State G) : G := s.delivered + s.pending + s.held

theorem Step.conserved {s s' : State G} {a : G} (h : Step s a s') : s'.all = s.all + a := by
  unfold State.all
  cases h with
  | stay hp hh hd => rw [hp, hh, hd, add_zero]
  | collect hp hh hd => rw [hp, hh, hd]; abel
  | take hp hh hd => rw [hp, hh, hd]; abel
  | deliver hp hh hd => rw [hp, hh, hd]; abel
  | giveBack hp hh hd => rw [hp, hh, hd]; abel

/-- Reachable states, with everything collected on the way. -/
inductive Reach : State G → G → Prop
  | init : Reach State.init 0
  | step {s s' : State G} {sum a : G} (h : Reach s sum) (hs : Step s a s') : Reach s' (sum + a)

/-- **Nothing is lost and nothing is delivered twice.** -/
theorem Reach.conserved {s : State G} {sum : G} (h : Reach s sum) : s.all = sum := by
  induction h with
  | init =>
    unfold State.all State.init
    simp
  | step h hs ih => rw [hs.conserved, ih]

variable {S Op : Type} {step : S → Op → S} {s₀ : S} {C : List Op → Op → Prop}

/-- **Simulation rule.** The condition of a step makes it a step of parcels. -/
theorem Reach.of_along {view : S → State G} {amount : Op → G} (h0 : view s₀ = State.init)
    (hstep : ∀ pre op, C pre op → Step (view (exec step s₀ pre)) (amount op) (view (step (exec step s₀ pre) op)))
    {ops : List Op} (h : Along C ops) : Reach (view (exec step s₀ ops)) ((ops.map amount).sum) := by
  refine h.invariant (I := fun ops => Reach (view (exec step s₀ ops)) ((ops.map amount).sum)) ?_ ?_
  · rw [exec_nil, h0]
    exact Reach.init
  · intro pre op hpre hop
    rw [exec_snoc, List.map_append, List.sum_append, List.map_singleton, List.sum_singleton]
    exact hpre.step (hstep pre op hop)

end Parcels
