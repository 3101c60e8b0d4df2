import Mathlib.Algebra.Group.Basic
import Mathlib.Tactic.Abel

/-!
# Write-behind counters

A counter kept in memory and shipped to a durable record by increments: a flush reads the counter, adds
the difference to the last acknowledged reading to the record, and then advances the acknowledged reading.
Amounts are added in memory at any time, also between the steps of a flush; one flush runs at a time.

* `Reach.durable_eq`: the record holds the acknowledged reading, or the reading a flush has written and
  not yet acknowledged.
* `Reach.conserved`: record and unflushed difference give back everything that was added, an increment
  under way counted once.
-/

namespace WriteBehind

variable {G : Type} [AddCommGroup G]

/-- Where the running flush stands. -/
inductive Flight (G : Type) where
  | none
  | read (reading : G)
  | written (reading : G)

structure State (G : Type) where
  current : G
  flushed : G
  durable : G
  flight : Flight G

def State.init : State G := ⟨0, 0, 0, .none⟩

/-- One step, and the amount it adds in memory. -/
inductive Step : State G → G → State G → Prop
  | stay (s : State G) : Step s 0 s
  | add (s : State G) (d : G) : Step s d { s with current := s.current + d }
  | read (s : State G) (h : s.flight = .none) : Step s 0 { s with flight := .read s.current }
  | write (s : State G) (r : G) (h : s.flight = .read r) :
    Step s 0 { s with durable := s.durable + (r - s.flushed), flight := .written r }
  | fail (s : State G) (r : G) (h : s.flight = .read r) : Step s 0 { s with flight := .none }
  | ack (s : State G) (r : G) (h : s.flight = .written r) :
    Step s 0 { s with flushed := r, flight := .none }

/-- Reachable states, with everything added on the way. -/
inductive Reach : State G → G → Prop
  | init : Reach State.init 0
  | step {s s' : State G} {total d : G} (h : Reach s total) (hs : Step s d s') : Reach s' (total + d)

/-- The increment that stands in the record and is not yet acknowledged. -/
def State.underWay (s : State G) : G :=
  match s.flight with
  | .written r => r - s.flushed
  | _ => 0

theorem State.underWay_none {s : State G} (h : s.flight = .none) : s.underWay = 0 := by
  unfold State.underWay
  rw [h]

theorem State.underWay_read {s : State G} {r : G} (h : s.flight = .read r) : s.underWay = 0 := by
  unfold State.underWay
  rw [h]

theorem State.underWay_written {s : State G} {r : G} (h : s.flight = .written r) :
    s.underWay = r - s.flushed := by
  unfold State.underWay
  rw [h]

theorem Step.durable_sub {s s' : State G} {d : G} (hs : Step s d s') :
    s'.durable - s'.flushed - s'.underWay = s.durable - s.flushed - s.underWay := by
  cases hs with
  | stay => rfl
  | add d => rfl
  | read h => unfold State.underWay; rw [h]
  | write r h => unfold State.underWay; rw [h]; dsimp only; abel
  | fail r h => unfold State.underWay; rw [h]
  | ack r h => unfold State.underWay; rw [h]; dsimp only; abel

theorem Step.current_eq {s s' : State G} {d : G} (hs : Step s d s') : s'.current = s.current + d := by
  cases hs with
  | add d => rfl
  | _ => exact (add_zero _).symm

theorem Reach.durable_eq {s : State G} {total : G} (h : Reach s total) :
    s.durable = s.flushed + s.underWay := by
  induction h with
  | init => exact (add_zero _).symm
  | step h hs ih =>
    have hstep := hs.durable_sub
    rw [ih] at hstep
    rw [← sub_eq_zero, ← sub_sub, hstep]
    abel

theorem Reach.current_eq {s : State G} {total : G} (h : Reach s total) : s.current = total := by
  induction h with
  | init => rfl
  | step h hs ih => rw [hs.current_eq, ih]

/-- **Conservation.** -/
theorem Reach.conserved {s : State G} {total : G} (h : Reach s total) :
    s.durable + (s.current - s.flushed) = total + s.underWay := by
  rw [h.durable_eq, h.current_eq]
  abel

end WriteBehind
