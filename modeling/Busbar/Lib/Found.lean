import Busbar.Lib.Rely

/-!
# Programs that may find anything

Other parties may change the shared state in any way between two accesses of a program, so an access finds any
state whatever. A run is given by the states its accesses find.

* `Prog.along`: the end of a program along a stream of found states.
* `Prog.along_congr`: a run looks at finitely many of them.
* `Prog.Yields`: the program's value is as required whatever its accesses find.
-/

namespace Prog

variable {S ε α β : Type}

/-- One access that may rewrite the state; its answer is the program's value. -/
def call (act : S → α × S) : Prog S ε α := access act (fun a => done (.ok a))

/-- The end of the program when its accesses find the states of the stream in turn. -/
def along : Prog S ε α → (Nat → S) → Except ε α
  | done r, _ => r
  | access act next, found => (next (act (found 0)).1).along (fun k => found (k + 1))

/-- The number of accesses the program makes on the stream. -/
def accesses : Prog S ε α → (Nat → S) → Nat
  | done _, _ => 0
  | access act next, found => (next (act (found 0)).1).accesses (fun k => found (k + 1)) + 1

/-- The states past the last access do not matter. -/
theorem along_congr (p : Prog S ε α) {found found' : Nat → S} (h : ∀ k < p.accesses found, found' k = found k) :
    p.along found' = p.along found := by
  induction p generalizing found found' with
  | done r => rfl
  | access act next ih =>
    have hzero : found' 0 = found 0 := h 0 (Nat.succ_pos _)
    have hlater : ∀ k < (next (act (found 0)).1).accesses (fun k => found (k + 1)), found' (k + 1) = found (k + 1) :=
      fun k hk => h (k + 1) (Nat.succ_lt_succ hk)
    dsimp only [along]
    rw [hzero]
    exact ih _ hlater

/-- A program that cannot fail ends with a value. -/
theorem along_ok (p : Prog S Empty α) (found : Nat → S) : ∃ a, p.along found = .ok a := by
  cases h : p.along found with
  | ok a => exact ⟨a, rfl⟩
  | error e => exact e.elim

/-- Whatever the accesses find, `Q` holds of the value the program ends with. -/
abbrev Yields (Q : α → Prop) (p : Prog S ε α) : Prop := p.Within (fun _ _ => True) Q

section Yields

variable {Q Q' : α → Prop} {R : β → Prop}

theorem yields_pure {a : α} (h : Q a) : (pure a : Prog S ε α).Yields Q := within_pure h

theorem yields_read {f : S → α} (h : ∀ s, Q (f s)) : (read f : Prog S ε α).Yields Q :=
  within_read (fun _ => trivial) h

theorem yields_call {act : S → α × S} (h : ∀ s, Q (act s).1) : (call act : Prog S ε α).Yields Q :=
  fun s => ⟨trivial, within_pure (h s)⟩

/-- After a program of which nothing need be known. -/
theorem Yields.after {p : Prog S ε α} {g : α → Prog S ε β} (h : ∀ a, (g a).Yields R) : (p >>= g).Yields R := by
  have hp : p.Yields (fun _ => True) := by
    induction p with
    | done r => exact fun _ _ => trivial
    | access act next ih => exact fun s => ⟨trivial, ih _⟩
  exact hp.bind fun a _ => h a

theorem Yields.weaken {p : Prog S ε α} (h : p.Yields Q) (hQ : ∀ a, Q a → Q' a) : p.Yields Q' := by
  induction p with
  | done r => exact fun a ha => hQ a (h a ha)
  | access act next ih => exact fun s => ⟨trivial, ih _ (h s).2⟩

theorem Yields.along {p : Prog S ε α} (h : p.Yields Q) {found : Nat → S} {a : α} (ha : p.along found = .ok a) :
    Q a := by
  induction p generalizing found with
  | done r => exact h a ha
  | access act next ih => exact ih _ (h (found 0)).2 ha

end Yields

end Prog
