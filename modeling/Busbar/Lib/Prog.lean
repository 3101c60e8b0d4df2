import Mathlib.Data.List.Basic

/-!
# Programs over a shared state

A program of type `Prog S ε α` reads and writes a shared state `S` one atomic access at a time and ends
with a value of type `α` or an error of type `ε`; the accesses made before an error stand, as after `?`
in Rust. One text of a program has two meanings: `run` performs all accesses at once, and `step` performs
the next one only, so that other programs may come in between.

* `run_bind`: a sequence runs as its parts run one after the other.
* `step_run`: a program run to its end by single steps ends as `run` does.
-/

/-- A program over the state `S`. -/
inductive Prog (S ε α : Type) : Type 1 where
  | done (r : Except ε α)
  | access {β : Type} (act : S → β × S) (next : β → Prog S ε α)

namespace Prog

variable {S ε α β γ : Type}

def bind : Prog S ε α → (α → Prog S ε β) → Prog S ε β
  | done (.ok a), f => f a
  | done (.error e), _ => done (.error e)
  | access act next, f => access act (fun b => (next b).bind f)

instance : Monad (Prog S ε) where
  pure a := done (.ok a)
  bind := bind

/-- One access whose answer is the program's value. -/
def read (f : S → α) : Prog S ε α := access (fun s => (f s, s)) (fun a => done (.ok a))

/-- One access that rewrites the state. -/
def modify (f : S → S) : Prog S ε Unit := access (fun s => ((), f s)) (fun a => done (.ok a))

/-- One access that may be refused; a refused access leaves the state alone. -/
def attempt (f : S → Except ε (α × S)) : Prog S ε α :=
  access (fun s => match f s with
    | .ok (a, s') => (Except.ok a, s')
    | .error e => (Except.error e, s)) done

def throw (e : ε) : Prog S ε α := done (.error e)

/-- The result of a program as a value: its error no longer ends what follows. -/
def result : Prog S ε α → Prog S ε (Except ε α)
  | done r => done (.ok r)
  | access act next => access act (fun b => (next b).result)

/-- All accesses of a program, with nothing in between. -/
def run : Prog S ε α → S → Except ε α × S
  | done r, s => (r, s)
  | access act next, s => (next (act s).1).run (act s).2

/-- The state a program leaves behind. -/
def exec (p : Prog S ε α) (s : S) : S := (p.run s).2

/-- The next access of a program; a finished program stays as it is. -/
def step : Prog S ε α → S → Prog S ε α × S
  | done r, s => (done r, s)
  | access act next, s => (next (act s).1, (act s).2)

@[simp] theorem run_pure (a : α) (s : S) : (pure a : Prog S ε α).run s = (.ok a, s) := rfl

@[simp] theorem run_throw (e : ε) (s : S) : (throw e : Prog S ε α).run s = (.error e, s) := rfl

@[simp] theorem run_read (f : S → α) (s : S) : (read f : Prog S ε α).run s = (.ok (f s), s) := rfl

@[simp] theorem run_modify (f : S → S) (s : S) : (modify f : Prog S ε Unit).run s = (.ok (), f s) := rfl

theorem run_attempt (f : S → Except ε (α × S)) (s : S) :
    (attempt f).run s = match f s with
      | .ok (a, s') => (Except.ok a, s')
      | .error e => (Except.error e, s) := by
  cases h : f s <;> simp [attempt, run, h]

@[simp] theorem run_result (p : Prog S ε α) (s : S) : p.result.run s = (.ok (p.run s).1, (p.run s).2) := by
  induction p generalizing s with
  | done r => rfl
  | access act next ih => exact ih _ _

theorem run_bind (p : Prog S ε α) (f : α → Prog S ε β) (s : S) :
    (p >>= f).run s = match p.run s with
      | (.ok a, s') => (f a).run s'
      | (.error e, s') => (.error e, s') := by
  induction p generalizing s with
  | done r => cases r <;> rfl
  | access act next ih => exact ih _ _

/-- A single step does not change how a program ends. -/
theorem step_run (p : Prog S ε α) (s : S) : (p.step s).1.run (p.step s).2 = p.run s := by
  cases p <;> rfl

end Prog
