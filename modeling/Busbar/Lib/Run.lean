import Mathlib.Data.List.Induction

/-!
# Runs of a transition function

Runs of a system whose step function is total: `exec step s ops` is the state after the operations `ops`.
Conditions on single steps are lifted to runs by `Along`, which speaks about every step together with the
operations before it.

* `exec_invariant`: an invariant every step preserves holds after every run.
* `Along.invariant`: the same when the steps are only known to satisfy a condition.
* `Along.snoc_iff`: the condition of a run is the condition of its parts.
* `Along.of_checks`: a decidable condition is checked by running.
-/

namespace Run

universe u

variable {S : Type u} {Op : Type} (step : S → Op → S)

/-- The state after a list of operations. -/
def exec (s : S) (ops : List Op) : S := ops.foldl step s

@[simp] theorem exec_nil (s : S) : exec step s [] = s := rfl

@[simp] theorem exec_cons (s : S) (op : Op) (ops : List Op) :
    exec step s (op :: ops) = exec step (step s op) ops := rfl

theorem exec_append (s : S) (ops ops' : List Op) :
    exec step s (ops ++ ops') = exec step (exec step s ops) ops' := List.foldl_append

theorem exec_snoc (s : S) (ops : List Op) (op : Op) :
    exec step s (ops ++ [op]) = step (exec step s ops) op := by
  rw [exec_append]; rfl

/-- **Invariant rule.** What every step preserves, every run preserves. -/
theorem exec_invariant {I : S → Prop} (hstep : ∀ s op, I s → I (step s op)) {s : S} (h : I s)
    (ops : List Op) : I (exec step s ops) := by
  induction ops generalizing s with
  | nil => exact h
  | cons op ops ih => exact ih (hstep s op h)

/-- Every step of the run satisfies `C`, a condition on the operations before the step and the step. -/
def Along (C : List Op → Op → Prop) (ops : List Op) : Prop :=
  ∀ pre op post, ops = pre ++ op :: post → C pre op

variable {C : List Op → Op → Prop}

theorem Along.nil : Along C [] := by
  intro pre op post h
  cases pre <;> simp at h

/-- Check the steps one by one. -/
theorem Along.of_getElem {ops : List Op} (h : ∀ i (hi : i < ops.length), C (ops.take i) ops[i]) :
    Along C ops := by
  rintro pre op post rfl
  have := h pre.length (by simp)
  simpa using this

theorem Along.snoc_iff {ops : List Op} {op : Op} : Along C (ops ++ [op]) ↔ Along C ops ∧ C ops op := by
  constructor
  · intro h
    refine ⟨fun pre o post e => h pre o (post ++ [op]) (by simp [e]), h ops op [] rfl⟩
  · rintro ⟨h, hop⟩ pre o post e
    rcases List.eq_nil_or_concat post with rfl | ⟨post, o', rfl⟩
    · obtain ⟨e₁, e₂⟩ := List.append_inj' e rfl
      simp only [List.cons.injEq, and_true] at e₂
      subst e₁; subst e₂; exact hop
    · have e' : ops ++ [op] = (pre ++ o :: post) ++ [o'] := by simpa using e
      exact h pre o post (List.append_inj' e' rfl).1

theorem Along.append_left {ops ops' : List Op} (h : Along C (ops ++ ops')) : Along C ops :=
  fun pre op post e => h pre op (post ++ ops') (by simp [e])

/-- **Invariant rule for conditional steps.** An invariant of the run so far that every step meeting the
condition preserves holds at the end of a run whose steps all meet it. -/
theorem Along.invariant {I : List Op → Prop} (h0 : I [])
    (hstep : ∀ pre op, I pre → C pre op → I (pre ++ [op])) {ops : List Op} (h : Along C ops) : I ops := by
  induction ops using List.reverseRecOn with
  | nil => exact h0
  | append_singleton ops op ih =>
    obtain ⟨hops, hop⟩ := Along.snoc_iff.1 h
    exact hstep ops op (ih hops) hop

/-- The rule from a point of the run on: what holds after `pre` and is preserved by every later step holds
at the end. -/
theorem Along.invariant_from {I : List Op → Prop} {pre : List Op} (h0 : I pre)
    (hstep : ∀ ops op, I ops → C ops op → I (ops ++ [op])) {post : List Op} (h : Along C (pre ++ post)) :
    I (pre ++ post) := by
  induction post using List.reverseRecOn with
  | nil => simpa using h0
  | append_singleton post op ih =>
    rw [← List.append_assoc] at h ⊢
    obtain ⟨hops, hop⟩ := Along.snoc_iff.1 h
    exact hstep _ op (ih hops) hop

/-- Check a decidable condition on state and step along a run, step by step. -/
def checks (P : S → Op → Prop) [∀ s op, Decidable (P s op)] (s : S) : List Op → Bool
  | [] => true
  | op :: ops => decide (P s op) && checks P (step s op) ops

/-- A checked run meets the condition at each of its steps. -/
theorem Along.of_checks {P : S → Op → Prop} [∀ s op, Decidable (P s op)] {s : S} {ops : List Op}
    (h : checks step P s ops = true) : Along (fun pre op => P (exec step s pre) op) ops := by
  induction ops generalizing s with
  | nil => exact Along.nil
  | cons o ops ih =>
    unfold checks at h
    rw [Bool.and_eq_true, decide_eq_true_eq] at h
    intro pre op post he
    cases pre with
    | nil =>
      cases he
      exact h.1
    | cons o' pre =>
      cases he
      exact ih h.2 pre op post rfl

end Run
