import Mathlib.Data.List.Basic
import Mathlib.Logic.Relation

/-!
# Searches that remember what they saw

A search over a finite list keeps the keys it saw and only goes on to what it has not seen.

* `Visited.untried`: what is left.
* `Visited.untried_lt`: every step leaves less.
* `Visited.reach_mem`: a set closed under the successor holds everything reachable from it.
-/

namespace Visited

variable {α κ : Type} [DecidableEq κ] (key : α → κ)

/-- The entries whose key is not among those seen. -/
def untried (l : List α) (seen : List κ) : List α := l.filter (fun a => key a ∉ seen)

variable {key} {l : List α} {seen seen' : List κ}

theorem mem_untried {a : α} : a ∈ untried key l seen ↔ a ∈ l ∧ key a ∉ seen := by
  unfold untried
  rw [List.mem_filter, decide_eq_true_eq]

/-- Seeing more leaves a part. -/
theorem untried_sublist (h : ∀ k ∈ seen, k ∈ seen') : (untried key l seen').Sublist (untried key l seen) :=
  List.monotone_filter_right l fun a ha => by
    rw [decide_eq_true_eq] at ha ⊢
    exact fun hs => ha (h _ hs)

theorem untried_le (h : ∀ k ∈ seen, k ∈ seen') : (untried key l seen').length ≤ (untried key l seen).length :=
  (untried_sublist h).length_le

/-- An entry seen for the first time is left no more. -/
theorem untried_lt {a : α} (h : ∀ k ∈ seen, k ∈ seen') (ha : a ∈ untried key l seen) (hseen : key a ∈ seen') :
    (untried key l seen').length < (untried key l seen).length := by
  refine Nat.lt_of_le_of_ne (untried_le h) fun heq => ?_
  -- as long as before, the part would be the whole, with the entry in it
  have hsame := (untried_sublist h).eq_of_length heq
  rw [← hsame] at ha
  exact (mem_untried.1 ha).2 hseen

omit [DecidableEq κ] in
/-- What a set closed under the successor relation reaches lies in it. -/
theorem reach_mem {r : κ → κ → Prop} (hclosed : ∀ a ∈ seen, ∀ b, r a b → b ∈ seen) {a b : κ} (ha : a ∈ seen)
    (h : Relation.ReflTransGen r a b) : b ∈ seen := by
  induction h with
  | refl => exact ha
  | tail _ hstep ih => exact hclosed _ ih _ hstep

end Visited
