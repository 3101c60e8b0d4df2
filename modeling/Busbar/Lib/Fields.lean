import Mathlib.Data.List.Basic

/-!
# Fields joined by a separator

Texts over any alphabet, joined with a separator that the texts themselves may hold. The segments of a text are what
stands between its separators, so a joined text shows its segments and not where one field ends and the next begins.

* `join_eq_iff`: two joined texts are equal when their fields have the same segments, one field after the other.
* `segments_moved`: a separator inside a field may be taken for the end of that field.
* `notMem_of_mem_segments`, `flatMap_segments`: segments are their own segments.
* `readings`: two places to find a pair of neighbours with a rest after them.
-/

namespace Fields

variable {α : Type}

section Segments

variable [DecidableEq α] (sep : α)

/-- The fields with the separator between them. -/
def join (fields : List (List α)) : List α := [sep].intercalate fields

/-- What stands between the separators. -/
def segments (text : List α) : List (List α) := text.splitOn sep

theorem segments_ne_nil (x : List α) : segments sep x ≠ [] := List.splitOn_ne_nil sep x

theorem join_segments (x : List α) : join sep (segments sep x) = x := List.intercalate_splitOn sep

/-- A text is known by its segments. -/
theorem segments_injective : Function.Injective (segments sep) := by
  intro x y h
  rw [← join_segments sep x, h, join_segments]

theorem segments_append (x y : List α) : segments sep (x ++ sep :: y) = segments sep x ++ segments sep y :=
  List.splitOn_append_cons_self x y

variable {sep}

theorem segments_of_notMem {x : List α} (h : sep ∉ x) : segments sep x = [x] := List.splitOn_eq_singleton h

/-- A text of one segment does not hold the separator. -/
theorem notMem_of_length {x : List α} (h : (segments sep x).length = 1) : sep ∉ x := by
  intro hmem
  obtain ⟨a, b, rfl⟩ := List.append_of_mem hmem
  have ha := List.length_pos_iff.2 (segments_ne_nil sep a)
  have hb := List.length_pos_iff.2 (segments_ne_nil sep b)
  rw [segments_append, List.length_append] at h
  omega

theorem segments_join {fields : List (List α)} (hne : fields ≠ []) :
    segments sep (join sep fields) = fields.flatMap (segments sep) := by
  induction fields with
  | nil => exact absurd rfl hne
  | cons x fields ih =>
    cases fields with
    | nil => simp [join]
    | cons y fields =>
      have hcons : join sep (x :: y :: fields) = x ++ sep :: join sep (y :: fields) := by
        unfold join
        rw [List.intercalate_cons_cons, List.append_assoc, List.singleton_append]
      rw [hcons, segments_append, ih (List.cons_ne_nil y fields)]
      rfl

/-- **Joined texts are known by the segments of their fields.** -/
theorem join_eq_iff {fields fields' : List (List α)} (hne : fields ≠ []) (hne' : fields' ≠ []) :
    join sep fields = join sep fields' ↔ fields.flatMap (segments sep) = fields'.flatMap (segments sep) := by
  rw [← (segments_injective sep).eq_iff, segments_join hne, segments_join hne']

/-- A separator inside a field may be taken for the end of that field. -/
theorem segments_moved (a b y : List α) :
    segments sep a ++ segments sep (b ++ sep :: y) = segments sep (a ++ sep :: b) ++ segments sep y := by
  rw [segments_append, segments_append, List.append_assoc]

/-- A segment does not hold the separator. -/
theorem notMem_of_mem_segments {x : List α} : ∀ s ∈ segments sep x, sep ∉ s := by
  induction hn : x.length using Nat.strongRecOn generalizing x with
  | ind n ih =>
    intro s hs
    by_cases hmem : sep ∈ x
    · obtain ⟨a, b, rfl⟩ := List.append_of_mem hmem
      rw [List.length_append, List.length_cons] at hn
      rw [segments_append, List.mem_append] at hs
      rcases hs with hs | hs
      · exact ih a.length (by omega) rfl s hs
      · exact ih b.length (by omega) rfl s hs
    · rw [segments_of_notMem hmem, List.mem_singleton] at hs
      exact hs ▸ hmem

/-- Texts without the separator are their own segments. -/
theorem flatMap_segments {ls : List (List α)} (h : ∀ x ∈ ls, sep ∉ x) : ls.flatMap (segments sep) = ls := by
  induction ls with
  | nil => rfl
  | cons x ls ih =>
    rw [List.flatMap_cons, segments_of_notMem (h x List.mem_cons_self), ih (fun y hy => h y (List.mem_cons_of_mem x hy)),
      List.singleton_append]

omit [DecidableEq α] in
/-- Moving the end of a field changes the field. -/
theorem moved_ne (a b : List α) : a ≠ a ++ sep :: b := by
  intro h
  have hlen := congrArg List.length h
  rw [List.length_append, List.length_cons] at hlen
  omega

end Segments

/-- **Two places to find a pair of neighbours with a rest after them.** Where the second rest is the longer one, the
pair was found among the texts before the first pair, its second half perhaps being that pair's first. -/
theorem readings {p p' w w' : List α} {x y x' y' : α} (h : p ++ x :: y :: w = p' ++ x' :: y' :: w')
    (hlen : w.length ≤ w'.length) :
    (p = p' ∧ x = x' ∧ y = y' ∧ w = w') ∨ ∃ rest, p ++ [x] = p' ++ x' :: y' :: rest := by
  have hsum := congrArg List.length h
  simp only [List.length_append, List.length_cons] at hsum
  by_cases he : w.length = w'.length
  · have hp : p.length = p'.length := by omega
    obtain ⟨hpp, hrest⟩ := List.append_inj h hp
    obtain ⟨hx, hrest⟩ := List.cons.inj hrest
    obtain ⟨hy, hw⟩ := List.cons.inj hrest
    exact Or.inl ⟨hpp, hx, hy, hw⟩
  · right
    -- the first list up to its pair's first half is long enough to hold the whole second pair
    have hsplit : (p ++ [x]) ++ (y :: w) = (p' ++ [x', y']) ++ w' := by simpa using h
    rcases List.append_eq_append_iff.1 hsplit with ⟨rest, hrest, -⟩ | ⟨rest, hrest, -⟩
    · have hl := congrArg List.length hrest
      simp only [List.length_append, List.length_cons, List.length_nil] at hl
      have hz : rest = [] := List.length_eq_zero_iff.1 (by omega)
      refine ⟨[], ?_⟩
      rw [hz, List.append_nil] at hrest
      exact hrest.symm
    · exact ⟨rest, by simpa using hrest⟩

end Fields
