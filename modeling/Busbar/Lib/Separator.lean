import Mathlib.Data.List.Basic

/-!
# Words between separators

A text made of a head, a separator and a word, with nothing or a stop and more after it. The head may hold both marks, so
a text may be read in more than one way.

* `Separated.word_eq`: a word without the stop ends at the first stop.
* `Separated.split`: two readings of one text agree, or the head of one holds the other's head, separator, word and stop.
-/

namespace Separated

variable {α : Type} {sep stop : α}

/-- Nothing, or the stop and what follows it. -/
def Tail (stop : α) (t : List α) : Prop := t = [] ∨ ∃ r, t = stop :: r

theorem Tail.cons (stop : α) (r : List α) : Tail stop (stop :: r) := Or.inr ⟨r, rfl⟩

/-- A tail starts with nothing but the stop. -/
theorem Tail.head_eq {t r : List α} {c : α} (ht : Tail stop t) (h : t = c :: r) : c = stop := by
  rcases ht with rfl | ⟨r', rfl⟩
  · cases h
  · exact (List.cons.inj h).1.symm

/-- A word that goes on past another one holds the stop. -/
theorem word_prefix {w w' t t' x : List α} (hw' : stop ∉ w') (ht : Tail stop t) (hx : w' = w ++ x) (hxt : t = x ++ t') :
    w = w' ∧ t = t' := by
  cases x with
  | nil => exact ⟨by rw [hx, List.append_nil], hxt⟩
  | cons c x =>
    have hc : c = stop := ht.head_eq hxt
    have hmem : c ∈ w' := by
      rw [hx]
      exact List.mem_append_right _ List.mem_cons_self
    exact absurd (hc ▸ hmem) hw'

theorem word_eq {w w' t t' : List α} (hw : stop ∉ w) (hw' : stop ∉ w') (ht : Tail stop t) (ht' : Tail stop t')
    (h : w ++ t = w' ++ t') : w = w' ∧ t = t' := by
  rcases List.append_eq_append_iff.1 h with ⟨x, hx, hxt⟩ | ⟨x, hx, hxt⟩
  · exact word_prefix hw' ht hx hxt
  · have hsym := word_prefix hw ht' hx hxt
    exact ⟨hsym.1.symm, hsym.2.symm⟩

/-- The first reading has the shorter head: the word ends before the second separator, so the second head goes on past
the stop. -/
theorem split_shorter {w t w' t' x : List α} (hne : sep ≠ stop) (hw : sep ∉ w) (ht : Tail stop t)
    (h : w ++ t = x ++ sep :: (w' ++ t')) :
    ∃ r, x = w ++ stop :: r ∧ t = stop :: (r ++ sep :: (w' ++ t')) := by
  rcases List.append_eq_append_iff.1 h with ⟨y, hy, hyt⟩ | ⟨y, hy, hyt⟩
  · cases y with
    | nil => exact absurd (ht.head_eq hyt) hne
    | cons c r =>
      obtain rfl : c = stop := ht.head_eq hyt
      exact ⟨r, hy, hyt⟩
  · -- the separator cannot stand in the word
    cases y with
    | nil => exact absurd (ht.head_eq hyt.symm) hne
    | cons c y =>
      have hc : sep = c := (List.cons.inj hyt).1
      have hmem : c ∈ w := by
        rw [hy]
        exact List.mem_append_right _ List.mem_cons_self
      exact absurd (hc ▸ hmem) hw

/-- **Two readings of one text.** -/
theorem split {a w t a' w' t' : List α} (hne : sep ≠ stop) (hw : sep ∉ w ∧ stop ∉ w) (hw' : sep ∉ w' ∧ stop ∉ w')
    (ht : Tail stop t) (ht' : Tail stop t') (h : a ++ sep :: (w ++ t) = a' ++ sep :: (w' ++ t')) :
    (a = a' ∧ w = w' ∧ t = t') ∨
      (∃ r, a' = a ++ sep :: (w ++ stop :: r) ∧ t = stop :: (r ++ sep :: (w' ++ t'))) ∨
      ∃ r, a = a' ++ sep :: (w' ++ stop :: r) ∧ t' = stop :: (r ++ sep :: (w ++ t)) := by
  rcases List.append_eq_append_iff.1 h with ⟨x, hx, hxt⟩ | ⟨x, hx, hxt⟩
  · cases x with
    | nil =>
      have heq := word_eq hw.2 hw'.2 ht ht' (List.cons.inj hxt).2
      exact Or.inl ⟨by rw [hx, List.append_nil], heq⟩
    | cons c x =>
      obtain ⟨hc, hrest⟩ := List.cons.inj hxt
      obtain ⟨r, hr, htr⟩ := split_shorter hne hw.1 ht hrest
      exact Or.inr (Or.inl ⟨r, by rw [hx, ← hc, hr], htr⟩)
  · cases x with
    | nil =>
      obtain ⟨hww, htt⟩ := word_eq hw'.2 hw.2 ht' ht (List.cons.inj hxt).2
      exact Or.inl ⟨by rw [hx, List.append_nil], hww.symm, htt.symm⟩
    | cons c x =>
      obtain ⟨hc, hrest⟩ := List.cons.inj hxt
      obtain ⟨r, hr, htr⟩ := split_shorter hne hw'.1 ht' hrest
      exact Or.inr (Or.inr ⟨r, by rw [hx, ← hc, hr], htr⟩)

end Separated
