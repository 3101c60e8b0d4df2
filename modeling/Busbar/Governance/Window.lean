import Busbar.Num
import Busbar.Governance.Civil

/-!
# Limit windows

The window of a limit word that contains a time, and its end. Months go through the civil calendar.

* `budgetWindow_le`: a window does not start after the time it contains.
* `lt_budgetWindow_add`: no rolling window is longer than 31 days.
-/

namespace Busbar

def secsPerDay : Nat := 86400

/-- The window that contains `now`; a word the source does not know is the all-time window. -/
def budgetWindow (period : String) (now : Nat) : Nat :=
  if period = "minute" then now / 60 * 60
  else if period = "hour" then now / 3600 * 3600
  else if period = "day" then now / secsPerDay * secsPerDay
  else if period = "month" then (monthStart (now / secsPerDay : Nat)).toNat * secsPerDay
  else 0

/-- When the window that contains `now` rolls; the all-time window never does. -/
def windowEnd (period : String) (now : Nat) : Option Nat :=
  if period = "minute" then some (now / 60 * 60 + 60)
  else if period = "hour" then some (now / 3600 * 3600 + 3600)
  else if period = "day" then some (now / secsPerDay * secsPerDay + secsPerDay)
  else if period = "month" then
    let c := civilFromDays (now / secsPerDay : Nat)
    let next := if c.2.1 = 12 then (c.1 + 1, 1) else (c.1, c.2.1 + 1)
    some ((daysFromCivil next.1 next.2 1).toNat * secsPerDay)
  else none

/-- A word whose windows roll. -/
def Rolling (period : String) : Prop :=
  period = "minute" ∨ period = "hour" ∨ period = "day" ∨ period = "month"

instance (period : String) : Decidable (Rolling period) := by unfold Rolling; infer_instance

/-! ## Where windows start -/

/-- **A month starts at most 30 days before each of its days.** -/
theorem monthStart_range (days : Nat) :
    monthStart days ≤ days ∧ (days : Int) ≤ monthStart days + 30 := by
  obtain ⟨hvalid, -⟩ := civilFromDays_spec days
  have hday := hvalid.day
  have hlen := Calendar.monthLen_pos (civilFromDays days).1 (civilFromDays days).2.1
  rw [monthStart_eq]
  omega

theorem toNat_mul_le {a : Int} {n k : Nat} (h : a ≤ n) : a.toNat * k ≤ n * k :=
  Nat.mul_le_mul_right k (by omega)

/-- A window does not start after the time it contains. -/
theorem budgetWindow_le (period : String) (now : Nat) : budgetWindow period now ≤ now := by
  unfold budgetWindow
  split
  · omega
  split
  · omega
  split
  · unfold secsPerDay; omega
  split
  · have h := toNat_mul_le (k := secsPerDay) (monthStart_range (now / secsPerDay)).1
    unfold secsPerDay at h ⊢
    omega
  · omega

/-- **No rolling window is longer than 31 days.** -/
theorem lt_budgetWindow_add {period : String} (hr : Rolling period) (now : Nat) :
    now < budgetWindow period now + 31 * secsPerDay := by
  have hmonth := (monthStart_range (now / secsPerDay)).2
  have hk : (now / secsPerDay : Nat) ≤ (monthStart (now / secsPerDay : Nat)).toNat + 30 := by omega
  have hmul := Nat.mul_le_mul_right secsPerDay hk
  unfold budgetWindow
  unfold secsPerDay at hmul ⊢
  split
  · omega
  split
  · omega
  split
  · omega
  split
  · omega
  · rename_i h₁ h₂ h₃ h₄
    rcases hr with h | h | h | h
    · exact absurd h h₁
    · exact absurd h h₂
    · exact absurd h h₃
    · exact absurd h h₄

/-- The windows of a word that does not roll are all the all-time window. -/
theorem budgetWindow_of_not_rolling {period : String} (hr : ¬ Rolling period) (now : Nat) :
    budgetWindow period now = 0 := by
  unfold Rolling at hr
  unfold budgetWindow
  rw [if_neg (fun h => hr (Or.inl h)), if_neg (fun h => hr (Or.inr (Or.inl h))),
    if_neg (fun h => hr (Or.inr (Or.inr (Or.inl h)))), if_neg (fun h => hr (Or.inr (Or.inr (Or.inr h))))]

end Busbar
