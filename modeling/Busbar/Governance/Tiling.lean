import Busbar.Governance.Window

/-!
# Limit windows tile time

Each time lies in one window of a rolling word, and where a window ends the next one starts. For months this rests on the
calendar: the days of a month are those between its first day and the first of the next one.

* `civil_of_month`: the dates of a month's days.
* `windows_tile`: the windows of every word.
-/

namespace Busbar

open Calendar

/-- The first day of the month after a day's. -/
def nextMonthStart (days : Int) : Int :=
  let c := civilFromDays days
  let n := nextMonth c.1 c.2.1
  daysFromCivil n.1 n.2 1

/-! ## The days of a month -/

variable {z t : Int}

/-- A month ends as many days after its start as it has. -/
theorem nextMonthStart_eq (z : Int) :
    nextMonthStart z = monthStart z + monthLen (civilFromDays z).1 (civilFromDays z).2.1 := by
  obtain ⟨hvalid, -⟩ := civilFromDays_spec z
  have hlen := number_nextMonth (y := (civilFromDays z).1) hvalid.month
  unfold nextMonthStart monthStart
  dsimp only
  rw [daysFromCivil_eq hvalid.month, daysFromCivil_eq (nextMonth_range hvalid.month), hlen]
  omega

/-- A day lies in its month. -/
theorem mem_month (z : Int) : monthStart z ≤ z ∧ z < nextMonthStart z := by
  obtain ⟨hvalid, -⟩ := civilFromDays_spec z
  have hday := hvalid.day
  rw [nextMonthStart_eq, monthStart_eq]
  omega

/-- **The dates of a month's days**: its year, its month, and the days in order. -/
theorem civil_of_month (hlo : monthStart z ≤ t) (hhi : t < nextMonthStart z) :
    civilFromDays t = ((civilFromDays z).1, (civilFromDays z).2.1, t - monthStart z + 1) := by
  obtain ⟨hvalid, -⟩ := civilFromDays_spec z
  rw [nextMonthStart_eq] at hhi
  have hdate : Valid (civilFromDays z).1 (civilFromDays z).2.1 (t - monthStart z + 1) :=
    ⟨hvalid.month, by omega, by omega⟩
  have hday : daysFromCivil (civilFromDays z).1 (civilFromDays z).2.1 (t - monthStart z + 1) = t := by
    have hstart : monthStart z = number (civilFromDays z).1 (civilFromDays z).2.1 1 - 719468 :=
      daysFromCivil_eq hvalid.month
    rw [daysFromCivil_eq hvalid.month, number_day]
    omega
  have hinv := civil_inverse.2 _ _ _ hdate
  rwa [hday] at hinv

/-- The days of a month share its start and its end. -/
theorem month_const (hlo : monthStart z ≤ t) (hhi : t < nextMonthStart z) :
    monthStart t = monthStart z ∧ nextMonthStart t = nextMonthStart z := by
  have hdate := civil_of_month hlo hhi
  have hsame : ∀ f : Int → Int → Int, f (civilFromDays t).1 (civilFromDays t).2.1 =
      f (civilFromDays z).1 (civilFromDays z).2.1 := by
    intro f
    rw [hdate]
  exact ⟨hsame fun y m => daysFromCivil y m 1, hsame fun y m => daysFromCivil (nextMonth y m).1 (nextMonth y m).2 1⟩

/-- The next month starts where this one ends. -/
theorem monthStart_next (z : Int) : monthStart (nextMonthStart z) = nextMonthStart z := by
  obtain ⟨hvalid, -⟩ := civilFromDays_spec z
  have hfirst : civilFromDays (nextMonthStart z) =
      ((nextMonth (civilFromDays z).1 (civilFromDays z).2.1).1, (nextMonth (civilFromDays z).1 (civilFromDays z).2.1).2, 1) :=
    civil_inverse.2 _ _ _ (Valid.first (nextMonth_range hvalid.month))
  rw [monthStart_eq, hfirst]
  dsimp only
  omega

/-- The epoch day is the first of a month, so no later month starts before it. -/
theorem monthStart_nonneg (h : 0 ≤ z) : 0 ≤ monthStart z := by
  by_contra hneg
  have hin := mem_month z
  have hdate := civil_of_month (z := z) (t := 0) (by omega) (by omega)
  have hepoch : civilFromDays 0 = (1970, 1, 1) := by decide
  rw [hepoch] at hdate
  have hday : (1 : Int) = 0 - monthStart z + 1 := congrArg (fun c => c.2.2) hdate
  omega

/-! ## Windows -/

/-- What the windows of a word do at a time: the window that holds it, up to its end. -/
structure Tiles (period : String) (now e : Nat) : Prop where
  ends : windowEnd period now = some e
  after : now < e
  near : e ≤ now + 31 * secsPerDay
  starts : budgetWindow period e = e
  same : ∀ t, budgetWindow period now ≤ t → t < e →
    budgetWindow period t = budgetWindow period now ∧ windowEnd period t = some e

/-- Windows of a fixed length. -/
theorem tiles_fixed {period : String} {k : Nat} (hk : 0 < k) (hlong : k ≤ 31 * secsPerDay)
    (hw : ∀ now, budgetWindow period now = now / k * k) (he : ∀ now, windowEnd period now = some (now / k * k + k))
    (now : Nat) : Tiles period now (now / k * k + k) := by
  have hmod := Nat.div_add_mod' now k
  have hlt := Nat.mod_lt now hk
  refine ⟨he now, by omega, by omega, ?_, fun t hlo hhi => ?_⟩
  · rw [hw, Nat.add_div_right _ hk, Nat.mul_div_cancel _ hk, Nat.succ_mul]
  · rw [hw] at hlo
    have hdiv : t / k = now / k := by
      refine Nat.div_eq_of_lt_le hlo ?_
      rw [Nat.succ_mul]
      exact hhi
    rw [hw, hw, he, hdiv]
    exact ⟨rfl, rfl⟩

/-- The month windows, in days. -/
theorem budgetWindow_month (now : Nat) :
    budgetWindow "month" now = (monthStart (now / secsPerDay : Nat)).toNat * secsPerDay := rfl

theorem windowEnd_month (now : Nat) :
    windowEnd "month" now = some ((nextMonthStart (now / secsPerDay : Nat)).toNat * secsPerDay) := rfl

theorem tiles_month (now : Nat) :
    Tiles "month" now ((nextMonthStart (now / secsPerDay : Nat)).toNat * secsPerDay) := by
  obtain ⟨ms, hms⟩ : ∃ ms : Nat, (ms : Int) = monthStart (now / secsPerDay : Nat) :=
    ⟨_, Int.toNat_of_nonneg (monthStart_nonneg (Int.natCast_nonneg _))⟩
  have hin := mem_month (now / secsPerDay : Nat)
  have hlen := nextMonthStart_eq (now / secsPerDay : Nat)
  have hlens := monthLen_pos (civilFromDays (now / secsPerDay : Nat)).1 (civilFromDays (now / secsPerDay : Nat)).2.1
  obtain ⟨ne, hne⟩ : ∃ ne : Nat, (ne : Int) = nextMonthStart (now / secsPerDay : Nat) :=
    ⟨_, Int.toNat_of_nonneg (by omega)⟩
  have hstart : budgetWindow "month" now = ms * secsPerDay := by
    rw [budgetWindow_month, ← hms, Int.toNat_natCast]
  have hend : (nextMonthStart (now / secsPerDay : Nat)).toNat = ne := by
    rw [← hne, Int.toNat_natCast]
  have hday : ms ≤ now / secsPerDay ∧ now / secsPerDay < ne ∧ ne ≤ now / secsPerDay + 31 := by omega
  have hcell : ∀ n : Nat, n * secsPerDay / secsPerDay = n := fun n => Nat.mul_div_cancel n (by decide)
  refine ⟨windowEnd_month now, ?_, ?_, ?_, fun t hlo hhi => ?_⟩
  · rw [hend]
    unfold secsPerDay at hday ⊢
    omega
  · rw [hend]
    unfold secsPerDay at hday ⊢
    omega
  · rw [hend, budgetWindow_month, hcell, hne, monthStart_next, ← hne, Int.toNat_natCast]
  · rw [hstart] at hlo
    rw [hend] at hhi
    -- the time's day lies in the month
    have hdays : ms ≤ t / secsPerDay ∧ t / secsPerDay < ne := by
      unfold secsPerDay at hlo hhi ⊢
      omega
    have hconst := month_const (z := (now / secsPerDay : Nat)) (t := (t / secsPerDay : Nat)) (by omega) (by omega)
    rw [budgetWindow_month, budgetWindow_month, windowEnd_month, hconst.1, hconst.2]
    exact ⟨rfl, rfl⟩

/-- **A rolling word's windows tile time.** -/
theorem tiles_rolling {period : String} (hr : Rolling period) (now : Nat) : ∃ e, Tiles period now e := by
  rcases hr with rfl | rfl | rfl | rfl
  · exact ⟨_, tiles_fixed (by decide) (by decide) (fun _ => rfl) (fun _ => rfl) now⟩
  · exact ⟨_, tiles_fixed (by decide) (by decide) (fun _ => rfl) (fun _ => rfl) now⟩
  · exact ⟨_, tiles_fixed (by decide) (by decide) (fun _ => rfl) (fun _ => rfl) now⟩
  · exact ⟨_, tiles_month now⟩

theorem windowEnd_of_not_rolling {period : String} (hr : ¬ Rolling period) (now : Nat) : windowEnd period now = none := by
  unfold Rolling at hr
  push Not at hr
  obtain ⟨h₁, h₂, h₃, h₄⟩ := hr
  unfold windowEnd
  rw [if_neg h₁, if_neg h₂, if_neg h₃, if_neg h₄]

/-- **Limit windows tile time**: no window starts after a time in it; the window of a rolling word ends later, within 31
days, the next one starts there, and every time between has the same window; a word that does not roll has one window; a
month's window starts at the first second of the first day of the civil month; and day numbers and civil dates are
inverse, the day after having the next number. -/
theorem windows_tile (period : String) (now : Nat) :
    budgetWindow period now ≤ now ∧
      (Rolling period → ∃ e, windowEnd period now = some e ∧ now < e ∧ e ≤ now + 31 * secsPerDay ∧
        budgetWindow period e = e ∧ ∀ t, budgetWindow period now ≤ t → t < e →
          budgetWindow period t = budgetWindow period now ∧ windowEnd period t = some e) ∧
      (¬ Rolling period → windowEnd period now = none ∧ ∀ t, budgetWindow period t = budgetWindow period now ∧
        windowEnd period t = none) ∧
      (∃ day : Nat, budgetWindow "month" now = day * secsPerDay ∧ civilFromDays day =
        ((civilFromDays (now / secsPerDay : Nat)).1, (civilFromDays (now / secsPerDay : Nat)).2.1, 1)) ∧
      (∀ z, daysFromCivil (civilFromDays z).1 (civilFromDays z).2.1 (civilFromDays z).2.2 = z) ∧
      (∀ y m d, Valid y m d → civilFromDays (daysFromCivil y m d) = (y, m, d)) ∧
      civilFromDays 0 = (1970, 1, 1) ∧ ∀ z, civilFromDays (z + 1) = next (civilFromDays z) := by
  refine ⟨budgetWindow_le period now, fun hr => ?_, fun hr => ?_, ?_, civil_inverse.1, civil_inverse.2, by decide,
    civilFromDays_succ⟩
  · obtain ⟨e, h⟩ := tiles_rolling hr now
    exact ⟨e, h.ends, h.after, h.near, h.starts, h.same⟩
  · refine ⟨windowEnd_of_not_rolling hr now, fun t => ⟨?_, windowEnd_of_not_rolling hr t⟩⟩
    rw [budgetWindow_of_not_rolling hr, budgetWindow_of_not_rolling hr]
  · have hnonneg := monthStart_nonneg (z := (now / secsPerDay : Nat)) (Int.natCast_nonneg _)
    refine ⟨(monthStart (now / secsPerDay : Nat)).toNat, rfl, ?_⟩
    have hin := mem_month (now / secsPerDay : Nat)
    have hdate := civil_of_month (z := (now / secsPerDay : Nat)) (t := monthStart (now / secsPerDay : Nat)) (Int.le_refl _)
      (by omega)
    rw [Int.toNat_of_nonneg hnonneg, hdate]
    rw [Int.sub_self]
    rfl

end Busbar
