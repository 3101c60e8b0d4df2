import Busbar.Lib.Calendar
import Mathlib.Tactic.Push

/-!
# Civil dates

The source's formulas between day numbers and civil dates, over eras of 400 years that start in March. Their divisions
truncate, with a correction where the number may be negative.

* `civilFromDays_spec`: a day number's date is valid and has the calendar's number.
* `daysFromCivil_eq`: a date's day number is the calendar's.
* `civil_inverse`: the two are inverse.
-/

namespace Busbar

open Calendar

/-- Year, month and day of a day number. -/
def civilFromDays (z : Int) : Int × Int × Int :=
  let z := z + 719468
  let era := (if z ≥ 0 then z else z - 146096).tdiv 146097
  let doe := z - era * 146097
  let yoe := (doe - doe.tdiv 1460 + doe.tdiv 36524 - doe.tdiv 146096).tdiv 365
  let y := yoe + era * 400
  let doy := doe - (365 * yoe + yoe.tdiv 4 - yoe.tdiv 100)
  let mp := (5 * doy + 2).tdiv 153
  let d := doy - (153 * mp + 2).tdiv 5 + 1
  let m := if mp < 10 then mp + 3 else mp - 9
  (if m ≤ 2 then y + 1 else y, m, d)

def daysFromCivil (y m d : Int) : Int :=
  let y := if m ≤ 2 then y - 1 else y
  let era := (if y ≥ 0 then y else y - 399).tdiv 400
  let yoe := y - era * 400
  let doy := (153 * (if m > 2 then m - 3 else m + 9) + 2).tdiv 5 + d - 1
  let doe := yoe * 365 + yoe.tdiv 4 - yoe.tdiv 100 + doy
  era * 146097 + doe - 719468

/-- The first day of the month of a day. -/
def monthStart (days : Int) : Int :=
  let c := civilFromDays days
  daysFromCivil c.1 c.2.1 1

/-! ## Years of an era -/

/-- The year of the era a day of the era lies in. -/
def yearOfEra (doe : Nat) : Nat := (doe - doe / 1460 + doe / 36524 - doe / 146096) / 365

/-- The first day of a year of the era. -/
def yearStart (yoe : Nat) : Nat := 365 * yoe + yoe / 4 - yoe / 100

theorem yearOfEra_mono {a b : Nat} (hab : a ≤ b) (hb : b ≤ 146096) :
    a - a / 1460 + a / 36524 - a / 146096 ≤ b - b / 1460 + b / 36524 - b / 146096 := by
  omega

/-- The years of the era, checked at their first days. -/
theorem yearStart_table : ∀ y < 400,
    365 * y ≤ yearStart y - yearStart y / 1460 + yearStart y / 36524 - yearStart y / 146096 ∧
    (y = 0 ∨ yearStart y - 1 - (yearStart y - 1) / 1460 + (yearStart y - 1) / 36524 -
      (yearStart y - 1) / 146096 < 365 * y) ∧
    yearStart (y + 1) ≤ yearStart y + 366 := by
  decide +kernel

theorem yearOfEra_lt {doe : Nat} (h : doe ≤ 146096) : yearOfEra doe < 400 := by
  unfold yearOfEra
  omega

/-- A day of the era lies before the next year's first day; the last year of the era has none. -/
theorem lt_yearStart_succ {doe : Nat} (h : doe ≤ 146096) :
    doe < yearStart (yearOfEra doe + 1) ∨ yearOfEra doe = 399 := by
  have hlt := yearOfEra_lt h
  set y := yearOfEra doe with hy
  have hdef : y = (doe - doe / 1460 + doe / 36524 - doe / 146096) / 365 := hy
  by_contra hc
  push Not at hc
  obtain ⟨hge, hne⟩ := hc
  have hmono := yearOfEra_mono hge h
  have hnext := (yearStart_table (y + 1) (by omega)).1
  omega

/-- A day of the era is one of the at most 366 days of its year. -/
theorem dayOfYear_range {doe : Nat} (h : doe ≤ 146096) :
    yearStart (yearOfEra doe) ≤ doe ∧ doe ≤ yearStart (yearOfEra doe) + 365 := by
  have hlt := yearOfEra_lt h
  have hnext := lt_yearStart_succ h
  set y := yearOfEra doe with hy
  have hdef : y = (doe - doe / 1460 + doe / 36524 - doe / 146096) / 365 := hy
  have htable := yearStart_table y hlt
  constructor
  · -- were the day before its year's first day, its year would be smaller
    by_contra hc
    have hle : doe ≤ yearStart y - 1 := by omega
    rcases htable.2.1 with h0 | hprev
    · rw [h0] at hc
      unfold yearStart at hc
      omega
    · have hb : yearStart y - 1 ≤ 146096 := by unfold yearStart; omega
      have hmono := yearOfEra_mono hle hb
      omega
  · rcases hnext with hlast | hlast
    · omega
    · rw [hlast]
      unfold yearStart
      omega

/-! ## The formulas and the calendar -/

/-- The corrected division of the source rounds down. -/
theorem tdiv_corrected {k : Int} (hk : 0 < k) (z : Int) : (if z ≥ 0 then z else z - (k - 1)).tdiv k = z / k := by
  by_cases hz : z ≥ 0
  · rw [if_pos hz, Int.tdiv_eq_ediv_of_nonneg hz]
  · rw [if_neg hz]
    have hmod := Int.emod_add_mul_ediv z k
    have hlo := Int.emod_nonneg z hk.ne'
    have hhi := Int.emod_lt_of_pos z hk
    have hflip : (-(z - (k - 1))) / k = -(z / k) := by
      refine ((Int.ediv_emod_unique hk).2 ⟨?_, ?_, ?_⟩ : _ ∧ -(z - (k - 1)) % k = k - 1 - z % k).1
      · rw [Int.mul_neg]
        omega
      · omega
      · omega
    have hneg := Int.neg_tdiv (z - (k - 1)) k
    rw [Int.tdiv_eq_ediv_of_nonneg (by omega), hflip] at hneg
    omega

/-- The date of a day number, in its era. -/
theorem civilFromDays_eq (z : Int) :
    ∃ (era : Int) (doe : Nat), doe ≤ 146096 ∧ z + 719468 = era * 146097 + doe ∧
      ∀ yoe doy mp : Nat, yoe = yearOfEra doe → doy = doe - yearStart yoe → mp = (5 * doy + 2) / 153 →
        ∀ m : Int, m = (if (mp : Int) < 10 then (mp : Int) + 3 else mp - 9) →
          civilFromDays z = (if m ≤ 2 then (yoe : Int) + era * 400 + 1 else (yoe : Int) + era * 400, m,
            (doy : Int) - ((153 * mp + 2) / 5 : Nat) + 1) := by
  obtain ⟨doe, hdoe⟩ : ∃ doe : Nat, (doe : Int) = (z + 719468) % 146097 := ⟨((z + 719468) % 146097).toNat, by omega⟩
  refine ⟨(z + 719468) / 146097, doe, by omega, by omega, ?_⟩
  intro yoe doy mp hyoe hdoy hmp m hm
  have hle : doe ≤ 146096 := by omega
  have hrange := dayOfYear_range hle
  rw [← hyoe] at hrange
  have hyoe' : yoe = (doe - doe / 1460 + doe / 36524 - doe / 146096) / 365 := hyoe
  unfold yearStart at hrange hdoy
  have e1 : (if z + 719468 ≥ 0 then z + 719468 else z + 719468 - 146096).tdiv 146097 = (z + 719468) / 146097 :=
    tdiv_corrected (by decide : (0 : Int) < 146097) (z + 719468)
  have e2 : z + 719468 - (z + 719468) / 146097 * 146097 = (doe : Int) := by omega
  have e3 : ((doe : Int) - (doe : Int).tdiv 1460 + (doe : Int).tdiv 36524 - (doe : Int).tdiv 146096).tdiv 365
      = (yoe : Int) := by
    rw [Int.natCast_tdiv_eq_ediv, Int.natCast_tdiv_eq_ediv, Int.natCast_tdiv_eq_ediv,
      Int.tdiv_eq_ediv_of_nonneg (by omega)]
    omega
  have e4 : (doe : Int) - (365 * yoe + (yoe : Int).tdiv 4 - (yoe : Int).tdiv 100) = (doy : Int) := by
    rw [Int.natCast_tdiv_eq_ediv, Int.natCast_tdiv_eq_ediv]
    omega
  have e5 : (5 * (doy : Int) + 2).tdiv 153 = (mp : Int) := by
    rw [Int.tdiv_eq_ediv_of_nonneg (by omega)]
    omega
  have e6 : (153 * (mp : Int) + 2).tdiv 5 = (((153 * mp + 2) / 5 : Nat) : Int) := by
    rw [Int.tdiv_eq_ediv_of_nonneg (by omega)]
    omega
  unfold civilFromDays
  dsimp only
  rw [e1, e2, e3, e4, e5, e6, ← hm]

/-- The first days of an era's years. -/
theorem yearDays_era (era : Int) {yoe : Nat} (h : yoe < 400) :
    yearDays ((yoe : Int) + era * 400) = era * 146097 + (yearStart yoe : Nat) := by
  unfold yearDays yearStart
  omega

/-- A day of an era lies in its year. -/
theorem yearDays_range (era : Int) {doe : Nat} (h : doe ≤ 146096) :
    yearDays ((yearOfEra doe : Int) + era * 400) ≤ era * 146097 + doe ∧
      era * 146097 + doe < yearDays ((yearOfEra doe : Int) + era * 400 + 1) := by
  have hlt := yearOfEra_lt h
  have hrange := dayOfYear_range h
  rw [yearDays_era era hlt]
  refine ⟨by omega, ?_⟩
  rcases lt_yearStart_succ h with hnext | hlast
  · by_cases h399 : yearOfEra doe = 399
    · have hera : ((399 : Nat) : Int) + era * 400 + 1 = ((0 : Nat) : Int) + (era + 1) * 400 := by omega
      rw [h399, hera, yearDays_era (era + 1) (by decide)]
      omega
    · have hyear : ((yearOfEra doe : Nat) : Int) + era * 400 + 1 = ((yearOfEra doe + 1 : Nat) : Int) + era * 400 := by omega
      rw [hyear, yearDays_era era (by omega)]
      omega
  · have hera : ((399 : Nat) : Int) + era * 400 + 1 = ((0 : Nat) : Int) + (era + 1) * 400 := by omega
    rw [hlast, hera, yearDays_era (era + 1) (by decide)]
    omega

/-- **A day number's date** is valid and has the calendar's number. -/
theorem civilFromDays_spec (z : Int) :
    Valid (civilFromDays z).1 (civilFromDays z).2.1 (civilFromDays z).2.2 ∧
      number (civilFromDays z).1 (civilFromDays z).2.1 (civilFromDays z).2.2 = z + 719468 := by
  obtain ⟨era, doe, hle, hz, hdate⟩ := civilFromDays_eq z
  obtain ⟨yoe, hyoe⟩ : ∃ yoe, yoe = yearOfEra doe := ⟨_, rfl⟩
  obtain ⟨doy, hdoy⟩ : ∃ doy, doy = doe - yearStart yoe := ⟨_, rfl⟩
  obtain ⟨mp, hmp⟩ : ∃ mp, mp = (5 * doy + 2) / 153 := ⟨_, rfl⟩
  obtain ⟨m, hm⟩ : ∃ m : Int, m = (if (mp : Int) < 10 then (mp : Int) + 3 else mp - 9) := ⟨_, rfl⟩
  rw [hdate yoe doy mp hyoe hdoy hmp m hm]
  dsimp only
  have hylt := yearOfEra_lt hle
  have hrange := dayOfYear_range hle
  have hyear := yearDays_range era hle
  rw [← hyoe] at hylt hrange hyear
  have hstart : yearDays ((yoe : Int) + era * 400) + doy = z + 719468 := by
    rw [yearDays_era era hylt]
    omega
  have hday : ((153 * mp + 2) / 5 : Nat) = monthDays (mp : Int) := by
    unfold monthDays
    omega
  rw [hday, ← hstart]
  exact valid_of_day (by omega) (by omega) (by omega) hm

/-- **A date's day number** is the calendar's. -/
theorem daysFromCivil_eq {y m d : Int} (hm : 1 ≤ m ∧ m ≤ 12) : daysFromCivil y m d = number y m d - 719468 := by
  obtain ⟨Y, hY⟩ : ∃ Y, Y = if m ≤ 2 then y - 1 else y := ⟨_, rfl⟩
  obtain ⟨mp, hmp⟩ : ∃ mp, mp = if m > 2 then m - 3 else m + 9 := ⟨_, rfl⟩
  have hmp0 : 0 ≤ mp := by
    split at hmp <;> omega
  have e1 : (if Y ≥ 0 then Y else Y - 399).tdiv 400 = Y / 400 := tdiv_corrected (by decide : (0 : Int) < 400) Y
  have e2 : (153 * mp + 2).tdiv 5 = (153 * mp + 2) / 5 := Int.tdiv_eq_ediv_of_nonneg (by omega)
  have e3 : (Y - Y / 400 * 400).tdiv 4 = (Y - Y / 400 * 400) / 4 := Int.tdiv_eq_ediv_of_nonneg (by omega)
  have e4 : (Y - Y / 400 * 400).tdiv 100 = (Y - Y / 400 * 400) / 100 := Int.tdiv_eq_ediv_of_nonneg (by omega)
  unfold daysFromCivil number marchYear marchMonth yearDays monthDays
  dsimp only
  rw [← hY, ← hmp, e1, e2, e3, e4]
  omega

/-- **The two are inverse**, on every day number and every valid date. -/
theorem civil_inverse :
    (∀ z, daysFromCivil (civilFromDays z).1 (civilFromDays z).2.1 (civilFromDays z).2.2 = z) ∧
      ∀ y m d, Valid y m d → civilFromDays (daysFromCivil y m d) = (y, m, d) := by
  refine ⟨fun z => ?_, fun y m d h => ?_⟩
  · obtain ⟨hvalid, hnumber⟩ := civilFromDays_spec z
    rw [daysFromCivil_eq hvalid.month, hnumber]
    omega
  · obtain ⟨hvalid, hnumber⟩ := civilFromDays_spec (daysFromCivil y m d)
    have heq : number (civilFromDays (daysFromCivil y m d)).1 (civilFromDays (daysFromCivil y m d)).2.1
        (civilFromDays (daysFromCivil y m d)).2.2 = number y m d := by
      rw [hnumber, daysFromCivil_eq h.month]
      omega
    obtain ⟨hy, hm, hd⟩ := number_injective hvalid h heq
    exact Prod.ext hy (Prod.ext hm hd)

/-- The next day's date is the day after. -/
theorem civilFromDays_succ (z : Int) : civilFromDays (z + 1) = next (civilFromDays z) := by
  obtain ⟨hvalid, hnumber⟩ := civilFromDays_spec z
  rcases hc : civilFromDays z with ⟨y, m, d⟩
  rw [hc] at hvalid hnumber
  dsimp only at hvalid hnumber
  have hnext := number_next hvalid
  have hday : daysFromCivil (next (y, m, d)).1 (next (y, m, d)).2.1 (next (y, m, d)).2.2 = z + 1 := by
    rw [daysFromCivil_eq hvalid.next.month]
    omega
  rw [← hday]
  exact civil_inverse.2 _ _ _ hvalid.next

/-- A month's first day is as many days before one of its days as the day's date says. -/
theorem monthStart_eq (z : Int) : monthStart z = z + 1 - (civilFromDays z).2.2 := by
  obtain ⟨hvalid, hnumber⟩ := civilFromDays_spec z
  unfold monthStart
  dsimp only
  rw [daysFromCivil_eq hvalid.month]
  rw [number_day] at hnumber
  omega

end Busbar
