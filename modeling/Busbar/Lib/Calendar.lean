import Mathlib.Data.Int.DivMod
import Mathlib.Tactic.IntervalCases

/-!
# The Gregorian calendar

Years, months and days by the Gregorian rule, in both directions without end, and their day numbers. The years are counted
from March on, so that the leap day is the last one of its year.

* `number_nextMonth`: a month is as long as it is.
* `number_injective`: a valid date is told by its number.
* `number_next`: the next day has the next number.
-/

namespace Calendar

/-- A leap year. -/
def Leap (y : ℤ) : Prop := 4 ∣ y ∧ (100 ∣ y → 400 ∣ y)

instance (y : ℤ) : Decidable (Leap y) := by unfold Leap; infer_instance

def monthLen (y m : ℤ) : ℤ :=
  if m = 2 then (if Leap y then 29 else 28) else if m = 4 ∨ m = 6 ∨ m = 9 ∨ m = 11 then 30 else 31

/-- A date there is. -/
structure Valid (y m d : ℤ) : Prop where
  month : 1 ≤ m ∧ m ≤ 12
  day : 1 ≤ d ∧ d ≤ monthLen y m

def nextMonth (y m : ℤ) : ℤ × ℤ := if m = 12 then (y + 1, 1) else (y, m + 1)

/-- The day after. -/
def next (c : ℤ × ℤ × ℤ) : ℤ × ℤ × ℤ :=
  if c.2.2 < monthLen c.1 c.2.1 then (c.1, c.2.1, c.2.2 + 1)
  else ((nextMonth c.1 c.2.1).1, (nextMonth c.1 c.2.1).2, 1)

theorem monthLen_pos (y m : ℤ) : 28 ≤ monthLen y m ∧ monthLen y m ≤ 31 := by
  unfold monthLen
  split
  · split <;> omega
  · split <;> omega

theorem Valid.first {y m : ℤ} (h : 1 ≤ m ∧ m ≤ 12) : Valid y m 1 := by
  have hlen := monthLen_pos y m
  exact ⟨h, by omega, by omega⟩

theorem nextMonth_range {y m : ℤ} (h : 1 ≤ m ∧ m ≤ 12) : 1 ≤ (nextMonth y m).2 ∧ (nextMonth y m).2 ≤ 12 := by
  unfold nextMonth
  split
  · show 1 ≤ (1 : ℤ) ∧ (1 : ℤ) ≤ 12
    decide
  · dsimp only
    omega

/-! ## Day numbers -/

/-- The year of a month when years start in March, and its place in that year. -/
def marchYear (y m : ℤ) : ℤ := if m ≤ 2 then y - 1 else y

def marchMonth (m : ℤ) : ℤ := if m > 2 then m - 3 else m + 9

/-- The days before the first of March of a year. -/
def yearDays (Y : ℤ) : ℤ := 365 * Y + Y / 4 - Y / 100 + Y / 400

/-- The days of a year before a month. -/
def monthDays (mp : ℤ) : ℤ := (153 * mp + 2) / 5

/-- The days before a date since the first of March of the year 0. -/
def number (y m d : ℤ) : ℤ := yearDays (marchYear y m) + monthDays (marchMonth m) + d - 1

/-- A year has a day more when its last February has. -/
theorem yearDays_succ (Y : ℤ) : yearDays (Y + 1) = yearDays Y + 365 + if Leap (Y + 1) then 1 else 0 := by
  unfold yearDays
  by_cases hleap : Leap (Y + 1)
  · rw [if_pos hleap]
    unfold Leap at hleap
    omega
  · rw [if_neg hleap]
    unfold Leap at hleap
    omega

theorem yearDays_mono {Y Y' : ℤ} (h : Y < Y') : yearDays (Y + 1) ≤ yearDays Y' := by
  unfold yearDays
  omega

theorem number_day (y m d : ℤ) : number y m d = number y m 1 + d - 1 := by
  unfold number
  omega

/-- **A month is as long as it is**, from its first day to the first of the next one. -/
theorem number_nextMonth {y m : ℤ} (h : 1 ≤ m ∧ m ≤ 12) :
    number (nextMonth y m).1 (nextMonth y m).2 1 = number y m 1 + monthLen y m := by
  obtain ⟨hlo, hhi⟩ := h
  have hyear := yearDays_succ (y - 1)
  rw [Int.sub_add_cancel] at hyear
  unfold number nextMonth monthLen marchYear marchMonth monthDays
  interval_cases m <;> simp <;> first | omega | (rw [hyear]; split <;> omega)

/-- A date lies in its year. -/
theorem number_year {y m d : ℤ} (h : Valid y m d) :
    yearDays (marchYear y m) ≤ number y m d ∧ number y m d < yearDays (marchYear y m + 1) := by
  obtain ⟨⟨hlo, hhi⟩, hd⟩ := h
  rw [yearDays_succ]
  unfold number monthLen marchYear marchMonth monthDays at *
  interval_cases m <;> simp at hd ⊢ <;> split <;> simp_all <;> omega

/-- The day of the year tells the month. -/
theorem month_of_day {y m d : ℤ} (h : Valid y m d) :
    (5 * (monthDays (marchMonth m) + d - 1) + 2) / 153 = marchMonth m := by
  obtain ⟨⟨hlo, hhi⟩, hd⟩ := h
  have hlen := monthLen_pos y m
  unfold monthLen marchMonth monthDays at *
  interval_cases m <;> simp at hd hlen ⊢ <;> omega

/-- **A valid date is told by its number.** -/
theorem number_injective {y m d y' m' d' : ℤ} (h : Valid y m d) (h' : Valid y' m' d')
    (heq : number y m d = number y' m' d') : y = y' ∧ m = m' ∧ d = d' := by
  have hy := number_year h
  have hy' := number_year h'
  -- years do not overlap
  have hyear : marchYear y m = marchYear y' m' := by
    rcases lt_trichotomy (marchYear y m) (marchYear y' m') with hlt | he | hlt
    · have hmono := yearDays_mono hlt
      omega
    · exact he
    · have hmono := yearDays_mono hlt
      omega
  have hday : monthDays (marchMonth m) + d - 1 = monthDays (marchMonth m') + d' - 1 := by
    unfold number at heq
    rw [hyear] at heq
    omega
  have hmonth : marchMonth m = marchMonth m' := by
    rw [← month_of_day h, ← month_of_day h', hday]
  have hm := h.month
  have hm' := h'.month
  unfold marchMonth at hmonth
  unfold marchYear at hyear
  have hmm : m = m' := by
    split at hmonth <;> split at hmonth <;> omega
  subst hmm
  refine ⟨?_, rfl, by omega⟩
  split at hyear <;> omega

/-- **The date of a day of a year**, by the formulas for its month and day. -/
theorem valid_of_day {Y k mp m : ℤ} (h0 : 0 ≤ k) (hk : yearDays Y + k < yearDays (Y + 1)) (hmp : mp = (5 * k + 2) / 153)
    (hm : m = if mp < 10 then mp + 3 else mp - 9) :
    Valid (if m ≤ 2 then Y + 1 else Y) m (k - monthDays mp + 1) ∧
      number (if m ≤ 2 then Y + 1 else Y) m (k - monthDays mp + 1) = yearDays Y + k := by
  have hlen := yearDays_succ Y
  have hk' : k ≤ 365 := by
    split at hlen <;> omega
  have hm' : 1 ≤ m ∧ m ≤ 12 := by
    split at hm <;> omega
  have hmarch : marchYear (if m ≤ 2 then Y + 1 else Y) m = Y ∧ marchMonth m = mp := by
    unfold marchYear marchMonth
    split <;> split at hm <;> omega
  refine ⟨⟨hm', ?_, ?_⟩, ?_⟩
  · unfold monthDays
    omega
  · -- in each month the day is one of its days
    have hmp' : 0 ≤ mp ∧ mp ≤ 11 := by omega
    obtain ⟨hlo, hhi⟩ := hmp'
    unfold monthDays monthLen
    interval_cases mp <;> simp at hm <;> subst hm <;> simp <;> first | omega | (split at hlen <;> simp_all <;> omega)
  · unfold number
    rw [hmarch.1, hmarch.2]
    omega

theorem Valid.next {y m d : ℤ} (h : Valid y m d) :
    Valid (next (y, m, d)).1 (next (y, m, d)).2.1 (next (y, m, d)).2.2 := by
  unfold Calendar.next
  dsimp only
  split
  · rename_i hlt
    have hd := h.day
    refine ⟨h.month, ?_⟩
    show 1 ≤ d + 1 ∧ d + 1 ≤ monthLen y m
    omega
  · exact Valid.first (nextMonth_range h.month)

/-- **The next day has the next number.** -/
theorem number_next {y m d : ℤ} (h : Valid y m d) :
    number (next (y, m, d)).1 (next (y, m, d)).2.1 (next (y, m, d)).2.2 = number y m d + 1 := by
  unfold Calendar.next
  dsimp only
  split
  · rw [number_day y m (d + 1), number_day y m d]
    omega
  · have hd := h.day
    rw [number_nextMonth h.month, number_day y m d]
    omega

end Calendar
