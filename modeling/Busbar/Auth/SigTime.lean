import Busbar.Auth.Sigv4

/-!
# Signing times

The signer writes its time as text and the verifier reads it back. Each has a formula of its own between days
and dates; both are the calendar's.

* `digits_lastDigits`: a number comes back from its digits.
* `parseAmzDate_formatAmzTime`: a time comes back from its text, as long as its year has four digits.
-/

namespace Busbar.Sigv4

open Calendar

/-! ## Digits -/

theorem length_lastDigits (width n : Nat) : (lastDigits width n).length = width := by
  induction width generalizing n with
  | zero => rfl
  | succ width ih => rw [lastDigits, List.length_append, ih, List.length_singleton]

theorem isDigit_lastDigits (width n : Nat) : (lastDigits width n).all Char.isDigit = true := by
  induction width generalizing n with
  | zero => rfl
  | succ width ih =>
    have hlast : n % 10 < 10 := Nat.mod_lt n (by decide)
    rw [lastDigits, List.all_append, ih, List.all_cons, Nat.isDigit_digitChar]
    simp [hlast]

/-- The digits written behind others make up the number. -/
theorem foldl_lastDigits (width : Nat) : ∀ a n : Nat, n < 10 ^ width →
    (lastDigits width n).foldl (fun n c => n * 10 + (c.toNat - 48)) a = a * 10 ^ width + n := by
  induction width with
  | zero =>
    intro a n hn
    rw [Nat.pow_zero] at hn
    show a = a * 1 + n
    omega
  | succ width ih =>
    intro a n hn
    have hlast : n % 10 < 10 := Nat.mod_lt n (by decide)
    have hrest : n / 10 < 10 ^ width := by
      rw [Nat.pow_succ] at hn
      omega
    have hdigit : (n % 10).digitChar.toNat - 48 = n % 10 := Nat.toNat_digitChar_sub_48_of_lt_ten hlast
    have hpow : a * 10 ^ (width + 1) = a * 10 ^ width * 10 := by
      rw [Nat.pow_succ, Nat.mul_assoc]
    rw [lastDigits, List.foldl_append, ih a (n / 10) hrest, List.foldl_cons, List.foldl_nil, hdigit, hpow]
    omega

theorem digits_lastDigits {width n : Nat} (h : n < 10 ^ width) : digits (lastDigits width n) = some (n : Int) := by
  unfold digits
  rw [if_pos (isDigit_lastDigits width n), foldl_lastDigits width 0 n h, Nat.zero_mul, Nat.zero_add]

theorem isAscii_of_isDigit {c : Char} (h : c.isDigit = true) : isAscii c = true := by
  have hle : c.toNat ≤ 57 := by
    unfold Char.isDigit at h
    simp only [ge_iff_le, Bool.and_eq_true, decide_eq_true_eq] at h
    exact h.2
  unfold isAscii
  simp only [decide_eq_true_eq]
  omega

theorem isAscii_lastDigits (width n : Nat) : (lastDigits width n).all isAscii = true := by
  have h := List.all_eq_true.1 (isDigit_lastDigits width n)
  exact List.all_eq_true.2 fun c hc => isAscii_of_isDigit (h c hc)

theorem toList_zeroPadded {width n : Nat} (h : n < 10 ^ width) : (zeroPadded width n).toList = lastDigits width n := by
  unfold zeroPadded
  rw [if_pos h, String.toList_ofList]

/-! ## The year, the month and the day of a time -/

/-- The date a time is signed with. -/
def signingDate (t : Nat) : Int × Int × Int := civilFromDays ((t / 86400 : Nat) : Int)

/-- Its year has four digits at most. -/
def FourDigitYear (t : Nat) : Prop := (signingDate t).1 ≤ 9999

theorem signingDate_spec (t : Nat) :
    Valid (signingDate t).1 (signingDate t).2.1 (signingDate t).2.2 ∧
      daysFromCivil (signingDate t).1 (signingDate t).2.1 (signingDate t).2.2 = ((t / 86400 : Nat) : Int) :=
  ⟨(civilFromDays_spec _).1, civil_inverse.1 _⟩

/-- No time is before the year 0. -/
theorem signingDate_year_nonneg (t : Nat) : 0 ≤ (signingDate t).1 := by
  obtain ⟨hvalid, hnumber⟩ := civilFromDays_spec ((t / 86400 : Nat) : Int)
  have hrange := (number_year hvalid).2
  by_contra hneg
  have hyear : (civilFromDays ((t / 86400 : Nat) : Int)).1 < 0 := not_le.1 hneg
  -- the days of the years before it have no positive numbers
  have hmono : yearDays (marchYear (civilFromDays ((t / 86400 : Nat) : Int)).1 (civilFromDays ((t / 86400 : Nat) : Int)).2.1 + 1) ≤ 0 := by
    unfold yearDays marchYear
    split <;> omega
  omega

/-! ## There and back -/

/-- The text of a time, digit by digit. -/
theorem toList_formatAmzTime {t : Nat} (hyear : FourDigitYear t) :
    ∃ year month day h mi s : Nat,
      (year : Int) = (signingDate t).1 ∧ (month : Int) = (signingDate t).2.1 ∧ (day : Int) = (signingDate t).2.2 ∧
      h < 24 ∧ mi < 60 ∧ s < 60 ∧ t = t / 86400 * 86400 + h * 3600 + mi * 60 + s ∧
      year < 10 ^ 4 ∧ month < 10 ^ 2 ∧ day < 10 ^ 2 ∧
      (formatAmzTime t).2.toList = lastDigits 4 year ++ lastDigits 2 month ++ lastDigits 2 day ∧
      (formatAmzTime t).1.toList = lastDigits 4 year ++ lastDigits 2 month ++ lastDigits 2 day ++ ['T'] ++
        lastDigits 2 h ++ lastDigits 2 mi ++ lastDigits 2 s ++ ['Z'] := by
  obtain ⟨⟨hmonth, hday⟩, -⟩ := signingDate_spec t
  have hlen := monthLen_pos (signingDate t).1 (signingDate t).2.1
  have hnonneg := signingDate_year_nonneg t
  unfold FourDigitYear at hyear
  have hy : (signingDate t).1.toNat < 10 ^ 4 := by omega
  have hm : (signingDate t).2.1.toNat < 10 ^ 2 := by omega
  have hd : (signingDate t).2.2.toNat < 10 ^ 2 := by omega
  have hh : t % 86400 / 3600 < 24 := by omega
  have hmi : t % 86400 % 3600 / 60 < 60 := by omega
  have hs : t % 86400 % 60 < 60 := by omega
  have hdate : (formatAmzTime t).2.toList = lastDigits 4 (signingDate t).1.toNat ++
      lastDigits 2 (signingDate t).2.1.toNat ++ lastDigits 2 (signingDate t).2.2.toNat := by
    rw [← toList_zeroPadded hy, ← toList_zeroPadded hm, ← toList_zeroPadded hd, ← String.toList_append,
      ← String.toList_append]
    rfl
  refine ⟨(signingDate t).1.toNat, (signingDate t).2.1.toNat, (signingDate t).2.2.toNat, t % 86400 / 3600,
    t % 86400 % 3600 / 60, t % 86400 % 60, by omega, by omega, by omega, hh, hmi, hs, by omega, hy, hm, hd, hdate, ?_⟩
  have hh2 : t % 86400 / 3600 < 10 ^ 2 := by omega
  have hmi2 : t % 86400 % 3600 / 60 < 10 ^ 2 := by omega
  have hs2 : t % 86400 % 60 < 10 ^ 2 := by omega
  have htext : (formatAmzTime t).1 = (formatAmzTime t).2 ++ "T" ++ zeroPadded 2 (t % 86400 / 3600) ++
      zeroPadded 2 (t % 86400 % 3600 / 60) ++ zeroPadded 2 (t % 86400 % 60) ++ "Z" := rfl
  rw [htext]
  simp only [String.toList_append, hdate, toList_zeroPadded hh2, toList_zeroPadded hmi2, toList_zeroPadded hs2]
  rfl

/-- **A time comes back from its text.** -/
theorem parseAmzDate_formatAmzTime {t : Nat} (hyear : FourDigitYear t) :
    parseAmzDate (formatAmzTime t).1 = some t := by
  obtain ⟨year, month, day, h, mi, s, hy, hm, hd, hh, hmi, hs, ht, hy4, hm2, hd2, -, htext⟩ :=
    toList_formatAmzTime hyear
  obtain ⟨⟨hmonth, hday⟩, hdays⟩ := signingDate_spec t
  have hlen := monthLen_pos (signingDate t).1 (signingDate t).2.1
  rw [← hy, ← hm, ← hd] at hdays
  rw [← hm] at hmonth
  rw [← hd] at hday
  have hh2 : h < 10 ^ 2 := by omega
  have hmi2 : mi < 10 ^ 2 := by omega
  have hs2 : s < 10 ^ 2 := by omega
  have hascii : (formatAmzTime t).1.toList.all isAscii = true := by
    rw [htext]
    simp only [List.all_append, isAscii_lastDigits, Bool.true_and]
    decide
  have hshape : ¬(¬(formatAmzTime t).1.toList.all isAscii = true ∨ (formatAmzTime t).1.toList.length ≠ 16 ∨
      (formatAmzTime t).1.toList[8]? ≠ some 'T' ∨ (formatAmzTime t).1.toList[15]? ≠ some 'Z') := by
    rw [not_or, not_not, htext]
    rw [htext] at hascii
    exact ⟨hascii, by simp [lastDigits]⟩
  -- the six numbers stand where they were written
  have hy_text : (formatAmzTime t).1.toList.take 4 = lastDigits 4 year := by
    rw [htext]
    simp [lastDigits]
  have hm_text : ((formatAmzTime t).1.toList.drop 4).take 2 = lastDigits 2 month := by
    rw [htext]
    simp [lastDigits]
  have hd_text : ((formatAmzTime t).1.toList.drop 6).take 2 = lastDigits 2 day := by
    rw [htext]
    simp [lastDigits]
  have hh_text : ((formatAmzTime t).1.toList.drop 9).take 2 = lastDigits 2 h := by
    rw [htext]
    simp [lastDigits]
  have hmi_text : ((formatAmzTime t).1.toList.drop 11).take 2 = lastDigits 2 mi := by
    rw [htext]
    simp [lastDigits]
  have hs_text : ((formatAmzTime t).1.toList.drop 13).take 2 = lastDigits 2 s := by
    rw [htext]
    simp [lastDigits]
  have hrange : ¬(¬(1 ≤ (month : Int) ∧ (month : Int) ≤ 12) ∨ ¬(1 ≤ (day : Int) ∧ (day : Int) ≤ 31) ∨ (h : Int) > 23 ∨
      (mi : Int) > 59 ∨ (s : Int) > 60) := by
    have hmonth' : 1 ≤ (month : Int) ∧ (month : Int) ≤ 12 := ⟨hmonth.1, hmonth.2⟩
    have hday' : 1 ≤ (day : Int) ∧ (day : Int) ≤ 31 := ⟨hday.1, hday.2.trans hlen.2⟩
    clear hdays ht hshape hascii
    omega
  have hepoch : daysFromCivil year month day * 86400 + h * 3600 + mi * 60 + s = (t : Int) := by
    rw [hdays]
    omega
  have hnonneg : ¬(t : Int) < 0 := by omega
  unfold parseAmzDate
  dsimp only
  rw [if_neg hshape, hy_text, hm_text, hd_text, hh_text, hmi_text, hs_text, digits_lastDigits hy4, digits_lastDigits hm2,
    digits_lastDigits hd2, digits_lastDigits hh2, digits_lastDigits hmi2, digits_lastDigits hs2]
  simp only [Option.bind_eq_bind, Option.bind_some]
  rw [if_neg hrange, hepoch, if_neg hnonneg, Int.toNat_natCast]

end Busbar.Sigv4
