import Runbook.Time.Instant

/-!
# Days and dates

The date of a day is one that the calendar has, and the day of that date is the day again
(`Instant.dateOf_spec`). An era has 146097 days and starts on the first of March, and so does each
of its years, so that the leap day is the last of a year: `yearOfEra_spec` finds the year of a day
of an era, and `monthOfYear_spec` the month of a day of a year.
-/

namespace Runbook.Instant

/-- The year of an era that a day of the era lies in. -/
def yearOfEra (d : Int) : Int := (d - d / 1460 + d / 36524 - d / 146096) / 365

/-- The days of an era before a year of it. -/
def daysBefore (y : Int) : Int := 365 * y + y / 4 - y / 100

/-- The days of a year before a month of it. -/
def daysBeforeMonth (m : Int) : Int := (153 * m + 2) / 5

/-- The month of the calendar that a month from March on is. -/
def calendarMonth (m : Int) : Int := if m < 10 then m + 3 else m - 9

/-- A day of an era lies in its year: it is the 366th only of a leap year. -/
theorem yearOfEra_spec {d : Int} (h0 : 0 ≤ d) (h1 : d ≤ 146096) :
    (0 ≤ yearOfEra d ∧ yearOfEra d ≤ 399) ∧ daysBefore (yearOfEra d) ≤ d ∧
      d ≤ daysBefore (yearOfEra d) + 365 ∧
      (d = daysBefore (yearOfEra d) + 365 → isLeapYear (yearOfEra d + 1) = true) := by
  generalize hy : yearOfEra d = y
  unfold yearOfEra at hy
  have hyear : 0 ≤ y ∧ y ≤ 399 := by omega
  -- The quotients that are not linear in `d` and `y` are fixed first: the century of the day, the
  -- century of the year, and whether the day is the last of the era.
  have hlast : d / 146096 = 0 ∨ d / 146096 = 1 := by omega
  have hday : d / 36524 = 0 ∨ d / 36524 = 1 ∨ d / 36524 = 2 ∨ d / 36524 = 3 ∨ d / 36524 = 4 := by
    omega
  have hcentury : y / 100 = 0 ∨ y / 100 = 1 ∨ y / 100 = 2 ∨ y / 100 = 3 := by omega
  have hbetween : daysBefore y ≤ d ∧ d ≤ daysBefore y + 365 ∧
      (d = daysBefore y + 365 → y % 4 = 3 ∧ (y % 100 ≠ 99 ∨ y = 399)) := by
    unfold daysBefore
    rcases hlast with hlast | hlast <;> rcases hday with hday | hday | hday | hday | hday <;>
      rcases hcentury with hcentury | hcentury | hcentury | hcentury <;>
      rw [hday, hlast] at hy <;> rw [hcentury] <;> omega
  refine ⟨hyear, hbetween.1, hbetween.2.1, fun h => ?_⟩
  have hleap := hbetween.2.2 h
  simp only [isLeapYear, Bool.and_eq_true, Bool.or_eq_true, beq_iff_eq, bne_iff_ne, ne_eq]
  omega

/-- A day of a year lies in its month. -/
theorem monthOfYear_spec {n m : Int} (h0 : 0 ≤ n) (h1 : n ≤ 365) (hm : (5 * n + 2) / 153 = m) :
    (0 ≤ m ∧ m ≤ 11) ∧ daysBeforeMonth m ≤ n ∧ n < daysBeforeMonth (m + 1) := by
  unfold daysBeforeMonth
  omega

/-- Every month but the last has the days up to the next. -/
theorem daysIn_calendarMonth {m : Int} (h0 : 0 ≤ m) (h1 : m ≤ 10) (year : Int) :
    (daysIn year (calendarMonth m).toNat : Int) = daysBeforeMonth (m + 1) - daysBeforeMonth m := by
  obtain rfl | rfl | rfl | rfl | rfl | rfl | rfl | rfl | rfl | rfl | rfl : m = 0 ∨ m = 1 ∨ m = 2 ∨
      m = 3 ∨ m = 4 ∨ m = 5 ∨ m = 6 ∨ m = 7 ∨ m = 8 ∨ m = 9 ∨ m = 10 := by omega
  all_goals rfl

theorem daysIn_february (year : Int) : daysIn year 2 = if isLeapYear year then 29 else 28 := rfl

theorem isLeapYear_add_era (y era : Int) : isLeapYear (y + era * 400 + 1) = isLeapYear (y + 1) := by
  have h4 : (y + era * 400 + 1) % 4 = (y + 1) % 4 := by omega
  have h100 : (y + era * 400 + 1) % 100 = (y + 1) % 100 := by omega
  have h400 : (y + era * 400 + 1) % 400 = (y + 1) % 400 := by omega
  simp only [isLeapYear, h4, h100, h400]

/-- The date of the `n`th day of year `y` of an era. -/
theorem dateOf_eq {era d y n m : Int} (h0 : 0 ≤ d) (h1 : d ≤ 146096) (hy : yearOfEra d = y)
    (hn : d - daysBefore y = n) (hm : (5 * n + 2) / 153 = m) :
    dateOf (era * 146097 + d - 719468) = (y + era * 400 + (if calendarMonth m ≤ 2 then 1 else 0),
      (calendarMonth m).toNat, (n - daysBeforeMonth m + 1).toNat) := by
  have hera : (era * 146097 + d - 719468 + 719468).fdiv 146097 = era := by
    rw [Int.fdiv_eq_ediv_of_nonneg _ (by decide)]
    omega
  have hday : era * 146097 + d - 719468 + 719468 - era * 146097 = d := by omega
  subst hy hn hm
  simp only [dateOf, hera, hday]
  rfl

/-- The day of such a date. -/
theorem daysOf_eq {era y n m : Int} (hy : 0 ≤ y ∧ y ≤ 399) (hm : 0 ≤ m ∧ m ≤ 11)
    (hn : daysBeforeMonth m ≤ n) :
    daysOf (y + era * 400 + (if calendarMonth m ≤ 2 then 1 else 0)) (calendarMonth m).toNat
      (n - daysBeforeMonth m + 1).toNat = era * 146097 + (daysBefore y + n) - 719468 := by
  have hmonth : ((calendarMonth m).toNat : Int) = calendarMonth m := by
    unfold calendarMonth
    omega
  have hday : ((n - daysBeforeMonth m + 1).toNat : Int) = n - daysBeforeMonth m + 1 := by omega
  have hle : (calendarMonth m).toNat ≤ 2 ↔ calendarMonth m ≤ 2 := by omega
  have hyear : (if calendarMonth m ≤ 2 then
      y + era * 400 + (if calendarMonth m ≤ 2 then 1 else 0) - 1
      else y + era * 400 + (if calendarMonth m ≤ 2 then 1 else 0)) = y + era * 400 := by
    split <;> omega
  have hera : (y + era * 400).fdiv 400 = era := by
    rw [Int.fdiv_eq_ediv_of_nonneg _ (by decide)]
    omega
  have hm' : (if calendarMonth m ≤ 2 then calendarMonth m + 9 else calendarMonth m - 3) = m := by
    unfold calendarMonth
    omega
  simp only [daysOf, hle, hmonth, hday, hyear, hera, hm']
  unfold daysBeforeMonth daysBefore
  omega

/-- **The date of a day** is one of the calendar, and the day of that date is the day again. -/
theorem dateOf_spec (days : Int) : ∃ year month day, dateOf days = (year, month, day) ∧
    daysOf year month day = days ∧ (1 ≤ month ∧ month ≤ 12) ∧ 1 ≤ day ∧
      day ≤ daysIn year month := by
  obtain ⟨era, d, rfl, h0, h1⟩ : ∃ era d : Int, days = era * 146097 + d - 719468 ∧ 0 ≤ d ∧
      d ≤ 146096 :=
    ⟨(days + 719468) / 146097, (days + 719468) % 146097, by omega, by omega, by omega⟩
  obtain ⟨hyear, hle, hlt, hleap⟩ := yearOfEra_spec h0 h1
  obtain ⟨y, hy⟩ : ∃ y, yearOfEra d = y := ⟨_, rfl⟩
  obtain ⟨n, hn⟩ : ∃ n, d - daysBefore y = n := ⟨_, rfl⟩
  obtain ⟨m, hm⟩ : ∃ m, (5 * n + 2) / 153 = m := ⟨_, rfl⟩
  rw [hy] at hyear hle hlt hleap
  obtain ⟨hmonth, hstart, hstop⟩ := monthOfYear_spec (by omega) (by omega) hm
  refine ⟨_, _, _, dateOf_eq h0 h1 hy hn hm, ?_, ?_, by omega, ?_⟩
  · rw [daysOf_eq hyear hmonth hstart]
    omega
  · unfold calendarMonth
    omega
  · by_cases hlast : m ≤ 10
    · have hdays := daysIn_calendarMonth hmonth.1 hlast
        (y + era * 400 + if calendarMonth m ≤ 2 then 1 else 0)
      omega
    · obtain rfl : m = 11 := by omega
      -- The month is February, which has a 29th day when the 366th day of the year is there.
      have hbefore : daysBeforeMonth 11 = 337 := rfl
      show _ ≤ daysIn (y + era * 400 + 1) 2
      rw [daysIn_february, isLeapYear_add_era]
      by_cases hlong : n = 365
      · rw [if_pos (hleap (by omega))]
        omega
      · split <;> omega

end Runbook.Instant
