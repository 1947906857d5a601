import Mathlib.Tactic.IntervalCases
import Sift.Calendar

namespace Sift

/-! A date is the date of its day number. -/

namespace Calendar

theorem daysBeforeYear_era (era year : Int) :
    daysBeforeYear (400 * era + year) = 146097 * era + daysBeforeYear year := by
  unfold daysBeforeYear
  omega

theorem isLeapYear_iff (year : Int) :
    isLeapYear year = true ↔
      year % 4 = 0 ∧ (year % 100 ≠ 0 ∨ year % 400 = 0) := by
  simp [isLeapYear]

/-- The day is one of those of the year, which begins in March: the leap day comes last
and belongs to the calendar year that follows. -/
structure DayOfYear (year day : Int) : Prop where
  nonneg : 0 ≤ day
  le : day ≤ 365
  leap : day = 365 → isLeapYear (year + 1) = true

section Era

variable {year day : Int} (hyear : 0 ≤ year) (hera : year < 400)
  (hday : DayOfYear year day)

include hyear hera hday

theorem dayOfEra_bounds :
    0 ≤ daysBeforeYear year + day ∧ daysBeforeYear year + day < 146097 := by
  obtain ⟨hnonneg, hle, hleap⟩ := hday
  rw [isLeapYear_iff] at hleap
  unfold daysBeforeYear
  omega

/-- The day on which an era ends counts in the last of its centuries. -/
theorem century_of_day :
    (daysBeforeYear year + day) / 36524 - (daysBeforeYear year + day) / 146096 =
      year / 100 := by
  obtain ⟨hnonneg, hle, hleap⟩ := hday
  rw [isLeapYear_iff] at hleap
  unfold daysBeforeYear
  by_cases hend : year = 399 ∧ day = 365
  · obtain ⟨rfl, rfl⟩ := hend
    rfl
  · have hlow : 36524 * (year / 100) ≤
        365 * year + year / 4 - year / 100 + year / 400 + day := by omega
    have hhigh : 365 * year + year / 4 - year / 100 + year / 400 + day <
        36524 * (year / 100) + 36524 := by omega
    omega

theorem year_of_day :
    (daysBeforeYear year + day - (daysBeforeYear year + day) / 1460 +
      (daysBeforeYear year + day) / 36524 - (daysBeforeYear year + day) / 146096) / 365 =
        year := by
  have hcentury := century_of_day hyear hera hday
  obtain ⟨hnonneg, hle, hleap⟩ := hday
  rw [isLeapYear_iff] at hleap
  have hdays : daysBeforeYear year + day = 365 * year + year / 4 - year / 100 + day := by
    unfold daysBeforeYear
    omega
  have hlow : year / 4 + day - 364 ≤ (daysBeforeYear year + day) / 1460 := by
    rw [hdays]
    omega
  have hhigh : (daysBeforeYear year + day) / 1460 ≤ year / 4 + day := by
    rw [hdays]
    omega
  omega

end Era

/-! Months counted from March. -/

theorem month_of_monthFromMarch {month : Nat} (hfirst : 1 ≤ month) (hlast : month ≤ 12) :
    (if monthFromMarch month < 10 then monthFromMarch month + 3
      else monthFromMarch month - 9) = month := by
  unfold monthFromMarch
  split <;> omega

theorem year_of_yearFromMarch (year : Int) {month : Nat} (hfirst : 1 ≤ month)
    (hlast : month ≤ 12) :
    (if monthFromMarch month < 10 then yearFromMarch year month
      else yearFromMarch year month + 1) = year := by
  unfold monthFromMarch yearFromMarch
  split <;> split <;> omega

end Calendar

namespace Date

open Calendar

variable {date : Date}

/-- The days of the year before a date, where the year begins in March. -/
def dayOfYear (date : Date) : Nat :=
  daysBeforeMonth (monthFromMarch date.month) + (date.day - 1)

theorem month_of_dayOfYear (h : date.Valid) :
    (5 * date.dayOfYear + 2) / 153 = monthFromMarch date.month := by
  obtain ⟨hfirst, hlast, hday, hlength⟩ := h
  unfold dayOfYear daysBeforeMonth monthFromMarch
  unfold daysInMonth at hlength
  have hleap : (if isLeapYear date.year then 29 else 28) ≤ 29 := by split <;> omega
  -- Each month has bounds of its own.
  generalize date.month = month at *
  interval_cases month <;> simp at hlength ⊢ <;> omega

theorem dayOfYear_valid (h : date.Valid) :
    DayOfYear (yearFromMarch date.year date.month % 400) date.dayOfYear := by
  obtain ⟨hfirst, hlast, hday, hlength⟩ := h
  refine ⟨by omega, ?_, ?_⟩
  · unfold daysInMonth at hlength
    unfold dayOfYear daysBeforeMonth monthFromMarch
    split at hlength
    · split at hlength <;> omega
    split at hlength <;> omega
  · intro hlast
    unfold daysInMonth at hlength
    unfold dayOfYear daysBeforeMonth monthFromMarch at hlast
    split at hlength
    · split at hlength
      · rename_i hmonth hleap
        rw [isLeapYear_iff] at hleap ⊢
        simp only [yearFromMarch, hmonth, Nat.le_refl, if_true]
        omega
      · omega
    split at hlength <;> omega

theorem ofDayNumber_dayNumber (h : date.Valid) : ofDayNumber date.dayNumber = date := by
  have hmonth := month_of_dayOfYear h
  have hday := dayOfYear_valid h
  obtain ⟨hfirst, hlast, hdayFirst, -⟩ := h
  generalize hyear : yearFromMarch date.year date.month = year at *
  have hnonneg : 0 ≤ year % 400 := by omega
  have hera : year % 400 < 400 := by omega
  have hbounds := dayOfEra_bounds hnonneg hera hday
  have hdays : date.dayNumber + epoch =
      146097 * (year / 400) + (daysBeforeYear (year % 400) + date.dayOfYear) := by
    rw [← Int.add_assoc, ← daysBeforeYear_era, Int.mul_ediv_add_emod]
    unfold dayNumber dayOfYear
    rw [hyear]
    omega
  have hdiv : (date.dayNumber + epoch) / 146097 = year / 400 := by omega
  have hmod : (date.dayNumber + epoch) % 146097 =
      daysBeforeYear (year % 400) + date.dayOfYear := by omega
  have hrest : daysBeforeYear (year % 400) + date.dayOfYear -
      daysBeforeYear (year % 400) = date.dayOfYear := by omega
  unfold ofDayNumber
  simp only [hdiv, hmod, year_of_day hnonneg hera hday, hrest, Int.toNat_natCast, hmonth,
    Int.mul_ediv_add_emod]
  rw [month_of_monthFromMarch hfirst hlast, ← hyear,
    year_of_yearFromMarch _ hfirst hlast, dayOfYear]
  rw [Nat.add_sub_cancel_left, Nat.sub_add_cancel hdayFirst]

end Date

end Sift
