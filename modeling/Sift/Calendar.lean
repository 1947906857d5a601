namespace Sift

/-! Dates of the proleptic Gregorian calendar, counted in days from 1970-01-01. -/

structure Date where
  year : Int
  month : Nat
  day : Nat
deriving DecidableEq

namespace Calendar

def isLeapYear (year : Int) : Bool :=
  year % 4 = 0 && (year % 100 ≠ 0 || year % 400 = 0)

def daysInMonth (year : Int) (month : Nat) : Nat :=
  if month = 2 then if isLeapYear year then 29 else 28
  else if month = 4 ∨ month = 6 ∨ month = 9 ∨ month = 11 then 30
  else 31

/-! The year is taken to begin in March, so that the leap day is its last day and
the days before month `m`, counted from March as 0, are `(153 * m + 2) / 5`. -/

def monthFromMarch (month : Nat) : Nat :=
  (month + 9) % 12

def yearFromMarch (year : Int) (month : Nat) : Int :=
  if month ≤ 2 then year - 1 else year

def daysBeforeYear (year : Int) : Int :=
  365 * year + year / 4 - year / 100 + year / 400

def daysBeforeMonth (month : Nat) : Nat :=
  (153 * month + 2) / 5

/-- Days from 0000-03-01 to 1970-01-01. -/
def epoch : Int := 719468

end Calendar

namespace Date

open Calendar

def Valid (date : Date) : Prop :=
  1 ≤ date.month ∧ date.month ≤ 12 ∧
    1 ≤ date.day ∧ date.day ≤ daysInMonth date.year date.month

instance (date : Date) : Decidable date.Valid :=
  inferInstanceAs (Decidable (_ ∧ _ ∧ _ ∧ _))

def dayNumber (date : Date) : Int :=
  daysBeforeYear (yearFromMarch date.year date.month) +
    daysBeforeMonth (monthFromMarch date.month) + date.day - 1 - epoch

def ofDayNumber (days : Int) : Date :=
  let fromMarch := days + epoch
  let era := fromMarch / 146097
  let dayOfEra := fromMarch % 146097
  let yearOfEra :=
    (dayOfEra - dayOfEra / 1460 + dayOfEra / 36524 - dayOfEra / 146096) / 365
  let dayOfYear := (dayOfEra - daysBeforeYear yearOfEra).toNat
  let month := (5 * dayOfYear + 2) / 153
  let year := 400 * era + yearOfEra
  { year := if month < 10 then year else year + 1
    month := if month < 10 then month + 3 else month - 9
    day := dayOfYear - daysBeforeMonth month + 1 }

end Date

end Sift
