/-!
The Gregorian calendar, extended to all years: dates as numbers of days.
-/

namespace Confine.Time

/-- The number of days from 1970-01-01 to the date of the year `y`, the month `m` from 1 to 12 and
the day `d`. The year is taken to begin in March, so that the leap day is its last. -/
def daysOfDate (y : Int) (m d : Nat) : Int :=
  let y' : Int := if m ≤ 2 then y - 1 else y
  let era := y'.fdiv 400
  let yearOfEra := y' - era * 400
  let m' : Nat := if m > 2 then m - 3 else m + 9
  let dayOfYear : Int := ((153 * m' + 2) / 5 + d : Nat) - 1
  let dayOfEra := yearOfEra * 365 + yearOfEra / 4 - yearOfEra / 100 + dayOfYear
  era * 146097 + dayOfEra - 719468

/-- The year, month and day of the date that is `n` days after 1970-01-01. -/
def dateOfDays (n : Int) : Int × Nat × Nat :=
  let z := n + 719468
  let era := z.fdiv 146097
  let doe : Nat := (z - era * 146097).toNat
  let yoe := (doe - doe / 1460 + doe / 36524 - doe / 146096) / 365
  let doy := doe - (365 * yoe + yoe / 4 - yoe / 100)
  let mp := (5 * doy + 2) / 153
  let d := doy - (153 * mp + 2) / 5 + 1
  let m := if mp < 10 then mp + 3 else mp - 9
  ((yoe : Int) + era * 400 + (if m ≤ 2 then 1 else 0), m, d)

/-- A year with a leap day. -/
def isLeapYear (y : Int) : Bool := y % 4 == 0 && (y % 100 != 0 || y % 400 == 0)

/-- The number of days of a month. -/
def daysInMonth (y : Int) (m : Nat) : Nat :=
  if m = 2 then (if isLeapYear y then 29 else 28)
  else if m = 4 ∨ m = 6 ∨ m = 9 ∨ m = 11 then 30
  else 31

end Confine.Time
