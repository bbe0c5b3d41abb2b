import Confine.Time.Calendar
import Mathlib.Tactic.IntervalCases

/-!
# Dates and days

A number of days since 1970 is split into eras of 400 years, and the day of an era into centuries, spans of four years,
years and days of a year that begins in March.

* `Time.CivilDay` — a day of the calendar, split like this;
* `Time.exists_civilDay` — every number of days is such a day, and `dateOfDays` finds its date;
* `Time.daysOfDate_dateOfDays` — **a date says which day it is of**;
* `Time.isDate_dateOfDays` — the date has a month of the year and a day of the month.
-/

namespace Confine.Time

/-- The day `t` of a year, which is the year `r` of the span `q` of four years in the century `c` of an era. The last
day of a year of 366 days is in the last year of a span, and the last span of a century has one only at the end of an
era. -/
structure CivilDay where
  era : Int
  c : Nat
  q : Nat
  r : Nat
  t : Nat
  century : c < 4
  span : q < 25
  year : r < 4
  day : t < 365 ∨ t = 365 ∧ r = 3 ∧ (q < 24 ∨ c = 3)

namespace CivilDay

variable (x : CivilDay)

/-- Its number in its era. -/
def dayOfEra : Nat := 36524 * x.c + 1461 * x.q + 365 * x.r + x.t

def days : Int := x.era * 146097 + x.dayOfEra - 719468

def yearOfEra : Nat := 100 * x.c + 4 * x.q + x.r

def monthFromMarch : Nat := (5 * x.t + 2) / 153

def month : Nat := if x.monthFromMarch < 10 then x.monthFromMarch + 3 else x.monthFromMarch - 9

def dayOfMonth : Nat := x.t - (153 * x.monthFromMarch + 2) / 5 + 1

def civilYear : Int := x.yearOfEra + x.era * 400 + if x.month ≤ 2 then 1 else 0

theorem dayOfEra_lt : x.dayOfEra < 146097 := by
  have := x.century
  have := x.span
  have := x.year
  have := x.day
  unfold dayOfEra
  omega

/-- Each day that a year has too many, and each that it has too few, is taken away before the years are counted. -/
theorem yearOfEra_eq : (x.dayOfEra - x.dayOfEra / 1460 + x.dayOfEra / 36524 - x.dayOfEra / 146096) / 365 =
    x.yearOfEra := by
  obtain ⟨_, c, q, r, t, hc, hq, hr, ht⟩ := x
  simp only [dayOfEra, yearOfEra]
  generalize hd : 36524 * c + 1461 * q + 365 * r + t = doe
  have hcarry : doe / 1460 = 25 * c + q + (24 * c + q + 365 * r + t) / 1460 := by omega
  have hcentury : doe / 36524 = c + doe / 146096 := by
    -- only the last day of an era is behind 36524 days of its last century
    rcases Nat.lt_or_ge doe 146096 with hlt | hge
    · have hwithin : 1461 * q + 365 * r + t < 36524 := by omega
      omega
    · omega
  have hrest : t - (24 * c + q + 365 * r + t) / 1460 < 365 := by omega
  have hle : (24 * c + q + 365 * r + t) / 1460 ≤ t := by omega
  have hsum : doe - doe / 1460 + doe / 36524 - doe / 146096 =
      365 * (100 * c + 4 * q + r) + (t - (24 * c + q + 365 * r + t) / 1460) := by omega
  omega

theorem start_eq : 365 * x.yearOfEra + x.yearOfEra / 4 - x.yearOfEra / 100 = x.dayOfEra - x.t := by
  have := x.span
  have := x.year
  unfold yearOfEra dayOfEra
  omega

theorem t_le : x.t ≤ x.dayOfEra := Nat.le_add_left ..

theorem yearOfEra_lt : x.yearOfEra < 400 := by
  have := x.century
  have := x.span
  have := x.year
  unfold yearOfEra
  omega

theorem month_lt : x.monthFromMarch < 12 := by
  have := x.day
  unfold monthFromMarch
  omega

theorem month_le_two_iff : x.month ≤ 2 ↔ 306 ≤ x.t := by
  have := x.month_lt
  unfold month monthFromMarch at *
  split <;> omega

/-- **`dateOfDays` finds the date of the day.** -/
theorem dateOfDays_days : dateOfDays x.days = (x.civilYear, x.month, x.dayOfMonth) := by
  have hlt := x.dayOfEra_lt
  have hday : x.days + 719468 = x.era * 146097 + x.dayOfEra := by
    unfold days
    omega
  have hera : (x.days + 719468).fdiv 146097 = x.era := by
    rw [Int.fdiv_eq_ediv_of_nonneg _ (by decide), hday]
    omega
  have hdoe : (x.days + 719468 - x.era * 146097).toNat = x.dayOfEra := by
    rw [hday]
    omega
  have hdoy : x.dayOfEra - (365 * x.yearOfEra + x.yearOfEra / 4 - x.yearOfEra / 100) = x.t := by
    rw [x.start_eq]
    have := x.t_le
    omega
  simp only [dateOfDays, hera, hdoe, x.yearOfEra_eq, hdoy]
  rfl

/-- **The date says which day it is of.** -/
theorem daysOfDate_eq : daysOfDate x.civilYear x.month x.dayOfMonth = x.days := by
  have hy : (if x.month ≤ 2 then x.civilYear - 1 else x.civilYear) = x.yearOfEra + x.era * 400 := by
    unfold civilYear
    split <;> omega
  have hlt := x.yearOfEra_lt
  have hera : ((x.yearOfEra : Int) + x.era * 400).fdiv 400 = x.era := by
    rw [Int.fdiv_eq_ediv_of_nonneg _ (by decide)]
    omega
  have hmonth : (if x.month > 2 then x.month - 3 else x.month + 9) = x.monthFromMarch := by
    have := x.month_lt
    unfold month
    split <;> split <;> omega
  have hdoy : (153 * x.monthFromMarch + 2) / 5 + x.dayOfMonth = x.t + 1 := by
    unfold dayOfMonth monthFromMarch
    omega
  have hstart := x.start_eq
  have hle := x.t_le
  simp only [daysOfDate, hy, hera, hmonth, hdoy]
  unfold days
  omega

theorem month_within : 1 ≤ x.month ∧ x.month ≤ 12 := by
  have := x.month_lt
  unfold month
  split <;> omega

/-- February has a day 29 in leap years only. -/
theorem dayOfMonth_le_of_february (h : x.month = 2) : x.dayOfMonth ≤ if isLeapYear x.civilYear then 29 else 28 := by
  have hspan := x.span
  have hcentury := x.century
  have hlast : x.monthFromMarch = 11 := by
    unfold month at h
    split at h <;> omega
  have hd : x.dayOfMonth = x.t - 336 := by
    have ht : 337 ≤ x.t := by
      unfold monthFromMarch at hlast
      omega
    rw [dayOfMonth, hlast]
    omega
  rw [hd]
  have hday := x.day
  split
  · omega
  · next hcommon =>
    rcases hday with hday | ⟨-, hr, hq⟩
    · omega
    · -- a year with so many days has a leap day
      refine absurd ?_ hcommon
      have hy : x.civilYear = x.yearOfEra + x.era * 400 + 1 := by rw [civilYear, if_pos (by omega)]
      rw [isLeapYear, hy, yearOfEra, hr]
      simp only [Bool.and_eq_true, Bool.or_eq_true, beq_iff_eq, bne_iff_ne]
      omega

/-- The months from March on have 31 and 30 days by turns, which starts again with August and with January. -/
theorem dayOfMonth_le : x.dayOfMonth ≤ if x.month = 4 ∨ x.month = 6 ∨ x.month = 9 ∨ x.month = 11 then 30 else 31 := by
  have hlt := x.month_lt
  have hm : x.month = if x.monthFromMarch < 10 then x.monthFromMarch + 3 else x.monthFromMarch - 9 := rfl
  have hd : x.dayOfMonth = x.t - (153 * x.monthFromMarch + 2) / 5 + 1 := rfl
  have hmp : x.monthFromMarch = (5 * x.t + 2) / 153 := rfl
  generalize x.monthFromMarch = mp at hlt hm hd hmp
  interval_cases mp <;> simp only [Nat.reduceLT, if_true, if_false] at hm <;> rw [hm, hd] <;> simp <;> omega

theorem isDate : 1 ≤ x.month ∧ x.month ≤ 12 ∧ 1 ≤ x.dayOfMonth ∧ x.dayOfMonth ≤ daysInMonth x.civilYear x.month := by
  refine ⟨x.month_within.1, x.month_within.2, Nat.le_add_left .., ?_⟩
  by_cases hfebruary : x.month = 2
  · have hle := x.dayOfMonth_le_of_february hfebruary
    rwa [hfebruary, daysInMonth, if_pos rfl]
  · rw [daysInMonth, if_neg hfebruary]
    exact x.dayOfMonth_le

end CivilDay

theorem exists_civilDay (n : Int) : ∃ x : CivilDay, x.days = n := by
  obtain ⟨doe, hlt, hn⟩ : ∃ doe : Nat, doe < 146097 ∧ n + 719468 = (n + 719468) / 146097 * 146097 + doe :=
    ⟨((n + 719468) % 146097).toNat, by omega, by omega⟩
  let c := min (doe / 36524) 3
  let q := min ((doe - 36524 * c) / 1461) 24
  let r := min ((doe - 36524 * c - 1461 * q) / 365) 3
  refine ⟨⟨(n + 719468) / 146097, c, q, r, doe - 36524 * c - 1461 * q - 365 * r, ?_, ?_, ?_, ?_⟩, ?_⟩
  · omega
  · omega
  · omega
  · omega
  · simp only [CivilDay.days, CivilDay.dayOfEra]
    omega

/-- **A date says which day it is of.** -/
theorem daysOfDate_dateOfDays (n : Int) :
    daysOfDate (dateOfDays n).1 (dateOfDays n).2.1 (dateOfDays n).2.2 = n := by
  obtain ⟨x, rfl⟩ := exists_civilDay n
  rw [x.dateOfDays_days]
  exact x.daysOfDate_eq

theorem isDate_dateOfDays (n : Int) : 1 ≤ (dateOfDays n).2.1 ∧ (dateOfDays n).2.1 ≤ 12 ∧ 1 ≤ (dateOfDays n).2.2 ∧
    (dateOfDays n).2.2 ≤ daysInMonth (dateOfDays n).1 (dateOfDays n).2.1 := by
  obtain ⟨x, rfl⟩ := exists_civilDay n
  rw [x.dateOfDays_days]
  exact x.isDate

end Confine.Time
