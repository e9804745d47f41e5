/-!
# Dates

The proleptic Gregorian calendar, with any integer as a year. Days are numbered from 1970-01-01,
day zero, and weekdays run from Sunday, 1, to Saturday, 7.

`Date.dayNumber` counts from March, so that a leap day ends its year: a year of 400 has 146097 days,
and the months from March on have 153 days in every five.
-/

namespace ZoneTables

structure Date where
  year : Int
  month : Int
  day : Int
deriving DecidableEq

def isLeapYear (year : Int) : Bool :=
  year % 4 == 0 && (year % 100 != 0 || year % 400 == 0)

/-- The days of the months from January on. -/
def monthLengths : List Int := [31, 28, 31, 30, 31, 30, 31, 31, 30, 31, 30, 31]

/-- The length of a month. Month 0 is December and month 13 January. -/
def daysInMonth (year month : Int) : Int :=
  let days := monthLengths.getD ((month - 1) % 12).toNat 0
  if month = 2 ∧ isLeapYear year then days + 1 else days

namespace Date

/-- Dates in the order of year, month and day. -/
def before (a b : Date) : Bool :=
  a.year < b.year ||
    (a.year == b.year && (a.month < b.month || (a.month == b.month && a.day < b.day)))

/-- Days from 0000-03-01 to 1970-01-01. -/
def epochShift : Int := 719468

def daysPer400Years : Int := 146097

/-- The number of a date. Months beyond the year count into the years around it, and days beyond
the month into the months around it. -/
def dayNumber (d : Date) : Int :=
  let year := d.year + (d.month - 1) / 12
  let month := (d.month - 1) % 12 + 1
  let y := if month ≤ 2 then year - 1 else year
  let era := y / 400
  let yearOfEra := y - era * 400
  let shiftedMonth := (month + 9) % 12
  let dayOfYear := (153 * shiftedMonth + 2) / 5 + d.day - 1
  let dayOfEra := yearOfEra * 365 + yearOfEra / 4 - yearOfEra / 100 + dayOfYear
  era * daysPer400Years + dayOfEra - epochShift

/-- The date of a day. -/
def ofDayNumber (n : Int) : Date :=
  let z := n + epochShift
  let era := z / daysPer400Years
  let dayOfEra := z - era * daysPer400Years
  let yearOfEra := (dayOfEra - dayOfEra / 1460 + dayOfEra / 36524 - dayOfEra / 146096) / 365
  let dayOfYear := dayOfEra - (365 * yearOfEra + yearOfEra / 4 - yearOfEra / 100)
  let shiftedMonth := (5 * dayOfYear + 2) / 153
  let day := dayOfYear - (153 * shiftedMonth + 2) / 5 + 1
  let month := if shiftedMonth < 10 then shiftedMonth + 3 else shiftedMonth - 9
  ⟨yearOfEra + era * 400 + (if month ≤ 2 then 1 else 0), month, day⟩

end Date

/-- The weekday of a day. -/
def weekday (dayNumber : Int) : Int :=
  (dayNumber + 4) % 7 + 1

end ZoneTables
