import ZoneTables.Calendar.Date

/-!
# Day specifications

A rule names its day by number (`8`), by a weekday on or after or on or before a number
(`Sun>=8`, `Fri<=7`), or as the last weekday of the month (`lastSun`). `DaySpec.resolve` finds the
date in a given month; a weekday sought near an end of the month may lie in the month beside it.
-/

namespace ZoneTables

/-- The day of a month of the first `target` weekday on or after `day`, which may be beyond the
month. -/
def dayOnOrAfter (year month target day : Int) : Int :=
  day + (target - weekday (Date.dayNumber ⟨year, month, day⟩)) % 7

/-- The day of a month of the last `target` weekday on or before `day`; it may be below one. -/
def dayOnOrBefore (year month target day : Int) : Int :=
  day - (weekday (Date.dayNumber ⟨year, month, day⟩) - target) % 7

/-- The day of the last `target` weekday of a month. -/
def lastDay (year month target : Int) : Int :=
  dayOnOrBefore year month target (daysInMonth year month)

inductive DaySpec where
  | exact (day : Int)
  | onOrAfter (weekday day : Int)
  | onOrBefore (weekday day : Int)
  | last (weekday : Int)
deriving DecidableEq

namespace DaySpec

/-- The two columns that write a day specification: a weekday, zero for an exact day, and a day,
which is negative for `onOrBefore` and zero for `last`. -/
def columns : DaySpec → Int × Int
  | exact day => (0, day)
  | onOrAfter weekday day => (weekday, day)
  | onOrBefore weekday day => (weekday, -day)
  | last weekday => (weekday, 0)

/-- The day specification that two columns write. -/
def ofColumns (weekday day : Int) : DaySpec :=
  if weekday = 0 then exact day
  else if 0 < day then onOrAfter weekday day
  else if day < 0 then onOrBefore weekday (-day)
  else last weekday

/-- The day of the month that is meant, which may be beyond the month's ends. -/
def day (year month : Int) : DaySpec → Int
  | exact d => d
  | onOrAfter w d => dayOnOrAfter year month w d
  | onOrBefore w d => dayOnOrBefore year month w d
  | last w => lastDay year month w

/-- The date that a day specification means in a month. -/
def resolve (spec : DaySpec) (year month : Int) : Date :=
  let date : Date := ⟨year, month, spec.day year month⟩
  if 1 ≤ date.day ∧ date.day ≤ daysInMonth year month then date
  else Date.ofDayNumber date.dayNumber

end DaySpec
end ZoneTables
