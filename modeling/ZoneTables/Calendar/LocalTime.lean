import ZoneTables.Calendar.Date
import ZoneTables.Text.Numeral

/-!
# Instants and local time

An instant is a number of seconds since 1970-01-01 00:00 UTC, without leap seconds. Local time is
the date and the time of day that a clock with a given offset from UTC shows at an instant.
-/

namespace ZoneTables

def secondsPerDay : Int := 86400

/-- The seconds from the epoch to a date and a time of day, which may exceed 24 hours. -/
def Date.seconds (d : Date) (secondsOfDay : Int) : Int :=
  d.dayNumber * secondsPerDay + secondsOfDay

structure LocalTime where
  date : Date
  hour : Int
  minute : Int
  second : Int
deriving DecidableEq

/-- The local time at an instant. -/
def localTime (instant offset : Int) : LocalTime :=
  let seconds := (instant + offset) % secondsPerDay
  let minutes := seconds / 60
  { date := Date.ofDayNumber ((instant + offset) / secondsPerDay)
    hour := minutes / 60
    minute := minutes % 60
    second := seconds % 60 }

/-- The local date at an instant. -/
def localDate (instant offset : Int) : Date :=
  Date.ofDayNumber ((instant + offset) / secondsPerDay)

/-- The local year at an instant. -/
def localYear (instant offset : Int) : Int :=
  (localTime instant offset).date.year

/-- The seconds since the local midnight at an instant. -/
def secondsOfDay (instant offset : Int) : Int :=
  let t := localTime instant offset
  (t.hour * 60 + t.minute) * 60 + t.second

/-- Local time as `YYYY-MM-DD HH:MM:SS`. -/
def LocalTime.render (t : LocalTime) : String :=
  String.ofList <|
    Text.padded 4 t.date.year ++ '-' :: Text.padded 2 t.date.month ++ '-' ::
    Text.padded 2 t.date.day ++ ' ' :: Text.padded 2 t.hour ++ ':' :: Text.padded 2 t.minute ++
    ':' :: Text.padded 2 t.second

end ZoneTables
