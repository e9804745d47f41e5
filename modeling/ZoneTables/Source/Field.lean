import ZoneTables.Calendar.LocalTime
import ZoneTables.Rounding
import ZoneTables.ZoneLine

/-!
# Fields of a source line

Readers of the fields of rule and zone lines: months, days, times of day, years, and the end of a
zone line.
-/

namespace ZoneTables.Source

open Text

/-- Why a field cannot be read. -/
inductive FieldError where
  | month (text : List Char)
  | weekday (text : List Char)
  /-- The text has not the form of a day. -/
  | day (text : List Char)
  /-- The day of the month is not between 1 and 31. -/
  | dayOfMonth (text : List Char)
  | year (text : List Char)
  | emptyTime
  /-- The last character is neither a digit nor the letter of a clock. -/
  | timeSuffix (last : Char) (text : List Char)
  | time (text : List Char)
  /-- A zone line's end has too many fields. -/
  | ending (fields : List (List Char))
  /-- A number has digits that are not decimal, or too many of them. -/
  | numeral (error : Numeral.Error)
deriving DecidableEq

namespace FieldError

def quote (text : List Char) : String := "\"" ++ String.ofList text ++ "\""

def message : FieldError → String
  | month text => s!"Invalid month {quote text}"
  | weekday text => s!"Invalid day of week {quote text}"
  | day text => s!"Invalid day {quote text}"
  | dayOfMonth text => s!"Invalid day of month {quote text}"
  | year text => s!"Invalid year {quote text}"
  | emptyTime => "Empty time string"
  | timeSuffix last text => s!"Invalid time suffix {quote [last]} in {quote text}"
  | time text => s!"Invalid time {quote text}"
  | ending fields => "Invalid UNTIL: " ++ String.ofList (join [' '] fields)
  | numeral error => error.message

end FieldError

/-! ## Months and days -/

def monthNames : List (List Char) :=
  ["january".toList, "february".toList, "march".toList, "april".toList, "may".toList,
    "june".toList, "july".toList, "august".toList, "september".toList, "october".toList,
    "november".toList, "december".toList]

/-- A text with its ASCII capitals in lower case. No other character becomes an ASCII letter that a
month, a weekday or a year word has. -/
def lower (text : List Char) : List Char := text.map Char.toLower

/-- The number of a month, from any three or more of its first letters in either case. -/
def readMonth (text : List Char) : Except FieldError Int :=
  let name := lower text
  match if name.length < 3 then none else monthNames.findIdx? name.isPrefixOf with
  | some i => .ok (i + 1)
  | none => .error (.month text)

def weekdayNames : List (List Char) :=
  [['S', 'u', 'n'], ['M', 'o', 'n'], ['T', 'u', 'e'], ['W', 'e', 'd'], ['T', 'h', 'u'],
    ['F', 'r', 'i'], ['S', 'a', 't']]

/-- The capital of a letter that may start a weekday. The capital of the long s is an S as well. -/
def capital (c : Char) : Char :=
  if c = 'ſ' then 'S' else c.toUpper

/-- The number of a weekday, from its first three letters in either case. What follows them is not
looked at. -/
def readWeekday (text : List Char) : Except FieldError Int :=
  let name :=
    match text with
    | a :: b :: c :: _ => [capital a, b.toLower, c.toLower]
    | _ => []
  match weekdayNames.findIdx? (· == name) with
  | some i => .ok (i + 1)
  | none => .error (.weekday text)

/-- The day of a month. -/
def readDayOfMonth (text digits : List Char) : Except FieldError Int := do
  let day ← (Numeral.read digits).mapError .numeral
  if 1 ≤ day ∧ day ≤ 31 then .ok day else .error (.dayOfMonth text)

/-- A weekday and a day of the month at either side of a comparison. -/
def readComparison (text before after : List Char) : Except FieldError (Int × Int) := do
  let weekday ← readWeekday before
  if !isDigits after then .error (.day text)
  let day ← readDayOfMonth text after
  return (weekday, day)

/-- The two sides of a comparison that does not start the text. -/
def sides? (sign : String) (text : List Char) : Option (List Char × List Char) :=
  (around? sign.toList text).filter (!·.1.isEmpty)

/-- A day specification. A text with both comparisons is read by `>=`. -/
def readDay (text : List Char) : Except FieldError DaySpec :=
  if isDigits text then (readDayOfMonth text text).map .exact
  else if text.take 4 = "last".toList then (readWeekday (text.drop 4)).map .last
  else
    match sides? ">=" text, sides? "<=" text with
    | some (before, after), _ =>
      (readComparison text before after).map fun (weekday, day) => .onOrAfter weekday day
    | none, some (before, after) =>
      (readComparison text before after).map fun (weekday, day) => .onOrBefore weekday day
    | none, none => .error (.day text)

/-! ## Times and years -/

/-- The time of day that this many seconds would be is not read: it stands for a time that cannot
be read. -/
def unreadableTime : Int := 999999

/-- Hours, minutes and seconds without a sign before them. Each is bounded above only. -/
def readClockFace? (text : List Char) : Option Int := do
  let fields := cut (· == ':') text
  if 3 < fields.length then none
  let numbers ← fields.mapM fun f => (Numeral.read f).toOption
  let hour := numbers.getD 0 0
  let minute := numbers.getD 1 0
  let second := numbers.getD 2 0
  if 25 < hour ∨ 59 < minute ∨ 59 < second then none
  return (hour * 60 + minute) * 60 + second

/-- The seconds of a time `[-]h[:m[:s]]`. -/
def readSeconds? (text : List Char) : Option Int :=
  let seconds :=
    match text with
    | [] => none
    | '-' :: r => (readClockFace? r).map (-·)
    | '+' :: r => readClockFace? r
    | r => readClockFace? r
  seconds.filter (· != unreadableTime)

/-- The seconds of a time field. -/
def readTime (text : List Char) : Except FieldError Int :=
  match readSeconds? text with
  | some seconds => .ok seconds
  | none => .error (.time text)

/-- A time and the letter of its clock, if it has one. -/
def splitSuffix (text : List Char) : Except FieldError (List Char × Option Char) :=
  match text.getLast? with
  | none => .error .emptyTime
  | some last =>
    if isDigit last then .ok (text, none)
    else if (Clock.suffixes.lookup last).isSome then .ok (text.dropLast, some last)
    else .error (.timeSuffix last text)

def readYear (text : List Char) : Except FieldError Int :=
  match Numeral.read text with
  | .ok year => .ok year
  | .error _ => .error (.year text)

/-- Seconds, rounded to minutes if that is asked for. -/
def roundIf (toMinutes : Bool) (seconds : Int) : Int :=
  if toMinutes then roundToMinute seconds else seconds

/-! ## The end of a zone line -/

/-- The instant at which a zone line ends, and the clock on which its time is read, from a year
and, as far as given, a month, a day and a time. A time on the wall clock is taken as standard
time. -/
def readEnding (stdoff : Int) (toMinutes : Bool) (year : List Char) (rest : List (List Char)) :
    Except FieldError (Int × Clock) := do
  if 3 < rest.length then .error (.ending (year :: rest))
  let y ← readYear year
  let month ← match rest[0]? with
    | some text => readMonth text
    | none => pure 1
  let date ← match rest[1]? with
    | some text => (readDay text).map (·.resolve y month)
    | none => pure ⟨y, month, 1⟩
  let (seconds, clock) ← match rest[2]? with
    | some text => do
      let (time, suffix) ← splitSuffix text
      let seconds ← readTime time
      pure (roundIf toMinutes seconds, Clock.ofSuffix suffix)
    | none => pure (0, .wall)
  let instant := date.seconds seconds
  return (if clock = .universal then instant else instant - stdoff, clock)

end ZoneTables.Source
