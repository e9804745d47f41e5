import ZoneTables.Calendar.DaySpec
import ZoneTables.Calendar.LocalTime
import ZoneTables.Rounding

/-!
# Footers of compiled zone files

The last line of a compiled zone file is a time zone rule: the name and offset of standard time, and
if there is daylight saving, its name, its offset and the days of the year on which it starts and
ends, as in `CET-1CEST,M3.5.0,M10.5.0/3`.

A name may be any text without ASCII digits, colons, points and signs, so that a text of names and
offsets can have several readings. The readers of its parts return all of them, the preferred one
first, each with the rest of the text.
-/

namespace ZoneTables.Tzif

open Text

/-- A day of the year. -/
inductive YearDay where
  /-- A weekday, zero being Sunday, of a week of a month. Week 5 is the last with that weekday. -/
  | weekday (month week day : Nat)
  /-- A day from 1 to 365. In a leap year it is a day later from day 59 on. -/
  | withoutLeapDay (day : Nat)
  /-- A day from 0 to 365, day 0 being the last of the year before. -/
  | withLeapDay (day : Nat)
deriving DecidableEq

/-- The number of the day in a year. -/
def YearDay.dayNumber (year : Int) : YearDay → Int
  | weekday month week day =>
    if week = 5 then Date.dayNumber ⟨year, month, lastDay year month (day + 1)⟩
    else Date.dayNumber ⟨year, month, dayOnOrAfter year month (day + 1) (7 * week - 6)⟩
  | withoutLeapDay day =>
    Date.dayNumber ⟨year, 1, 0⟩ + day + if 59 ≤ day ∧ isLeapYear year then 1 else 0
  | withLeapDay day => Date.dayNumber ⟨year, 1, 0⟩ + day

/-- A day of the year and a time of day, which may lie outside the day. -/
structure Switch where
  day : YearDay
  time : Int
deriving DecidableEq

/-- The seconds from the epoch to a switch in a year, as the local clock shows it. -/
def Switch.clockTime (s : Switch) (year : Int) : Int :=
  s.day.dayNumber year * secondsPerDay + s.time

/-- Standard time and daylight saving by turns. -/
structure Seasons where
  stdOffset : Int
  dstOffset : Int
  /-- The start of daylight saving. -/
  start : Switch
  /-- The end of daylight saving. -/
  ending : Switch
deriving DecidableEq

inductive Footer where
  /-- The same offset all the time. -/
  | fixed (offset : Int)
  | seasons (seasons : Seasons)
deriving DecidableEq

namespace Footer

/-- Why a text is no time zone rule. -/
inductive Error where
  /-- The text does not start with names and offsets. -/
  | form (text : List Char)
  /-- The offset of standard time is a day or more. -/
  | standardOffset (text : List Char)
  /-- The offset of daylight saving is a day or more. -/
  | daylightOffset (text : List Char)
  | missingSwitches (text : List Char)
  | needlessSwitches (text : List Char)
  | switches (text : List Char)
  /-- Nothing stands where a day should. -/
  | emptyDay
deriving DecidableEq

def Error.message : Error → String
  | form text => s!"{String.ofList text} is not a valid TZ string"
  | standardOffset text => s!"Invalid STD offset in {String.ofList text}"
  | daylightOffset text => s!"Invalid DST offset in {String.ofList text}"
  | missingSwitches text => s!"Missing transition rules: {String.ofList text}"
  | needlessSwitches text => s!"Transition rule present without DST: {String.ofList text}"
  | switches text => s!"Invalid TZ string: {String.ofList text}"
  | emptyDay => "day expected"

/-! ## Names and offsets -/

def isNameCharacter (c : Char) : Bool := !(c.isDigit || [':', '.', '+', '-'].contains c)

/-- What follows one or more characters of the class `p`. -/
def afterRun (p : Char → Bool) (text : List Char) : List (List Char) :=
  (List.range (text.takeWhile p).length).reverse.map fun n => text.drop (n + 1)

/-- What follows letters, digits and signs in angle brackets. -/
def afterBrackets (text : List Char) : List (List Char) :=
  match text with
  | '<' :: c :: r =>
    match (c :: r).dropWhile fun c => c.isAlphanum || c == '+' || c == '-' with
    | '>' :: rest => if c == '>' then [] else [rest]
    | _ => []
  | _ => []

/-- What follows the name of standard time, which has an angle bracket only at its start. -/
def afterStandardName (text : List Char) : List (List Char) :=
  afterRun (fun c => isNameCharacter c && c != '<') text ++ afterBrackets text

/-- What follows the name of daylight saving. -/
def afterDaylightName (text : List Char) : List (List Char) :=
  afterRun isNameCharacter text ++ afterBrackets text

/-- One or two digits. -/
def readHours : List Char → List (Nat × List Char)
  | [] => []
  | a :: r =>
    match digitValue? a, r.head?.bind digitValue? with
    | none, _ => []
    | some x, none => [(x, r)]
    | some x, some y => [(x * 10 + y, r.drop 1), (x, r)]

/-- Two digits after a colon. -/
def readSixtieths : List Char → List (Nat × List Char)
  | ':' :: a :: b :: r =>
    match digitValue? a, digitValue? b with
    | some x, some y => [(x * 10 + y, r)]
    | _, _ => []
  | _ => []

/-- The seconds of `h[:mm[:ss]]`. -/
def readMagnitude (text : List Char) : List (Nat × List Char) :=
  (readHours text).flatMap fun (hours, r) =>
    ((readSixtieths r).flatMap fun (minutes, r) =>
      ((readSixtieths r).map fun (seconds, r) => ((hours * 60 + minutes) * 60 + seconds, r)) ++
        [((hours * 60 + minutes) * 60, r)]) ++
      [(hours * 3600, r)]

/-- An offset. Without a minus sign it is to the west. -/
def readOffset (text : List Char) : List (Int × List Char) :=
  match text with
  | '-' :: r => (readMagnitude r).map fun (n, r) => ((n : Int), r)
  | '+' :: r => (readMagnitude r).map fun (n, r) => (-(n : Int), r)
  | r => (readMagnitude r).map fun (n, r) => (-(n : Int), r)

/-- The offsets that a text of names and offsets gives. -/
structure Given where
  std : Option Int
  hasDaylight : Bool
  dst : Option Int
deriving DecidableEq

/-- What follows the offset of standard time: the name of daylight saving and its offset, or
nothing. -/
def readDaylight (std : Int) (text : List Char) : List (Given × List Char) :=
  ((afterDaylightName text).flatMap fun r =>
    ((readOffset r).map fun (dst, r) => (⟨some std, true, some dst⟩, r)) ++
      [(⟨some std, true, none⟩, r)]) ++
    [(⟨some std, false, none⟩, text)]

/-- Names and offsets. -/
def readGiven (text : List Char) : List (Given × List Char) :=
  (afterStandardName text).flatMap fun r =>
    ((readOffset r).flatMap fun (std, r) => readDaylight std r) ++ [(⟨none, false, none⟩, r)]

/-! ## Switches -/

/-- The number that a text denotes, if it is within bounds. -/
def readBounded? (least greatest : Int) (text : List Char) : Option Nat :=
  match Numeral.read text with
  | .ok n => if least ≤ n ∧ n ≤ greatest then some n.toNat else none
  | .error _ => none

/-- A month of one or two digits, a point, a week, any character, and a weekday. -/
def readMonthDay? (text : List Char) : Option YearDay :=
  let (month, r) := text.span (· != '.')
  match month.length, r with
  | 1, ['.', week, c, day] | 2, ['.', week, c, day] => do
    let digits := month ++ [week, day]
    if c = '\n' ∨ !digits.all fun d => (digitValue? d).isSome then none
    return .weekday (← readBounded? 1 12 month) (← readBounded? 1 5 [week])
      (← readBounded? 0 6 [day])
  | _, _ => none

def readYearDay? : List Char → Option YearDay
  | 'M' :: r => readMonthDay? r
  | 'J' :: r => (readBounded? 1 365 r).map .withoutLeapDay
  | r => (readBounded? 0 365 r).map .withLeapDay

/-- The seconds of up to three numbers between colons, each with its own sign. -/
def readTime? (text : List Char) : Option Int := do
  let fields := cut (· == ':') text
  if 3 < fields.length then none
  let numbers ← fields.mapM fun f => (Numeral.read f).toOption
  return (numbers.getD 0 0 * 60 + numbers.getD 1 0) * 60 + numbers.getD 2 0

/-- A day of the year and, after a slash, a time of day, which is 2:00 unless it is given. -/
def readSwitch (whole text : List Char) : Except Error Switch :=
  let fields := cut (· == '/') text
  let day := fields.headD []
  if day.isEmpty then .error .emptyDay
  else
    match readYearDay? day, (fields[1]?.map readTime?).getD (some 7200) with
    | some day, some time => .ok ⟨day, time⟩
    | _, _ => .error (.switches whole)

/-- Start and end of daylight saving, between them a comma. -/
def readSwitches (whole text : List Char) : Except Error (Switch × Switch) :=
  match cutAtMost (· == ',') 1 text with
  | [first, second] => do return (← readSwitch whole first, ← readSwitch whole second)
  | first :: _ => do
    let _ ← readSwitch whole first
    .error (.switches whole)
  | [] => .error (.switches whole)

/-! ## The whole footer -/

/-- An offset of less than a day. -/
def checkOffset (offset : Int) (e : Error) : Except Error Int :=
  if offset.natAbs < 86400 then .ok offset else .error e

/-- The time zone rule that a text denotes. Offsets that are not given are zero for standard time,
and an hour more than that for daylight saving. -/
def read (text : List Char) : Except Error Footer :=
  let parts := cutAtMost (· == ',') 1 text
  match (readGiven (parts.headD [])).find? (·.2.isEmpty), parts[1]? with
  | none, _ => .error (.form text)
  | some (given, _), switches => do
    let std ← checkOffset (given.std.getD 0) (.standardOffset text)
    if given.hasDaylight then
      let dst ← match given.dst with
        | some dst => checkOffset dst (.daylightOffset text)
        | none => pure (std + 3600)
      match switches with
      | none => .error (.missingSwitches text)
      | some switches =>
        let (start, ending) ← readSwitches text switches
        return .seasons ⟨std, dst, start, ending⟩
    else if switches.isSome then .error (.needlessSwitches text)
    else return .fixed std

end Footer
end ZoneTables.Tzif
