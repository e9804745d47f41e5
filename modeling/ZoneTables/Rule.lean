import ZoneTables.Calendar.DaySpec

/-!
# Rules

A rule says on which day and at what time of each of a range of years daylight saving starts or
ends, by how much clocks are then ahead of standard time, and which letters the abbreviation takes.
-/

namespace ZoneTables

/-- The clock on which a time of day is read. -/
inductive Clock where
  /-- Local time, daylight saving included. -/
  | wall
  /-- Local standard time. -/
  | standard
  /-- UTC. -/
  | universal
deriving DecidableEq

namespace Clock

/-- The number that stands for a clock in a compact table. -/
def code : Clock → Int
  | wall => 0
  | standard => 1
  | universal => 2

/-- The letters that may follow a time of day. -/
def suffixes : List (Char × Clock) :=
  [('w', wall), ('s', standard), ('u', universal), ('g', universal), ('z', universal)]

/-- The clock of a suffix. Without one a time is on the wall clock. -/
def ofSuffix (suffix : Option Char) : Clock :=
  (suffix.bind fun c => suffixes.lookup c).getD wall

end Clock

structure Rule where
  name : String
  fromYear : Int
  toYear : Int
  month : Int
  on : DaySpec
  /-- The time of day in seconds; it may exceed 24 hours. -/
  time : Int
  clock : Clock
  /-- What clocks are ahead of standard time once the rule has fired. -/
  save : Int
  letters : String
  /-- The line that the rule was read from. -/
  text : String
deriving DecidableEq

namespace Rule

/-- The first year of a rule that is said to hold from the earliest years on. -/
def earliestYear : Int := -0x80000000

/-- The last year of a rule that is said to hold for ever. -/
def latestYear : Int := 0x7FFFFFFF

def isOpenEnded (r : Rule) : Bool := r.toYear == latestYear

end Rule
end ZoneTables
