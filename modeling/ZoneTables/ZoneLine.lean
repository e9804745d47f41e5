import ZoneTables.Rule

/-!
# Zone lines

A zone is a sequence of lines. Each gives the standard offset of the zone, how daylight saving is
observed and how abbreviations are made, up to an instant at which the next line takes over.
-/

namespace ZoneTables

/-- The instant of the first transition of every timeline, before all others. It is the least
integer that a binary64 number tells apart from both its neighbours. -/
def beginningOfTime : Int := -0x1FFFFFFFFFFFFF

/-- The instant at which the last line of a zone ends. -/
def endOfTime : Int := 0x1FFFFFFFFFFFFF

/-- How a zone line observes daylight saving. -/
inductive Saving where
  /-- By the same amount all the time. -/
  | fixed (amount : Int)
  /-- As the rules of this name say. -/
  | ruled (name : String)
deriving DecidableEq

structure ZoneLine where
  /-- The standard offset from UTC. -/
  stdoff : Int
  saving : Saving
  /-- The pattern of the abbreviations. -/
  format : String
  /-- The instant at which the line ends, or `endOfTime`. Daylight saving is not yet taken off an
  end that is given on the wall clock. -/
  ending : Int
  endingClock : Clock
  /-- The line of text that this was read from. -/
  text : String
deriving DecidableEq

/-- A line that no other follows. -/
def ZoneLine.isLast (l : ZoneLine) : Bool := l.ending == endOfTime

end ZoneTables
