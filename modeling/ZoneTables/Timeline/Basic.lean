import ZoneTables.Calendar.LocalTime
import ZoneTables.ZoneLine

/-!
# Timelines

A timeline lists the transitions of a zone: the instants at which its offset from UTC, the part of
it that is daylight saving, or its abbreviation changes. The first transition is at
`beginningOfTime`.
-/

namespace ZoneTables

structure Transition where
  time : Int
  utcOffset : Int
  dstOffset : Int
  /-- The abbreviation; none for a zone that is known by its offset. -/
  name : Option String
  /-- The rule that gave rise to the transition, if one did. -/
  rule : Option Rule
deriving DecidableEq

namespace Transition

/-- The transition comes at the instant of the one before, or changes nothing. -/
def repeats (t prev : Transition) : Bool :=
  t.time == prev.time ||
    (t.utcOffset == prev.utcOffset && t.dstOffset == prev.dstOffset && t.name == prev.name)

/-- Both have the same time, offsets and name. -/
def agrees (t u : Transition) : Bool :=
  t.time == u.time && t.utcOffset == u.utcOffset && t.dstOffset == u.dstOffset && t.name == u.name

end Transition

structure Timeline where
  zone : Option String
  transitions : List Transition
  /-- The last line of the zone, from which its offsets beyond the list are known. -/
  lastLine : Option ZoneLine
  /-- The zone that this one is a link to. -/
  aliasFor : Option String
  /-- The standard offset and the daylight saving beyond the end of the list, where a source of
  transitions knows them. -/
  nominal : Option (Int × Int)
deriving DecidableEq

/-- The name of a zone in messages and listings. -/
def label (name : Option String) : String := name.getD "None"

/-- A text as an abbreviation. A number with a sign is none, and neither is an empty text. -/
def abbreviation (cs : List Char) : Option String :=
  match cs with
  | [] => none
  | c :: _ => if c = '+' ∨ c = '-' then none else some (String.ofList cs)

/-! ## Duplicates -/

/-- The transitions after `prev` that change something. -/
def dropRepeats (prev : Transition) : List Transition → List Transition
  | [] => []
  | t :: ts => if t.repeats prev then dropRepeats prev ts else t :: dropRepeats t ts

/-- Transitions without those that repeat the last one kept. -/
def removeDuplicates : List Transition → List Transition
  | [] => []
  | t :: ts => t :: dropRepeats t ts

/-! ## Trimming to a range of years -/

/-- The year in which the second after a transition falls on the new local clock. -/
def Transition.yearAfter (t : Transition) : Int := localYear (t.time + 1) t.utcOffset

/-- The year of a transition on the new local clock. -/
def Transition.year (t : Transition) : Int := localYear t.time t.utcOffset

/-- The rest of a list from its latest transition to standard time on that comes before the first
transition of `minYear` or later. -/
def fromLatestStandard? (minYear : Int) : List Transition → Option (List Transition)
  | [] => none
  | t :: ts =>
    if t.time = beginningOfTime then fromLatestStandard? minYear ts
    else if minYear ≤ t.yearAfter then none
    else
      match fromLatestStandard? minYear ts with
      | some rest => some rest
      | none => if t.dstOffset = 0 then some (t :: ts) else none

/-- The list with its latest transition to standard time before `minYear` put at the beginning of
time. -/
def trimStart (minYear : Int) (ts : List Transition) : List Transition :=
  match fromLatestStandard? minYear ts with
  | some (t :: rest) => { t with time := beginningOfTime } :: rest
  | _ => ts

/-- A list, last transition first, without the transitions at its front that are daylight saving
or later than `maxYear`. Those at the beginning of time stay. -/
def trimLatest (maxYear : Int) : List Transition → List Transition
  | [] => []
  | t :: ts =>
    if t.time = beginningOfTime then t :: trimLatest maxYear ts
    else if t.dstOffset ≠ 0 ∨ maxYear < t.year then trimLatest maxYear ts
    else t :: ts

/-- The list without the transitions at its end that are daylight saving or later than `maxYear`. -/
def trimEnding (maxYear : Int) (ts : List Transition) : List Transition :=
  (trimLatest maxYear ts.reverse).reverse

/-- The list within the years from `minYear`, if there is one, to `maxYear`. -/
def trimYears (minYear : Option Int) (maxYear : Int) (ts : List Transition) : List Transition :=
  trimEnding maxYear (match minYear with
    | some year => trimStart year ts
    | none => ts)

namespace Timeline

/-- A timeline of nothing but transitions. -/
def ofTransitions (zone : Option String) (ts : List Transition) : Timeline where
  zone := zone
  transitions := ts
  lastLine := none
  aliasFor := none
  nominal := none

def map (f : List Transition → List Transition) (t : Timeline) : Timeline :=
  { t with transitions := f t.transitions }

end Timeline
end ZoneTables
