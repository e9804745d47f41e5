import ZoneTables.Calendar.OffsetNotation
import ZoneTables.Timeline.Rollback

/-!
# Listings

The long form of a timeline: a heading, and a line for each transition with the local time just
before and at it. A zone that never changes has one line with its offset.
-/

namespace ZoneTables

def renderOffset (offset : Int) : String := String.ofList (OffsetNotation.write offset)

namespace Transition

/-- The name after a space, if there is one. -/
def nameSuffix (t : Transition) : String :=
  match t.name with
  | some name => " " ++ name
  | none => ""

def renderOffsets (t : Transition) : String :=
  s!"{renderOffset t.utcOffset} {renderOffset t.dstOffset}"

/-- The line of the first transition, which has no local time before it. -/
def firstLine (t : Transition) : String :=
  s!"____-__-__ __:__:__ ±____ ±____ --> ____-__-__ __:__:__ {t.renderOffsets}{t.nameSuffix}"

/-- The line of a transition; a star marks daylight saving. -/
def line (prev t : Transition) : String :=
  s!"{(localTime (t.time - 1) prev.utcOffset).render} {prev.renderOffsets} --> " ++
    s!"{(localTime t.time t.utcOffset).render} {t.renderOffsets}{t.nameSuffix}" ++
    (if t.dstOffset = 0 then "" else "*")

end Transition

/-- The lines of a listing after its heading. -/
def listingLines : List Transition → List String
  | [] => ["(empty)"]
  | [t] => [s!"Fixed UTC offset at {renderOffset t.utcOffset}{t.nameSuffix}"]
  | t :: ts => t.firstLine :: (steps (t :: ts)).map fun (prev, t) => prev.line t

/-- The listing of a timeline. -/
def Timeline.listing (t : Timeline) : String :=
  String.join <|
    (s!"-------- {label t.zone} --------" :: listingLines t.transitions).map (· ++ "\n")

end ZoneTables
