import ZoneTables.Text.Numeral
import ZoneTables.Timeline.Basic

/-!
# Beyond the end of a timeline

The offsets in effect after the last transition, and the two rules that go on for ever if the zone
still observes daylight saving. They are found by looking at the transitions from the last one
back, as long as they come from one set of rules.
-/

namespace ZoneTables

/-- What holds beyond the end of a timeline. -/
structure Nominal where
  stdOffset : Int
  dstOffset : Int
  stdRule : Option Rule
  dstRule : Option Rule
deriving DecidableEq

namespace Nominal

/-- What has been found so far on the way back. -/
structure Search where
  stdOffset : Option Int
  dstOffset : Option Int
  stdRule : Option Rule
  dstRule : Option Rule
  /-- The name of the rules that the transitions come from. -/
  ruleSet : Option String

namespace Search

def isDone (s : Search) : Bool :=
  s.stdOffset.isSome && s.stdRule.isSome && s.dstOffset.isSome

/-- A transition that no rule gave rise to tells what has not been found yet. -/
def finish (s : Search) (t : Transition) : Search :=
  { s with
    stdOffset := s.stdOffset.or (some (t.utcOffset - t.dstOffset))
    dstOffset := s.dstOffset.or (some t.dstOffset) }

/-- A transition of the rule `r` tells the standard offset, and if the rule is open-ended, how
standard time or daylight saving goes on. -/
def visit (s : Search) (t : Transition) (r : Rule) : Search where
  stdOffset := s.stdOffset.or (some (t.utcOffset - t.dstOffset))
  stdRule := if s.stdRule.isNone ∧ t.dstOffset = 0 ∧ r.isOpenEnded then some r else s.stdRule
  dstOffset :=
    if s.dstOffset.isNone ∧ t.dstOffset ≠ 0 ∧ r.isOpenEnded then some t.dstOffset
    else s.dstOffset
  dstRule :=
    if s.dstOffset.isNone ∧ t.dstOffset ≠ 0 ∧ r.isOpenEnded then some r else s.dstRule
  ruleSet := s.ruleSet.or (some r.name)

/-- The search through transitions, the last one first. -/
def run (s : Search) : List Transition → Search
  | [] => s
  | t :: ts =>
    if s.isDone then s
    else
      match t.rule with
      | none => s.finish t
      | some r => if s.ruleSet.all (· == r.name) then run (s.visit t r) ts else s

/-- The start of a search. A last line with no daylight saving at all tells both offsets. -/
def start (lastLine : Option ZoneLine) : Search :=
  match lastLine with
  | some line =>
    if line.saving = .fixed 0 then ⟨some line.stdoff, some 0, none, none, none⟩
    else ⟨none, none, none, none, none⟩
  | none => ⟨none, none, none, none, none⟩

end Search

/-- What holds beyond the end of a timeline. -/
def ofTimeline (t : Timeline) : Nominal :=
  match t.nominal with
  | some (std, dst) => ⟨std, dst, none, none⟩
  | none =>
    let s := (Search.start t.lastLine).run t.transitions.reverse
    ⟨s.stdOffset.getD 0, s.dstOffset.getD 0, s.stdRule, s.dstRule⟩

/-- The rules of standard time and daylight saving, if both are known. -/
def rules? (n : Nominal) : Option (Rule × Rule) :=
  match n.stdRule, n.dstRule with
  | some std, some dst => some (std, dst)
  | _, _ => none

end Nominal

/-! ## The tail of a table -/

/-- The time of day, on the wall clock, at which a rule turns clocks back, where `ahead` is what
clocks are ahead of standard time until then. -/
def Rule.turnbackTime (r : Rule) (stdOffset ahead : Int) : Int :=
  match r.clock with
  | .universal => r.time + (stdOffset + ahead)
  | .standard => r.time + ahead
  | .wall => r.time

/-- A rule that turns clocks back by `amount` from just after midnight, moved to midnight. -/
def Rule.atMidnight (r : Rule) (stdOffset ahead amount : Int) : Rule :=
  let turnback := r.turnbackTime stdOffset ahead
  if 0 < turnback ∧ turnback - amount < 0 then { r with time := r.time - turnback } else r

/-- The rules of standard time and daylight saving with the one that turns clocks back moved to
midnight if the date goes back at it. With negative daylight saving it is the second. -/
def shiftFallBack (stdOffset : Int) (std dst : Rule) : Rule × Rule :=
  if dst.save < 0 then (std, dst.atMidnight stdOffset std.save (-dst.save))
  else (std.atMidnight stdOffset dst.save dst.save, dst)

/-- A rule in the tail of a table: the first year, the month, the two columns of the day with -1
for the weekday of an exact day, the time in hours and minutes, the clock, and the minutes saved. -/
def Rule.tail (r : Rule) : List Char :=
  let (weekday, day) := r.on.columns
  let minutes := r.time / 60
  Text.join [' '] [
    Text.integer r.fromYear, Text.integer r.month, Text.integer day,
    Text.integer (if weekday = 0 then -1 else weekday),
    Text.integer (minutes / 60) ++ ':' :: Text.integer (minutes % 60),
    Text.integer r.clock.code, Text.integer (r.save / 60)]

/-- No number in a rule's tail is too long to be written. -/
def Rule.hasWritableTail (r : Rule) : Bool :=
  [r.fromYear, r.month, r.on.columns.2, r.on.columns.1, r.time / 60 / 60, r.save / 60].all
    Text.Numeral.isWritable

end ZoneTables
