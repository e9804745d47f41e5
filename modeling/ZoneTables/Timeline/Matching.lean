import ZoneTables.Log
import ZoneTables.Timeline.Basic

/-!
# Comparing timelines

`matchesExactly` compares two lists transition by transition. `closelyMatches` compares a list with
one from another source, which may hold transitions that the first lacks and the other way round:
a transition with no counterpart within `alignmentWindow` is passed over.
-/

namespace ZoneTables

/-- About three months. -/
def alignmentWindow : Int := 90 * secondsPerDay

def Transition.renderTime (t : Transition) : String :=
  if t.time = beginningOfTime then "(beginning of time)"
  else (localTime t.time t.utcOffset).render

def Transition.describe (t : Transition) : String :=
  s!"{t.time}, {t.utcOffset}, {t.dstOffset}, {label t.name}: {t.renderTime}"

/-- The messages about two transitions that differ, each with the numbers in it that may be long. -/
def mismatchLines (zone : Option String) (index : Nat) (t u : Transition) :
    List (Message × List Int) :=
  [(.error s!"{label zone}: mismatch at index {index}", []),
    (.error s!"  1: {t.describe}", [t.time, t.utcOffset, t.dstOffset]),
    (.error s!"  2: {u.describe}", [u.time, u.utcOffset, u.dstOffset]),
    (.error s!"  -: {u.time - t.time}", [u.time - t.time])]

/-- The verdict that two transitions differ. The messages about it break off before a number that is
too long to be written. -/
def reportMismatch (zone : Option String) (index : Nat) (t u : Transition) :
    Log × Except Text.Numeral.Error Bool :=
  let lines := mismatchLines zone index t u
  let isWritable (line : Message × List Int) := line.2.all Text.Numeral.isWritable
  ((lines.takeWhile isWritable).map (·.1),
    if lines.all isWritable then .ok false else .error .unwritable)

/-! ## Exact comparison -/

/-- Both have the same time and offsets and, if names count, the same name. -/
def Transition.equals (names : Bool) (t u : Transition) : Bool :=
  t.time == u.time && t.utcOffset == u.utcOffset && t.dstOffset == u.dstOffset &&
    (!names || t.name == u.name)

/-- Two lists have the same length and equal transitions at every index. -/
def matchesExactly (zone : Option String) (names : Bool) (ts us : List Transition) :
    Log × Except Text.Numeral.Error Bool :=
  if ts.length ≠ us.length then
    ([.error s!"{label zone}: length {ts.length} != {us.length}"], .ok false)
  else
    match ((ts.zip us).zipIdx).find? fun ((t, u), _) => !t.equals names u with
    | none => ([], .ok true)
    | some ((t, u), index) => reportMismatch zone index t u

/-! ## Comparison with another source -/

/-- What is compared, and how closely. -/
structure Closeness where
  /-- By how many seconds times and offsets may differ. -/
  tolerance : Int
  /-- Names are compared. -/
  names : Bool
  /-- The amount of daylight saving is compared, and not only whether there is any. -/
  dstAmount : Bool
  /-- Transitions that change nothing but the name are left out first. -/
  ignoreRenaming : Bool
deriving DecidableEq

namespace Closeness

/-- For a source that knows the amounts of daylight saving and no names. -/
def host (tolerance : Int) : Closeness := ⟨tolerance, false, true, true⟩

/-- For a source that knows names, and of daylight saving only whether there is any. -/
def zoneinfo (tolerance : Int) : Closeness := ⟨tolerance, true, false, false⟩

/-- Two transitions agree in what is compared. -/
def accepts (c : Closeness) (t u : Transition) : Bool :=
  (t.time - u.time).natAbs ≤ c.tolerance && (t.utcOffset - u.utcOffset).natAbs ≤ c.tolerance &&
    (t.dstOffset == 0) == (u.dstOffset == 0) && (!c.dstAmount || t.dstOffset == u.dstOffset) &&
    (!c.names || t.name == u.name)

end Closeness

/-- The transitions after `prev` that change an offset. -/
def dropRenamings (prev : Transition) : List Transition → List Transition
  | [] => []
  | t :: ts =>
    if t.utcOffset == prev.utcOffset && t.dstOffset == prev.dstOffset then dropRenamings prev ts
    else t :: dropRenamings t ts

/-- Transitions without those that change nothing but the name. -/
def removeRenamings : List Transition → List Transition
  | [] => []
  | t :: ts => t :: dropRenamings t ts

/-- The first pair of transitions that should agree and do not, with the index of the first of them,
where `index` is that of the head of the first list. -/
def firstMismatch (c : Closeness) (index : Nat) :
    List Transition → List Transition → Option (Nat × Transition × Transition)
  | t :: ts, u :: us =>
    if t.time + alignmentWindow < u.time then firstMismatch c (index + 1) ts (u :: us)
    else if u.time + alignmentWindow < t.time then firstMismatch c index (t :: ts) us
    else if c.accepts t u then firstMismatch c (index + 1) ts us
    else some (index, t, u)
  | _, _ => none
termination_by ts us => ts.length + us.length

/-- The first pair of transitions of two lists that should agree and do not. The first transition of
each list is not compared. -/
def Closeness.mismatch? (c : Closeness) (ts us : List Transition) :
    Option (Nat × Transition × Transition) :=
  let prepare := if c.ignoreRenaming then removeRenamings else id
  firstMismatch c 1 ((prepare ts).drop 1) ((prepare us).drop 1)

/-- Two lists agree wherever they can be aligned. -/
def closelyMatches (zone : Option String) (c : Closeness) (ts us : List Transition) :
    Log × Except Text.Numeral.Error Bool :=
  match c.mismatch? ts us with
  | none => ([], .ok true)
  | some (index, t, u) => reportMismatch zone index t u

end ZoneTables
