import ZoneTables.Log
import ZoneTables.Timeline.Basic

/-!
# Calendar rollbacks

Clocks turned back from just after midnight show the day before once more. Such a transition is
mended by moving it to the midnight before it, so that clocks go back from midnight.
-/

namespace ZoneTables

/-- What became of the rollbacks of a timeline. -/
inductive Rollbacks where
  | none
  | found
  | fixed
  | remain
deriving DecidableEq

namespace Transition

/-- The local date goes back at the transition. -/
def rollsBack (t prev : Transition) : Bool :=
  (localDate t.time t.utcOffset).before (localDate (t.time - 1) prev.utcOffset)

/-- The seconds by which a transition comes after the midnight before it, on the clock before. -/
def foray (t prev : Transition) : Int :=
  secondsOfDay t.time prev.utcOffset

/-- The transition, at the midnight before it if the date goes back. -/
def withoutRollback (prev t : Transition) : Transition :=
  if t.rollsBack prev then { t with time := t.time - t.foray prev } else t

def rollbackWarning (zone : Option String) (t prev : Transition) : String :=
  s!"{label zone}: {(localTime (t.time - 1) prev.utcOffset).render} rolls back to " ++
    s!"{(localTime t.time t.utcOffset).render} ({t.foray prev} second foray into next day)"

/-- No year in the warning about a rollback is too long to be written. -/
def hasWritableWarning (t prev : Transition) : Bool :=
  Text.Numeral.isWritable (localYear (t.time - 1) prev.utcOffset) &&
    Text.Numeral.isWritable (localYear t.time t.utcOffset)

end Transition

/-- Every transition with the one before it. -/
def steps (ts : List Transition) : List (Transition × Transition) :=
  ts.zip (ts.drop 1)

def hasRollbacks (ts : List Transition) : Bool :=
  (steps ts).any fun (prev, t) => t.rollsBack prev

/-- The transitions with each rollback moved to midnight. -/
def fixRollbacks : List Transition → List Transition
  | [] => []
  | t :: ts => t :: List.zipWith Transition.withoutRollback (t :: ts) ts

/-- The first transition of a list at which the date goes back, after the one before it. -/
def firstRollback? (ts : List Transition) : Option (Transition × Transition) :=
  (steps ts).find? fun (prev, t) => t.rollsBack prev

/-- The transitions after a search for rollbacks, which mends them if `fix` says so. Of the warnings
only the first is given, and that only if `warn` says so. -/
def findRollbacks (zone : Option String) (fix warn : Bool) (ts : List Transition) :
    Except Text.Numeral.Error (Rollbacks × List Transition × Log) :=
  match firstRollback? ts with
  | none => .ok (.none, ts, [])
  | some (prev, t) =>
    let warning := t.rollbackWarning zone prev
    if warn && !t.hasWritableWarning prev then .error .unwritable
    else if !fix then .ok (.found, ts, if warn then [.warning warning] else [])
    else
      let mended := fixRollbacks ts
      if hasRollbacks mended then
        .ok (.remain, mended,
          [if warn then .warning (warning ++ ": NOT FIXED")
            else .error s!"Failed to fix calendar rollbacks in {label zone}"])
      else .ok (.fixed, mended, if warn then [.warning (warning ++ ": fixed")] else [])

end ZoneTables
