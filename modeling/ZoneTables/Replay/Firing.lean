import ZoneTables.Calendar.LocalTime
import ZoneTables.ZoneLine

/-!
# Firings of rules

A rule fires once in each of its years, at the instant at which its clock shows its day and time.
`firings` lists the firings of a set of rules that may fall into a zone line, in the order of their
instants.
-/

namespace ZoneTables

/-- The seconds from the epoch to the day and time of a rule in a year, as its clock shows them. -/
def Rule.clockTime (r : Rule) (year : Int) : Int :=
  (r.on.resolve year r.month).seconds r.time

/-- The instant at which a rule fires, where standard time is `stdoff` ahead of UTC and clocks are
`dst` ahead of standard time. -/
def Rule.instant (r : Rule) (year stdoff dst : Int) : Int :=
  match r.clock with
  | .universal => r.clockTime year
  | .standard => r.clockTime year - stdoff
  | .wall => r.clockTime year - stdoff - dst

/-- No rule fires before this year. -/
def firstRuleYear : Int := 1800

/-- The last year in which rules fire for a line without an end. -/
def openYear : Int := 9999

/-- The last year in which rules may fire before a line ends. -/
def ZoneLine.lastRuleYear (line : ZoneLine) : Int :=
  if line.isLast then openYear else localYear line.ending line.stdoff

namespace Replay

/-- The years for which a zone is compiled. -/
structure Window where
  minYear : Int
  maxYear : Int
deriving DecidableEq

/-- What a zone line takes over from the line before it. -/
structure Handover where
  /-- The instant at which it does so. -/
  start : Int
  /-- The standard offset of the line before. -/
  stdoff : Int
  /-- What clocks are ahead of standard time when the line before ends. -/
  dst : Int
deriving DecidableEq

/-- Before its first line a zone is on UTC. -/
def Handover.initial : Handover := ⟨beginningOfTime, 0, 0⟩

/-- A rule at an instant at which it fires. -/
structure Firing where
  time : Int
  rule : Rule
deriving DecidableEq

/-- The integers from `first` to `last`. -/
def range (first last : Int) : List Int :=
  (List.range (last + 1 - first).toNat).map fun (i : Nat) => first + i

/-- The years in which a rule may fire for a line. -/
def ruleYears (r : Rule) (lastRuleYear : Int) (w : Window) : List Int :=
  range (max r.fromYear firstRuleYear) (min (min lastRuleYear r.toYear) w.maxYear)

/-- A rule's firing in a year on a line's standard clock. If it falls on the start of the line when
read on the clocks of the line before, it is there. -/
def firing (line : ZoneLine) (h : Handover) (r : Rule) (year : Int) : Firing :=
  { time :=
      if r.instant year h.stdoff h.dst = h.start then h.start else r.instant year line.stdoff 0
    rule := r }

/-- The firings of all rules, in the order in which the rules come. -/
def candidates (rules : List Rule) (line : ZoneLine) (h : Handover) (w : Window) : List Firing :=
  rules.flatMap fun r => (ruleYears r line.lastRuleYear w).map (firing line h r)

/-- A firing after another: one on the wall clock comes earlier by what clocks are ahead then. -/
def Firing.after (prev f : Firing) : Firing :=
  if f.rule.clock = .wall then { f with time := f.time - prev.rule.save } else f

/-- Firings in order, each taken after the one before it. -/
def chain : List Firing → List Firing
  | [] => []
  | f :: fs => f :: List.zipWith Firing.after (f :: fs) fs

/-- The firings of a set of rules for a line, sorted by their instants on the standard clock. -/
def firings (rules : List Rule) (line : ZoneLine) (h : Handover) (w : Window) : List Firing :=
  chain ((candidates rules line h w).mergeSort fun a b => a.time ≤ b.time)

end Replay
end ZoneTables
