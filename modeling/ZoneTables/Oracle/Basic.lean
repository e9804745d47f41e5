import ZoneTables.Log
import ZoneTables.Oracle.Path
import ZoneTables.Registry
import ZoneTables.Replay.Firing
import ZoneTables.Tzif.LocalClock

/-!
# Oracles

An oracle is an independent source of the transitions of zones, against which compiled timelines are
checked. One reads the compiled zone files under a directory. The other reads those of the host,
and takes the amounts of daylight saving and the offsets beyond the last transition from the zones'
local clocks.
-/

namespace ZoneTables

open Replay Tzif

/-- Why an oracle fails. -/
inductive Oracle.Error where
  | clock (error : ClockError)
  /-- There is no window, and the timeline depends on it. -/
  | noWindow
deriving DecidableEq

def Oracle.Error.message : Oracle.Error → String
  | clock error => error.message
  | noWindow => "years expected"

/-- The timeline of a zone within a window, if the oracle knows the zone. Without a window there are
only timelines that no window changes. -/
abbrev Oracle := String → Option Window → Log × Except Oracle.Error (Option Timeline)

namespace Oracle

/-- The part of a timeline within a window. -/
def within (w : Option Window) (t : Timeline) : Except Error Timeline :=
  match w with
  | some w => .ok (t.map (trimYears (some w.minYear) w.maxYear))
  | none => if t.transitions.all (·.time == beginningOfTime) then .ok t else .error .noWindow

/-- The timeline of a compiled zone file, if there is one that can be read. -/
def readFile (files : Files) (path zone : String) (w : Option Window) :
    Log × Except Error (Option Timeline) :=
  match files path with
  | none => ([], .ok none)
  | some content =>
    match Tzif.decode (some zone) content with
    | .error e => ([.warning s!"{zone}: unable to read {path}: {e.message}"], .ok none)
    | .ok t => ([], (within w t).map some)

/-- The oracle of a directory of compiled zone files. -/
def directory (files : Files) (path : String) : Oracle := fun zone w =>
  readFile files (Path.join path zone) zone w

/-! ## The zones of the host -/

/-- A transition with the amount of daylight saving that the clock has there. -/
def withAmount (c : LocalClock) (t : Transition) : Except ClockError Transition :=
  if t.dstOffset = 0 ∨ t.time = beginningOfTime then .ok t
  else do
    let offsets ← c.probe t.time
    return if offsets.dst = 0 then t else { t with dstOffset := offsets.dst }

/-- The offsets beyond the last transition are looked for at this many steps. -/
def probeCount : Nat := 8

/-- About a quarter of a year. -/
def probeStep : Int := 91 * secondsPerDay

/-- The standard offset and daylight saving that the clock has at the first of some instants with
daylight saving, or else at the last of them. -/
def probeNominal (c : LocalClock) (nominal : Int × Int) : List Int → Except ClockError (Int × Int)
  | [] => .ok nominal
  | time :: times =>
    match c.probe time with
    | .error .outOfRange => .ok nominal
    | .error e => .error e
    | .ok offsets =>
      if offsets.dst ≠ 0 then .ok (offsets.utc - offsets.dst, offsets.dst)
      else probeNominal c (offsets.utc, nominal.2) times

/-- The standard offset and daylight saving beyond the last transition. -/
def nominalAfter (c : LocalClock) (last : Transition) : Except ClockError (Int × Int) :=
  let nominal := (last.utcOffset - last.dstOffset, 0)
  if last.time = beginningOfTime then .ok nominal
  else
    probeNominal c nominal <|
      (List.range probeCount).map fun (i : Nat) => last.time + (i + 1) * probeStep

/-- A timeline with what the zone's clock tells. -/
def withClock (c : LocalClock) (t : Timeline) : Except ClockError Timeline := do
  let ts ← t.transitions.mapM (withAmount c)
  match ts.getLast? with
  | none => return { t with transitions := ts }
  | some last =>
    let nominal ← nominalAfter c last
    return { t with transitions := ts, nominal := some nominal }

/-- The errors that are reported in the log. The others are given up to. -/
def isReported : ClockError → Bool
  | .magic | .version _ | .negativeSize | .typeCount | .name _ | .footerText _ | .noTypes => true
  | .footer error => error != .emptyDay
  | _ => false

/-- The oracle of the host, whose zone files are under a directory. -/
def host (files : Files) (path : String) : Oracle := fun zone w =>
  match files (Path.join path zone) with
  | none => ([], .ok none)
  | some content =>
    match Path.checkKey zone with
    | .error e => ([.warning s!"{zone}: {e.message}"], .ok none)
    | .ok () =>
      match LocalClock.read content with
      | .error e =>
        if isReported e then ([.warning s!"{zone}: {e.message}"], .ok none)
        else ([], .error (.clock e))
      | .ok c =>
        match readFile files (Path.join path zone) zone w with
        | (log, .ok (some t)) => (log, ((withClock c t).map some).mapError .clock)
        | unread => unread

/-- The oracle that knows the timelines of a registry, whatever the window. -/
def ofRegistry (timelines : Registry (Option (List Transition))) : Oracle := fun zone _ =>
  ([], .ok (((timelines.get? zone).bind id).map (Timeline.ofTransitions (some zone))))

end Oracle
end ZoneTables
