import ZoneTables.Database
import ZoneTables.Notes
import ZoneTables.Replay.Basic

/-!
# Compiling zones

`compile` makes the timeline of one zone or link over a range of years. `compileAll` makes those of
several, each zone once, and notes the zones that cannot be compiled together with their links.
-/

namespace ZoneTables

open Replay

/-- A zone asks for rules that are not in the database. -/
structure CompileError where
  zone : String
  rules : String
deriving DecidableEq

def CompileError.message (e : CompileError) : String :=
  s!"{e.zone}: unknown Rule {Source.FieldError.quote e.rules.toList}"

/-- What compiling a zone results in, with its messages and the reasons why it is notable. -/
structure Compilation where
  log : Log
  reasons : List String
  result : Except CompileError Timeline

/-- A remark about daylight saving. -/
def dstRemark (isDst : Bool) : String := if isDst then ", DST" else ""

/-- The timeline of a replay, within the years of the window. -/
def timelineOf (name zone : String) (lines : List ZoneLine) (w : Window) (ts : List Transition) :
    Timeline where
  zone := some name
  transitions := trimYears (some w.minYear) w.maxYear (removeDuplicates ts)
  lastLine := lines.getLast?
  aliasFor := if zone = name then none else some zone
  nominal := none

/-- The zone `zone` with the given lines, compiled under the name `name`. -/
def compileLines (db : Database) (name zone : String) (lines : List ZoneLine) (w : Window) :
    Compilation :=
  let r := replay db.ruleSets w .initial lines
  { log := r.unresolved.map fun (format, isDst) =>
      .warning s!"{name}: unresolved time zone name {format}{dstRemark isDst}"
    reasons := r.unresolved.map fun (format, isDst) =>
      s!"Unresolved name {Source.FieldError.quote format.toList}{dstRemark isDst}"
    result :=
      match r.missing with
      | some rules => .error ⟨name, rules⟩
      | none => .ok (timelineOf name zone lines w r.transitions) }

/-- What lines compile to depends on the window, unless there is one line with a fixed amount of
daylight saving, or the rules of the first line are missing. -/
def dependsOnWindow (db : Database) (lines : List ZoneLine) : Bool :=
  match lines with
  | [] => false
  | line :: rest =>
    match line.saving with
    | .fixed _ => !rest.isEmpty
    | .ruled name => db.ruleSets.contains name

/-- The timeline of a zone or link. -/
def Database.compile (db : Database) (name : String) (w : Window) :
    Except UnknownZone Compilation := do
  let (zone, lines) ← db.find name
  return compileLines db name zone lines w

/-! ## Compiling several zones -/

/-- What has been noted about zones while compiling. -/
structure CompilerNotes where
  /-- Zones with names that could not be resolved. -/
  notable : Notes
  /-- Zones that could not be compiled, and their links. -/
  removed : Notes

def CompilerNotes.empty : CompilerNotes := ⟨∅, ∅⟩

namespace CompilerNotes

def addNotable (notes : CompilerNotes) (name : String) (reasons : List String) : CompilerNotes :=
  { notes with notable := reasons.foldl (fun notes reason => notes.add name reason) notes.notable }

def remove (notes : CompilerNotes) (name reason : String) : CompilerNotes :=
  { notes with removed := notes.removed.add name reason }

end CompilerNotes

/-- The state between two names of a list that is compiled. -/
structure CompileProgress where
  notes : CompilerNotes
  log : Log
  /-- The timelines of the zones compiled so far. -/
  zones : Registry Timeline
  /-- The timelines of the names seen so far. -/
  timelines : Registry Timeline

namespace CompileProgress

/-- The timeline of a zone under one of its names. -/
def addTimeline (p : CompileProgress) (name zone : String) (t : Timeline) : CompileProgress :=
  let t := if name = zone then t else { t with zone := some name, aliasFor := some zone }
  { p with timelines := p.timelines.put name t }

def linkReason (zone : String) : String := s!"Link to failed {zone}"

/-- A zone that could not be compiled, and the link by which it was asked for. -/
def addFailure (p : CompileProgress) (name zone : String) (e : CompileError) : CompileProgress :=
  let notes := p.notes.remove zone e.message
  { p with
    log := p.log ++ [.error e.message]
    notes := if name = zone then notes else notes.remove name (linkReason zone) }

/-- What a zone compiled to, noted and kept for the name by which it was asked for. -/
def addCompilation (p : CompileProgress) (name zone : String) (c : Compilation) :
    CompileProgress :=
  let p := { p with log := p.log ++ c.log, notes := p.notes.addNotable zone c.reasons }
  match c.result with
  | .error e => p.addFailure name zone e
  | .ok t => { p with zones := p.zones.put zone t }.addTimeline name zone t

/-- One more name, which means the zone `zone`. A zone that comes for the first time is compiled
under its own name, as if that had been asked for. -/
def add (db : Database) (w : Window) (p : CompileProgress) (name zone : String) :
    Except UnknownZone CompileProgress :=
  if p.notes.removed.contains zone then
    .ok { p with notes := p.notes.remove name (linkReason zone) }
  else
    match p.zones.get? zone with
    | some t => .ok (p.addTimeline name zone t)
    | none => (db.compile zone w).map (p.addCompilation name zone)

end CompileProgress

/-- The given names compiled one after the other, up to one that is unknown. -/
def compileEach (db : Database) (w : Window) :
    CompileProgress → List String → CompileProgress × Option UnknownZone
  | p, [] => (p, none)
  | p, name :: names =>
    match db.find name with
    | .error e => (p, some e)
    | .ok (zone, _) =>
      match p.add db w name zone with
      | .error e => (p, some e)
      | .ok p => compileEach db w p names

/-- The given names compiled, with the notes of earlier runs going on. -/
def Database.compileAll (db : Database) (w : Window) (notes : CompilerNotes)
    (names : List String) : CompileProgress × Option UnknownZone :=
  compileEach db w ⟨notes, [], ∅, ∅⟩ names

end ZoneTables
