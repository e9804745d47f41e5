import ZoneTables.Compilation
import ZoneTables.Oracle.Basic
import ZoneTables.Table.Decode
import ZoneTables.Timeline.Rollback

/-!
# Batches

A batch compiles a list of zones and links, checks each timeline against an oracle, looks for
calendar rollbacks, and makes the compact tables. Names with equal tables share one. Last, every
table is read back. What goes wrong with a zone is noted and does not stop the batch.
-/

namespace ZoneTables

open Replay Tzif

/-- How timelines are compared with those of an oracle. -/
inductive Preset where
  | zoneinfo
  | host
deriving DecidableEq

namespace Preset

def name : Preset → String
  | zoneinfo => "zoneinfo"
  | host => "host"

def ofName? (text : String) : Option Preset := [zoneinfo, host].find? (·.name == text)

def unknownMessage (text : String) : String := s!"Unknown oracle preset {text}"

def closeness (p : Preset) (tolerance : Int) : Closeness :=
  match p with
  | zoneinfo => .zoneinfo tolerance
  | host => .host tolerance

end Preset

namespace Batch

structure Settings where
  window : Window
  /-- Calendar rollbacks are mended. -/
  fix : Bool
  /-- Calendar rollbacks are reported. -/
  warn : Bool
  /-- The database was read with times rounded to minutes. -/
  toMinutes : Bool
  /-- The oracle that timelines are checked against, and how. -/
  oracle : Option (Oracle × Preset)
  /-- The oracle for zones that the first one does not know. It is compared with as the host's. -/
  fallback : Option Oracle

namespace Settings

/-- Rounded times may be a minute off. -/
def tolerance (s : Settings) : Int := if s.toMinutes then 60 else 0

def looksForRollbacks (s : Settings) : Bool := s.warn || s.fix

end Settings

structure Result where
  /-- The names that were asked for. -/
  names : List String
  /-- The number of zones and links in the database. -/
  total : Nat
  timelines : Registry Timeline
  /-- The distinct tables, each under the first name that has it. -/
  tables : Registry String
  /-- The other names, with the name that has the same table. -/
  duplicates : Registry String
  removed : Notes
  notable : Notes
  validation : Notes
  rollback : Notes
  tableNotes : Notes

/-- The result of a batch before its first name. -/
def Result.start (names : List String) (total : Nat) (p : CompileProgress) : Result where
  names := names
  total := total
  timelines := p.timelines
  tables := ∅
  duplicates := ∅
  removed := p.notes.removed
  notable := p.notes.notable
  validation := ∅
  rollback := ∅
  tableNotes := ∅

/-- Why a batch breaks off. -/
inductive Error where
  | unknownZone (error : UnknownZone)
  /-- An oracle fails. -/
  | oracle (error : Oracle.Error)
  /-- A report about a timeline has a number that cannot be written. -/
  | report (error : Text.Numeral.Error)
deriving DecidableEq

/-! ## Checking a timeline -/

/-- The remarks about a timeline that is compared with a reference. -/
def compare (s : Settings) (preset : Preset) (name : String) (t reference : Timeline) :
    Log × Except Error (List String) :=
  match closelyMatches t.zone (preset.closeness s.tolerance) t.transitions
      reference.transitions with
  | (log, .error e) => (log, .error (.report e))
  | (log, .ok true) => (log, .ok [])
  | (log, .ok false) =>
    (log ++ [.error s!"Compiled {name} does not match {preset.name} version"],
      .ok [s!"Does not match {preset.name} version"])

/-- The remarks about a timeline for which there is no reference. -/
def noReference (name : String) : Log × Except Error (List String) :=
  ([.warning s!"{name} could not be read from the oracle for validation"],
    .ok ["No reference transitions"])

/-- The remarks about a timeline that the first oracle does not know. -/
def compareFallback (s : Settings) (name : String) (t : Timeline) :
    Log × Except Error (List String) :=
  match s.fallback with
  | none => noReference name
  | some fallback =>
    match fallback name (some s.window) with
    | (log, .error e) => (log, .error (.oracle e))
    | (log, .ok none) => let (more, reasons) := noReference name; (log ++ more, reasons)
    | (log, .ok (some reference)) =>
      let (more, reasons) := compare s .host name t reference
      (log ++ more, reasons.map ("Validated using host zones" :: ·))

/-- The remarks about a timeline that is checked against the oracles. -/
def validate (s : Settings) (name : String) (t : Timeline) : Log × Except Error (List String) :=
  match s.oracle with
  | none => ([], .ok [])
  | some (oracle, preset) =>
    match oracle name (some s.window) with
    | (log, .error e) => (log, .error (.oracle e))
    | (log, .ok (some reference)) =>
      let (more, reasons) := compare s preset name t reference
      (log ++ more, reasons)
    | (log, .ok none) =>
      let (more, reasons) := compareFallback s name t
      (log ++ more, reasons)

/-- A timeline after the search for rollbacks, with the remark about it. -/
def checkRollbacks (s : Settings) (name : String) (t : Timeline) :
    Except Error (Log × Option String × Timeline) :=
  if !s.looksForRollbacks then .ok ([], none, t)
  else
    match findRollbacks t.zone s.fix s.warn t.transitions with
    | .error e => .error (.report e)
    | .ok (status, ts, log) =>
      let t := { t with transitions := ts }
      match status with
      | .none => .ok (log, none, t)
      | .found => .ok (log, some "Calendar rollbacks", t)
      | .fixed => .ok (log, some "Calendar rollbacks fixed", t)
      | .remain =>
        .ok (log ++ [.error s!"Failed to fix calendar rollbacks in {name}"],
          some "Calendar rollbacks remain", t)

/-! ## Making the tables -/

/-- The table of a name: its own, or that of an earlier name. -/
def Result.addTable (r : Result) (name table : String) : Result :=
  match r.tables.entries.find? (·.2 == table) with
  | some (first, _) => { r with duplicates := r.duplicates.put name first }
  | none => { r with tables := r.tables.put name table }

/-- A timeline of a batch, put in its place after the search for rollbacks, and its table. -/
def Result.putTimeline (s : Settings) (r : Result) (name : String) (remark : Option String)
    (t : Timeline) : Log × Result :=
  let r := { r with
    timelines := r.timelines.put name t
    rollback := remark.elim r.rollback fun reason => r.rollback.add name reason }
  match Table.encode s.fix t with
  | .ok table => ([], r.addTable name (String.ofList table))
  | .error e => ([.error e.message], { r with removed := r.removed.add name e.message })

/-- One name of a batch after its timeline was checked against the oracles. -/
def Result.addName (s : Settings) (r : Result) (name : String) (t : Timeline)
    (reasons : List String) : Except Error (Log × Result) :=
  match checkRollbacks s name t with
  | .error e => .error e
  | .ok (log, remark, t) =>
    let r := { r with
      validation := reasons.foldl (fun notes reason => notes.add name reason) r.validation }
    let (more, r) := r.putTimeline s name remark t
    .ok (log ++ more, r)

/-- The names of a batch one after the other, up to one of which no report can be made. -/
def addEach (s : Settings) : Result → List String → Log × Except Error Result
  | r, [] => ([], .ok r)
  | r, name :: names =>
    match r.timelines.get? name with
    | none => addEach s r names
    | some t =>
      match validate s name t with
      | (log, .error e) => (log, .error e)
      | (log, .ok reasons) =>
        match r.addName s name t reasons with
        | .error e => (log, .error e)
        | .ok (more, r) =>
          let (rest, result) := addEach s r names
          (log ++ more ++ rest, result)

/-- The messages about a table that is read back, and whether it is faulty. -/
def checkTable (name table : String) (t : Timeline) : Log × Bool :=
  let (log, isValid) : Log × Bool :=
    match Table.validate table.toList t with
    | (log, .ok isValid) => (log, isValid)
    | (log, .error e) => (log ++ [.error s!"{name}: {e.message}"], false)
  if isValid then (log, false) else (log ++ [.error s!"Compact table error: {name}"], true)

/-- The tables of a batch read back, in the order of their names. -/
def checkTables (r : Result) : Log × Result :=
  r.tables.sorted.foldl (fun (log, result) (name, table) =>
    match r.timelines.get? name with
    | none => (log, result)
    | some t =>
      let (more, isFaulty) := checkTable name table t
      (log ++ more, if isFaulty then
        { result with tableNotes := result.tableNotes.add name "Compact table error" }
        else result)) ([], r)

/-- The heading of the messages about tables. -/
def tablesHeading (s : Settings) : Message :=
  .info <| "======== Creating compact transition tables" ++
    (if s.oracle.isSome then " / validating" else "") ++
    (if s.looksForRollbacks then " / checking for calendar rollbacks" else "")

/-- A batch of names. -/
def process (s : Settings) (db : Database) (names : List String) : Log × Except Error Result :=
  let start : Message := .info "======== Compiling time zones"
  match db.compileAll s.window .empty names with
  | (p, some e) => (start :: p.log, .error (.unknownZone e))
  | (p, none) =>
    match addEach s (.start names db.size p) names with
    | (log, .error e) => (start :: p.log ++ tablesHeading s :: log, .error e)
    | (log, .ok r) =>
      let (more, r) := checkTables r
      (start :: p.log ++ tablesHeading s :: log ++
        .info "======== Validating compact transition tables" :: more, .ok r)

/-- The summary of a batch. -/
def summary (r : Result) : Log :=
  let selected := r.names.length
  Notes.summary "Removed %s zones which could not be encoded" Notes.defaultLimit r.removed ++
    Notes.summary "Noted %s zones which failed validation" Notes.defaultLimit r.validation ++
    Notes.summary "Noted %s zones with calendar rollbacks" Notes.defaultLimit r.rollback ++
    Notes.summary "Noted %s zones with compact table errors" Notes.defaultLimit r.tableNotes ++
    [.info <| s!"Summary: {r.total} time zone IDs, " ++
      (if selected < r.total then s!"filtered down to {selected}, " else "") ++
      s!"{r.tables.size} unique; duplicates={r.duplicates.size}; removed={r.removed.size}"]

end Batch
end ZoneTables
