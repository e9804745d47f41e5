import ZoneTables.CommandLine.Flags
import ZoneTables.Output.Render
import ZoneTables.Selection

/-!
# Running the compiler

`run` carries out a command line: it reads the sources of a directory, compiles the selected zones
and returns what is to be printed and written. Files are looked up through a function that its
caller provides, so that all decisions are made here.
-/

namespace ZoneTables.CommandLine

open Replay Text

/-- What is found at a path. -/
inductive Found where
  | nothing
  | directory
  | contents (bytes : Bytes)

/-- What a run prints and writes, and its exit code. -/
structure Outcome where
  exit : Nat
  stdout : String
  log : Log
  /-- The path and text of the file to be written. -/
  file : Option (String × String)

/-- Why a run breaks off. -/
inductive Failure where
  /-- The command line is malformed. -/
  | usage
  /-- There is no file at a path. -/
  | noFile (path : String)
  /-- A directory is at the path of a file. -/
  | directory (path : String)
  /-- An option has no value, and one is needed. -/
  | noValue
  /-- A file is not in UTF-8. -/
  | notText (path : String) (fault : Utf8.Fault)
  | batch (error : Batch.Error)

def Failure.message : Failure → String
  | usage => "malformed command line"
  | noFile path => s!"no file {path}"
  | directory path => s!"{path} is a directory"
  | noValue => "value expected"
  | notText path fault => s!"{path}: {fault.message}"
  | batch (.unknownZone error) => error.message
  | batch (.oracle error) => error.message
  | batch (.report error) => error.message

/-- An outcome that is a line on the standard output. -/
def Outcome.refusal (line : String) : Outcome := ⟨1, line ++ "\n", [], none⟩

/-- The sources that are read from the input directory. -/
def sourceNames : List String :=
  ["africa", "antarctica", "asia", "australasia", "europe", "northamerica", "pacificnew",
    "southamerica", "backward", "etcetera", "systemv"]

/-- The text of a file, with line feeds for its line ends. -/
def textOf (path : String) (bytes : Bytes) : Except Failure String :=
  match Utf8.decode bytes with
  | .ok text => .ok (String.ofList (unifyLineEnds text.toList))
  | .error fault => .error (.notText path fault)

/-- The names of an include list: its lines, but for empty ones and those with a comment sign. -/
def readIncludeList (text : String) : List String :=
  (((cut (· == '\n') text.toList).map (trim isBlank)).filter fun line =>
    !line.isEmpty && line.head? != some '#').map String.ofList

def yesNo (b : Bool) : String := if b then "True" else "False"

namespace Flags

def mode (f : Flags) : OutputMode := if f.json then .json else if f.text then .text else .js

/-- The path of the file to be written, if the standard output is not asked for. -/
def outputPath? (f : Flags) : Option String :=
  if f.stdout then none
  else some (if f.outputFile.isEmpty then f.mode.defaultFile else f.outputFile)

/-- The window, if both of its years have values. -/
def window? (f : Flags) : Option Window := do return ⟨← f.startYear, ← f.untilYear⟩

/-- Why flags do not go together, in a line for the standard output. A year cannot be compared with
one that has no value. -/
def conflict? (f : Flags) : Except Failure (Option String) :=
  if f.json ∧ f.text then .ok (some "Only one of --json and --text can be given")
  else
    match f.startYear, f.untilYear with
    | some start, some until_ =>
      .ok (if until_ < start then some s!"Invalid --start_year {start} > {until_}" else none)
    | none, none => .ok none
    | _, _ => .error .noValue

/-- The settings that a run reports first. -/
def heading (f : Flags) : Log :=
  [.info "======== Compact TZ Compiler settings",
    .info <| s!"Start year: {Catalog.yearText f.startYear}; " ++
      s!"Until year: {Catalog.yearText f.untilYear}",
    .info s!"Round to minutes: {yesNo f.roundToMinutes}",
    .info s!"Filtered: {yesNo f.filtered}",
    .info s!"Fix rollbacks: {yesNo f.fixRollbacks}",
    .info ("Output: " ++ f.outputPath?.getD "(stdout)" ++ s!" ({f.mode.name})"),
    .info "======== Extracting TZ Data files"]

/-- An oracle that is asked without a window if there is none. -/
def ask (f : Flags) (oracle : Oracle) : Oracle := fun name _ => oracle name f.window?

/-- The settings that the flags ask for. Where there is no window, nothing may depend on it. -/
def settings (f : Flags) (files : Files) (hostDir : String) : Batch.Settings where
  window := f.window?.getD ⟨0, 0⟩
  fix := f.fixRollbacks
  warn := !f.quiet
  toMinutes := f.roundToMinutes
  oracle :=
    if !f.zoneinfoDir.isEmpty then
      some (f.ask (Oracle.directory files f.zoneinfoDir), .zoneinfo)
    else if f.hostZones then some (f.ask (Oracle.host files hostDir), .host)
    else none
  fallback := if f.zoneinfoDir.isEmpty then none else some (f.ask (Oracle.host files hostDir))

/-- The selected names. No zone has the name that an option without a value asks for. -/
def select (f : Flags) (included : List String) (db : Database) :
    Except UnknownZone (List String) :=
  match f.singleZone with
  | some none => .error ⟨"[]"⟩
  | some (some zone) => Selection.select ⟨some zone, f.filtered, included⟩ db
  | none => Selection.select ⟨none, f.filtered, included⟩ db

/-- The timelines of the names cannot be made because they depend on a window and there is none. -/
def lacksWindow (f : Flags) (db : Database) (names : List String) : Bool :=
  f.window?.isNone && names.any fun name =>
    match db.find name with
    | .ok (_, lines) => dependsOnWindow db lines
    | .error _ => false

/-- The paths at which the oracles may look for a zone. -/
def oraclePaths (f : Flags) (hostDir name : String) : List String :=
  if !f.zoneinfoDir.isEmpty then [Path.join f.zoneinfoDir name, Path.join hostDir name]
  else if f.hostZones then [Path.join hostDir name]
  else []

/-- The messages that are shown. -/
def shown (f : Flags) (log : Log) : Log :=
  let least := if f.quiet then Level.warning else Level.info
  log.filter fun m => least.rank ≤ m.level.rank

end Flags

/-- What a database holds, in two lines. -/
def databaseSummary (db : Database) (sources : Registry String) : Log :=
  let lineCount := (db.zones.entries.flatMap (·.2)).length
  let ruleCount := (db.ruleSets.entries.flatMap (·.2)).length
  [.info s!"TZ version: {db.version}; Files: {(sources.names.filter (· != versionSource)).length}",
    .info <| s!"Zones: {db.zones.size}; Zone lines: {lineCount}; Rule sets: {db.ruleSets.size}; " ++
      s!"Rules: {ruleCount}; Links: {db.aliases.size}"]

/-- The batch of the selected names, and its output. -/
def compileAndRender (f : Flags) (db : Database) (settings : Batch.Settings)
    (names : List String) : Except Failure Outcome :=
  match Batch.process settings db names with
  | (_, .error e) => .error (.batch e)
  | (log, .ok r) =>
    let (merged, remarks) := r.mergeNotes
    let catalog := Catalog.ofTables
      { version := if f.tzVersion.isEmpty then db.version else f.tzVersion
        startYear := f.startYear, untilYear := f.untilYear, toMinutes := f.roundToMinutes
        filtered := f.filtered, fix := f.fixRollbacks }
      merged.tables merged.duplicates merged.notable remarks
    let text := catalog.render f.mode names merged.timelines
    let log := log ++ Batch.summary r ++
      .info "======== Merging zone comments" :: remarks.summary ++
      [.info "======== Generating output"] ++
      (f.outputPath?.elim [] fun path => [.info s!"Created {path}"]) ++
      [.info "======== Finished processing TZ Data files."]
    .ok ⟨0, if f.outputPath?.isSome then "" else text, log, f.outputPath?.map (·, text)⟩

section

variable {m : Type → Type} [Monad m] (look : String → m Found)

/-- The text of a file that must be there. -/
def readText (path : String) : m (Except Failure String) := do
  match ← look path with
  | .nothing => return .error (.noFile path)
  | .directory => return .error (.directory path)
  | .contents bytes => return textOf path bytes

/-- The sources of a directory that are there, with a message about each, added to others. -/
def readSources (directory : String) :
    Log × Registry String → List String → m (Except Failure (Log × Registry String))
  | found, [] => return .ok found
  | (log, sources), name :: names => do
    let path := Path.join directory name
    match ← look path with
    | .contents bytes =>
      match textOf path bytes with
      | .error e => return .error e
      | .ok text =>
        readSources directory (log ++ [.info s!"Read {path}"], sources.put name text) names
    | _ =>
      readSources directory (log ++ [.warning s!"Skipping missing file {path}"], sources) names

/-- The sources with the version, if the directory tells it. -/
def readVersion (directory : String) (sources : Registry String) :
    m (Except Failure (Registry String)) := do
  let path := Path.join directory versionSource
  match ← look path with
  | .contents bytes => return (textOf path bytes).map (sources.put versionSource)
  | _ => return .ok sources

/-- The files at some paths. -/
def readFiles (paths : List String) : m Files := do
  let found ← paths.mapM fun path => do
    match ← look path with
    | .contents bytes => return some (path, bytes)
    | _ => return none
  let files := found.filterMap id
  return fun path => files.lookup path

/-- A run whose flags go together, with the names of the include list. -/
def runFlags (hostDir : String) (f : Flags) (included : List String) :
    m (Except Failure Outcome) := do
  let some inputDir := f.inputDir | return .error .noValue
  match ← readSources look inputDir ([], ∅) sourceNames with
  | .error e => return .error e
  | .ok (readLog, sources) =>
    match ← readVersion look inputDir sources with
    | .error e => return .error e
    | .ok sources =>
      let (linkLog, result) := Database.ofSources ⟨f.roundToMinutes, f.systemV⟩ sources none
      let log := f.heading ++ readLog ++ linkLog
      match result with
      | .error e => return .ok ⟨1, "", f.shown (log ++ [.error e.message]), none⟩
      | .ok db =>
        let log := log ++ databaseSummary db sources
        match f.select included db with
        | .error e => return .ok ⟨1, "", f.shown (log ++ [.error e.message]), none⟩
        | .ok names =>
          let files ← readFiles look (names.flatMap (f.oraclePaths hostDir))
          if f.lacksWindow db names then return .error .noValue
          else
            return (compileAndRender f db (f.settings files hostDir) names).map fun o =>
              { o with log := f.shown (log ++ o.log) }

/-- A run of the compiler with the arguments of its command line. The zone files of the host are
under `hostDir`. -/
def run (hostDir : String) (args : List String) : m (Except Failure Outcome) := do
  match Flags.read? args with
  | none => return .error .usage
  | some f =>
    match f.conflict? with
    | .error e => return .error e
    | .ok (some line) => return .ok (.refusal line)
    | .ok none =>
      if f.includeList.isEmpty then runFlags look hostDir f []
      else
        match ← readText look f.includeList with
        | .error e => return .error e
        | .ok text => runFlags look hostDir f (readIncludeList text)

end

end ZoneTables.CommandLine
