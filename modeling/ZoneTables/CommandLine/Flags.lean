import ZoneTables.Text.Numeral

/-!
# Command line flags

A command line is a sequence of switches such as `--json` and of options with a value, which follows
as `--start_year 2000` or `--start_year=2000`. A later option takes the place of an earlier one.
After an equals sign two dashes stand for no value. The name of a flag may be cut short as long as
no other name starts in the same way.
-/

namespace ZoneTables.CommandLine

open Text

/-- The value of an option, if it has one. -/
abbrev OptionValue (α : Type) := Option α

structure Flags where
  inputDir : OptionValue String
  roundToMinutes : Bool
  systemV : Bool
  /-- The value of the option for a single zone, if it is given. -/
  singleZone : Option (OptionValue String)
  filtered : Bool
  includeList : String
  startYear : OptionValue Int
  untilYear : OptionValue Int
  fixRollbacks : Bool
  quiet : Bool
  zoneinfoDir : String
  hostZones : Bool
  json : Bool
  text : Bool
  outputFile : String
  stdout : Bool
  tzVersion : String
deriving DecidableEq

/-- The flags before any is given. -/
def Flags.default : Flags where
  inputDir := none
  roundToMinutes := false
  systemV := false
  singleZone := none
  filtered := false
  includeList := ""
  startYear := some 1900
  untilYear := some 2050
  fixRollbacks := false
  quiet := false
  zoneinfoDir := ""
  hostZones := false
  json := false
  text := false
  outputFile := ""
  stdout := false
  tzVersion := ""

/-- What a flag does. -/
inductive Effect where
  | switch (set : Flags → Flags)
  | option (set : OptionValue String → Flags → Flags)
  | number (set : OptionValue Int → Flags → Flags)

/-- The flag that must be given. -/
def requiredFlag : String := "--input_dir"

def effects : List (String × Effect) :=
  [("--input_dir", .option fun v f => { f with inputDir := v }),
    ("--round_to_minutes", .switch fun f => { f with roundToMinutes := true }),
    ("--systemv", .switch fun f => { f with systemV := true }),
    ("--single_zone", .option fun v f => { f with singleZone := some v }),
    ("--filtered", .switch fun f => { f with filtered := true }),
    ("--include_list", .option fun v f => { f with includeList := v.getD "" }),
    ("--start_year", .number fun n f => { f with startYear := n }),
    ("--until_year", .number fun n f => { f with untilYear := n }),
    ("--fix_rollbacks", .switch fun f => { f with fixRollbacks := true }),
    ("--quiet", .switch fun f => { f with quiet := true }),
    ("--zoneinfo_dir", .option fun v f => { f with zoneinfoDir := v.getD "" }),
    ("--host_zones", .switch fun f => { f with hostZones := true }),
    ("--json", .switch fun f => { f with json := true }),
    ("--text", .switch fun f => { f with text := true }),
    ("--output_file", .option fun v f => { f with outputFile := v.getD "" }),
    ("--stdout", .switch fun f => { f with stdout := true }),
    ("--tz_version", .option fun v f => { f with tzVersion := v.getD "" })]

/-- Names that ask for help, which there is none of. -/
def helpNames : List String := ["-h", "--help"]

def isName (text : List Char) : Bool :=
  (helpNames ++ effects.map (·.1)).contains (String.ofList text)

/-- The name of a flag and the value that is joined to it by an equals sign. -/
def splitValue (arg : List Char) : List Char × Option (List Char) :=
  match around? ['='] arg with
  | some (name, value) => (name, some value)
  | none => (arg, none)

/-- The flags of which an argument may be a shorter or, for a name of one dash, a longer form, each
with the value joined to it. -/
def variants (arg : List Char) : List (String × Option (List Char)) :=
  match arg with
  | '-' :: '-' :: _ =>
    let (start, joined) := splitValue arg
    ((helpNames ++ effects.map (·.1)).filter (start.isPrefixOf ·.toList)).map (·, joined)
  | _ => if "-h".toList.isPrefixOf arg then [("-h", some (arg.drop 2))] else []

def isDecimal (c : Char) : Bool := (digitValue? c).isSome

/-- A minus sign with digits after it, and possibly a point before the last of them. One line end
may follow. -/
def isNegativeNumber (arg : List Char) : Bool :=
  let body := if arg.getLast? = some '\n' then arg.dropLast else arg
  match body with
  | '-' :: r =>
    let rest := r.dropWhile isDecimal
    match rest with
    | [] => !r.isEmpty
    | '.' :: fraction => !fraction.isEmpty && fraction.all isDecimal
    | _ => false
  | _ => false

/-- What an argument is by itself. -/
inductive Argument where
  /-- It may be the value of an option. -/
  | value
  /-- A flag, and the value joined to it. -/
  | flag (name : String) (joined : Option (List Char))
  /-- It looks like a flag and means none, or several. -/
  | unclear

/-- An argument that starts with a minus sign may be a value if it is nothing else, or if it is no
flag and a negative number or holds a space. -/
def Argument.read (arg : List Char) : Argument :=
  match arg with
  | '-' :: _ :: _ =>
    let (name, joined) := splitValue arg
    if isName arg then .flag (String.ofList arg) none
    else if joined.isSome && isName name then .flag (String.ofList name) joined
    else
      match variants arg with
      | [(name, joined)] => .flag name joined
      | _ :: _ :: _ => .unclear
      | [] => if isNegativeNumber arg || arg.contains ' ' then .value else .unclear
  | _ => .value

/-- An option or number set to a value, or to none. -/
def Effect.setValue? (e : Effect) (value : Option (List Char)) (f : Flags) : Option Flags :=
  match e, value with
  | .switch _, _ => none
  | .option set, _ => some (set (value.map String.ofList) f)
  | .number set, none => some (set none f)
  | .number set, some text => (Numeral.read text).toOption.map fun n => set (some n) f

/-- The value that is joined to a flag. -/
def joinedValue (text : List Char) : Option (List Char) :=
  if text = ['-', '-'] then none else some text

/-- Flags after the given ones, with the names of those that were given. -/
def readFlags (given : List String) (f : Flags) : List (List Char) → Option (List String × Flags)
  | [] => some (given, f)
  | arg :: args =>
    match Argument.read arg with
    | .flag name joined =>
      match effects.lookup name, joined, args with
      | some e, some text, args => do
        readFlags (name :: given) (← e.setValue? (joinedValue text) f) args
      | some (.switch set), none, args => readFlags (name :: given) (set f) args
      | some e, none, text :: args =>
        match Argument.read text with
        | .value => do readFlags (name :: given) (← e.setValue? (some text) f) args
        | _ => none
      | _, _, _ => none
    | _ => none

/-- The flags of a command line, unless it is malformed or lacks the one that is required. -/
def Flags.read? (args : List String) : Option Flags := do
  let (given, f) ← readFlags [] .default (args.map String.toList)
  if given.contains requiredFlag then some f else none

end ZoneTables.CommandLine
