import ZoneTables.Source.Line
import ZoneTables.Source.Link

/-!
# The zone database

The zones, rules and links of a set of sources. In each source the lines of a zone follow one
another, rules and links aside: a line that names the zone, and further lines up to one without an
end. `Database.ofSources` reads the sources in order and then resolves the links.
-/

namespace ZoneTables

open Text Source

/-- A name that is neither a zone nor a link. -/
structure UnknownZone where
  name : String
deriving DecidableEq

def UnknownZone.message (e : UnknownZone) : String := s!"Unknown time zone: {e.name}"

structure Database where
  zones : Registry (List ZoneLine)
  ruleSets : Registry (List Rule)
  /-- The zone of each link. -/
  aliases : Registry String
  version : String

/-- Texts in ascending order. -/
def sortTexts (texts : List String) : List String := texts.mergeSort (· ≤ ·)

namespace Database

/-- The names of all zones and links in ascending order. -/
def names (db : Database) : List String := sortTexts (db.zones.names ++ db.aliases.names)

/-- The number of zones and links. -/
def size (db : Database) : Nat := db.zones.size + db.aliases.size

/-- The zone that a name means, and its lines. -/
def find (db : Database) (name : String) : Except UnknownZone (String × List ZoneLine) :=
  let zone := (db.aliases.get? name).getD name
  match db.zones.get? zone with
  | some lines => .ok (zone, lines)
  | none => .error ⟨name⟩

end Database

namespace Source

/-! ## Reading one source -/

/-- What is wrong with a source. -/
inductive Fault where
  /-- There is no source of that name. -/
  | missing
  /-- A line cannot be read. -/
  | line (error : LineError)
  /-- A zone's last line is not its end. -/
  | unterminated (zone : String)
  /-- A further line of a zone comes where no zone is open. -/
  | outside
deriving DecidableEq

def Fault.message (source : String) : Fault → String
  | missing => s!"Failed reading {FieldError.quote source.toList}: File not found"
  | line error => error.message
  | unterminated zone => s!"Zone {zone} was not properly terminated"
  | outside => "Zone continuation line outside of a Zone"

/-- A fault and where it is. Line zero stands for the source as a whole. -/
structure ParseError where
  fault : Fault
  source : String
  line : Nat
deriving DecidableEq

def ParseError.message (e : ParseError) : String :=
  e.fault.message e.source ++ (if e.source.isEmpty then "" else s!" ({e.source})") ++
    (if e.line = 0 then "" else s!" (line {e.line})")

/-- What has been read so far, and the zone that is open with its lines so far. -/
structure Progress where
  zones : Registry (List ZoneLine)
  ruleSets : Registry (List Rule)
  links : Registry String
  pending : Option (String × List ZoneLine)

def Progress.start : Progress := ⟨∅, ∅, ∅, none⟩

namespace Progress

/-- A further line of the zone `name`, which ends the zone if it is the last. -/
def addZoneLine (p : Progress) (name : String) (lines : List ZoneLine) (line : ZoneLine) :
    Progress :=
  if line.isLast then { p with zones := p.zones.put name (lines ++ [line]), pending := none }
  else { p with pending := some (name, lines ++ [line]) }

def add (p : Progress) : Line → Except Fault Progress
  | .rule rule =>
    .ok { p with ruleSets := p.ruleSets.update rule.name fun rules => rules.getD [] ++ [rule] }
  | .link target name => .ok { p with links := p.links.put name target }
  | .zone name line =>
    match p.pending with
    | some (other, _) => .error (.unterminated other)
    | none => .ok (p.addZoneLine name [] line)
  | .continuation line =>
    match p.pending with
    | some (name, lines) => .ok (p.addZoneLine name lines line)
    | none => .error .outside

end Progress

/-- The lines of a source with their numbers, without comments, blanks at their ends, and lines
that this leaves empty. -/
def numberedLines (text : List Char) : List (Nat × List Char) :=
  (lines text).zipIdx 1 |>.map (fun (line, number) =>
    (number, trimEnd isBlank (line.takeWhile (· != '#')))) |>.filter (!·.2.isEmpty)

/-- One line of a source after what came before it. -/
def readNumbered (toMinutes : Bool) (p : Progress) (line : List Char) : Except Fault Progress :=
  match Line.read toMinutes line with
  | .ok line => p.add line
  | .error e => .error (.line e)

/-- The lines of a source after what came before them. The number is that of the latest line. -/
def readLines (toMinutes : Bool) (source : String) :
    Progress → Nat → List (Nat × List Char) → Except ParseError Progress
  | p, last, [] =>
    match p.pending with
    | some (zone, _) => .error ⟨.unterminated zone, source, last⟩
    | none => .ok p
  | p, _, (number, line) :: rest =>
    match readNumbered toMinutes p line with
    | .ok p => readLines toMinutes source p number rest
    | .error fault => .error ⟨fault, source, number⟩

/-- Zones that a comment sign of two characters keeps out, let in. -/
def uncommentZones : List Char → List Char
  | '#' :: '#' :: ' ' :: 'Z' :: 'o' :: 'n' :: 'e' :: r => "Zone".toList ++ uncommentZones r
  | c :: r => c :: uncommentZones r
  | [] => []

/-- How sources are read. -/
structure Options where
  /-- Offsets, amounts of daylight saving and the ends of lines are rounded to minutes. -/
  toMinutes : Bool
  /-- The commented zones of the source `systemv` are read. -/
  systemV : Bool
deriving DecidableEq

/-- The sources of the given names, one after the other. -/
def readSources (options : Options) (sources : Registry String) :
    Progress → List String → Except ParseError Progress
  | p, [] => .ok p
  | p, name :: names =>
    match sources.get? name with
    | none => .error ⟨.missing, name, 0⟩
    | some text =>
      let cs := text.toList
      let cs := if name = "systemv" ∧ options.systemV then uncommentZones cs else cs
      match readLines options.toMinutes name p 0 (numberedLines cs) with
      | .ok p => readSources options sources p names
      | .error e => .error e

/-- Why sources make no database. -/
inductive Error where
  | parse (error : ParseError)
  | link (error : UnresolvedLink)
deriving DecidableEq

def Error.message : Error → String
  | parse error => error.message
  | link error => error.message

end Source

/-- The name under which the version of the sources is found. -/
def versionSource : String := "version"

/-- The database of the sources of the given names, or of all of them. -/
def Database.ofSources (options : Options) (sources : Registry String)
    (names : Option (List String)) : Log × Except Source.Error Database :=
  let names := names.getD (sources.names.filter (· != versionSource))
  match readSources options sources .start names with
  | .error e => ([], .error (.parse e))
  | .ok p =>
    let (log, aliases) := resolveLinks p.zones.contains p.links
    let version := ((sources.get? versionSource).getD "unknown").toList
    (log, (aliases.mapError .link).map fun aliases =>
      { zones := p.zones
        ruleSets := p.ruleSets
        aliases
        version := String.ofList (trim isBlank version) })

end ZoneTables
