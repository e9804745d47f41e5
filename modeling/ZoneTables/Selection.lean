import ZoneTables.Database
import ZoneTables.Text.Digit

/-!
# Selecting zones

The names to compile: all of the database, or those of a list, or one; with `filtered`, less the
names that are obsolete, administrative or redundant (`isSkipped`). Those are the names without a
slash and the names in certain regions, three-letter regions such as `EST` or `MST7MDT` among them,
but not those of `keptNames`.
-/

namespace ZoneTables

open Text

namespace Selection

/-- Zones that are skipped though their regions are kept. -/
def skippedZones : List String := ["America/Indianapolis", "America/Knox_IN"]

/-- Zones with this start and two digits after it are skipped. -/
def skippedStart : List Char := "Asia/Riyadh".toList

/-- Regions of two parts. -/
def longRegions : List (List Char) := ["America/Argentina".toList, "America/Indiana".toList]

def skippedRegions : List String :=
  ["Etc", "GB", "GB-Eire", "GMT0", "NZ", "NZ-CHAT", "SystemV", "W-SU", "Zulu", "Mideast"]

/-- Zones that are kept though they are in no place. -/
def keptNames : List String :=
  ["CST6CDT", "EET", "EST5EDT", "MST7MDT", "PST8PDT", "SystemV/AST4ADT", "SystemV/CST6CDT",
    "SystemV/EST5EDT", "SystemV/MST7MDT", "SystemV/PST8PDT", "SystemV/YST9YDT", "WET"]

def isDecimal (c : Char) : Bool := (digitValue? c).isSome

/-- The text is three capitals, or three capitals, a digit and three capitals. -/
def isLetterCode : List Char → Bool
  | [a, b, c] => a.isUpper && b.isUpper && c.isUpper
  | [a, b, c, d, e, f, g] =>
    a.isUpper && b.isUpper && c.isUpper && isDecimal d && e.isUpper && f.isUpper && g.isUpper
  | _ => false

def isSkippedRegion (region : List Char) : Bool :=
  skippedRegions.contains (String.ofList region) || isLetterCode region

/-- The name of a zone in a region of two parts: something on one line after the region. -/
def longRegion? (name : List Char) : Option (List Char) :=
  longRegions.find? fun region =>
    region.isPrefixOf name &&
      match name.drop region.length with
      | '/' :: place => !place.isEmpty && !place.contains '\n'
      | _ => false

/-- The region of a name, if the name goes on after it. -/
def region? (name : List Char) : Option (List Char) :=
  match longRegion? name with
  | some region => some region
  | none => if name.contains '/' then some (name.takeWhile (· != '/')) else none

def isSkippedZone (name : List Char) : Bool :=
  skippedZones.contains (String.ofList name) ||
    (skippedStart.isPrefixOf name &&
      match name.drop skippedStart.length with
      | [a, b] => isDecimal a && isDecimal b
      | _ => false)

/-- A name is skipped by a filtered selection. -/
def isSkipped (name : String) : Bool :=
  let cs := name.toList
  isSkippedZone cs || ((region? cs).all isSkippedRegion && !keptNames.contains name)

end Selection

/-- Which names are selected. An empty list asks for all of them. -/
structure Selection where
  single : Option String
  filtered : Bool
  included : List String
deriving DecidableEq

namespace Selection

def selects (s : Selection) (name : String) : Bool :=
  s.single.all (· == name) && (s.included.isEmpty || s.included.contains name) &&
    !(s.filtered && isSkipped name)

/-- The selected names in ascending order. One that is asked for must be among them. -/
def select (s : Selection) (db : Database) : Except UnknownZone (List String) :=
  let names := db.names.filter s.selects
  match s.single with
  | some name => if names.isEmpty then .error ⟨name⟩ else .ok names
  | none => .ok names

end Selection
end ZoneTables
