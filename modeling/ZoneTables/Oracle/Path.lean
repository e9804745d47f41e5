import ZoneTables.Text.Cut
import ZoneTables.Tzif.Bytes

/-!
# Paths of zone files

A zone's file is found under a directory by the name of the zone. A name may serve as a key into a
zone directory only if it is a relative path in normal form that stays inside the directory.
-/

namespace ZoneTables

/-- The contents of files by path; directories have none. -/
abbrev Files := String → Option Bytes

namespace Path

/-- The path of a name under a directory. -/
def join (directory name : String) : String :=
  if name.startsWith "/" then name
  else if directory.isEmpty ∨ directory.endsWith "/" then directory ++ name
  else directory ++ "/" ++ name

/-- The parts of a relative path that are left when empty parts and dots are dropped and each pair
of dots takes away the part before it, if there is one. -/
def normalParts (parts : List (List Char)) : List (List Char) :=
  let step (kept : List (List Char)) (part : List Char) : List (List Char) :=
    if part = [] ∨ part = ['.'] then kept
    else if part ≠ ['.', '.'] ∨ kept.isEmpty ∨ kept.head? = some ['.', '.'] then part :: kept
    else kept.drop 1
  (parts.foldl step []).reverse

/-- Why a name is no key of a zone directory. -/
inductive KeyError where
  | absolute (name : String)
  | notNormal (name : String)
  | outside (name : String)
deriving DecidableEq

def KeyError.message : KeyError → String
  | absolute name => s!"ZoneInfo keys may not be absolute paths, got: {name}"
  | notNormal name => s!"ZoneInfo keys must be normalized relative paths, got: {name}"
  | outside name => s!"ZoneInfo keys must refer to subdirectories of TZPATH, got: {name}"

/-- A relative path in normal form. No parts are written as a dot. -/
def ofNormalParts (parts : List (List Char)) : List Char :=
  if parts.isEmpty then ['.'] else Text.join ['/'] parts

/-- The directory that stands for a zone directory when it is checked that paths stay inside. -/
def exampleDirectory : List Char := ['_']

/-- A name is a key of a zone directory. A path that leaves the directory is inside again if it
enters one called like the example. -/
def checkKey (name : String) : Except KeyError Unit :=
  let parts := normalParts (Text.cut (· == '/') name.toList)
  if name.startsWith "/" then .error (.absolute name)
  else if (ofNormalParts parts).length ≠ name.length then .error (.notNormal name)
  else
    match normalParts (exampleDirectory :: parts) with
    | first :: _ :: _ => if first = exampleDirectory then .ok () else .error (.outside name)
    | _ => .error (.outside name)

end Path
end ZoneTables
