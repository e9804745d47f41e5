import ZoneTables.Output.Catalog
import ZoneTables.Output.JsonText
import ZoneTables.Timeline.Listing

/-!
# Output

A catalogue is written as the body of a JavaScript object, as a JSON object, or as the listings of
its timelines.
-/

namespace ZoneTables

inductive OutputMode where
  | js
  | json
  | text
deriving DecidableEq

namespace OutputMode

def name : OutputMode → String
  | js => "js"
  | json => "json"
  | text => "text"

def ofName? (text : String) : Option OutputMode := [js, json, .text].find? (·.name == text)

def unknownMessage (text : String) : String := s!"Unknown output mode {text}"

def defaultFile : OutputMode → String
  | js => "timezones.js"
  | json => "timezones.json"
  | text => "timezones.txt"

end OutputMode

namespace Catalog

/-- The lines of a JavaScript object: its opening with the description, a line for each name, and
its closing. -/
def renderJs (c : Catalog) : String :=
  let entries := c.zonesMap.entries.map fun (name, value) => "  '" ++ name ++ "': '" ++ value ++ "'"
  s!"  \x7b // {c.description}\n" ++
    (if entries.isEmpty then "" else ",\n".intercalate entries ++ "\n") ++ "  \x7d;\n"

def renderJson (c : Catalog) : String := JsonText.object c.zonesMap.entries ++ "\n"

/-- The listings of the timelines of names, each followed by two empty lines. A name whose table is
that of another has the listing of the other. -/
def renderText (c : Catalog) (names : List String) (timelines : Registry Timeline) : String :=
  String.join <| names.filterMap fun name =>
    (timelines.get? ((c.duplicates.lookup name).getD name)).map fun t => t.listing ++ "\n\n"

/-- A catalogue in an output mode. -/
def render (c : Catalog) (mode : OutputMode) (names : List String)
    (timelines : Registry Timeline) : String :=
  match mode with
  | .js => c.renderJs
  | .json => c.renderJson
  | .text => c.renderText names timelines

end Catalog
end ZoneTables
