import ZoneTables.Remarks

/-!
# Catalogues of tables

A catalogue holds the compact tables of a batch with the settings that they were made with, in the
order of their names.
-/

namespace ZoneTables

structure Catalog where
  version : String
  startYear : Option Int
  untilYear : Option Int
  toMinutes : Bool
  filtered : Bool
  fix : Bool
  /-- The distinct tables by name. -/
  tables : List (String × String)
  /-- The other names, with the name that has the same table. -/
  duplicates : List (String × String)
  notable : List (String × List String)
  remarks : List (String × List Remark)

namespace Catalog

/-- The number of distinct tables. -/
def uniqueCount (c : Catalog) : Nat := c.tables.length

/-- The number of names. -/
def count (c : Catalog) : Nat := c.tables.length + c.duplicates.length

/-- A year, or empty brackets where none is given. -/
def yearText (year : Option Int) : String := year.elim "[]" toString

/-- The settings of a catalogue in a line. -/
def description (c : Catalog) : String :=
  s!"tz database version: {c.version}, years {yearText c.startYear}-{yearText c.untilYear}" ++
    (if c.toMinutes then ", rounded to nearest minute" else "") ++
    (if c.filtered then ", filtered" else "") ++
    (if c.fix then ", calendar rollbacks eliminated" else "")

/-- The tables under their names, and then the names of duplicates with the names that have their
tables. -/
def zonesMap (c : Catalog) : Registry String :=
  Registry.ofList (c.tables ++ c.duplicates)

end Catalog

/-- The settings of a batch that its catalogue tells. -/
structure CatalogSettings where
  version : String
  startYear : Option Int
  untilYear : Option Int
  toMinutes : Bool
  filtered : Bool
  fix : Bool

/-- The catalogue of tables and remarks, in the order of their names. -/
def Catalog.ofTables (s : CatalogSettings) (tables duplicates : Registry String) (notable : Notes)
    (remarks : Remarks) : Catalog where
  version := s.version
  startYear := s.startYear
  untilYear := s.untilYear
  toMinutes := s.toMinutes
  filtered := s.filtered
  fix := s.fix
  tables := tables.sorted
  duplicates := duplicates.sorted
  notable := notable.ordered
  remarks := remarks.sorted

end ZoneTables
