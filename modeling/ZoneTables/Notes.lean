import ZoneTables.Log
import ZoneTables.Registry
import ZoneTables.Text.Template

/-!
# Notes

Notes are remarks about zones: under each name a set of reasons. The sets are kept as lists without
repetitions, and every output shows them in ascending order.
-/

namespace ZoneTables

abbrev Notes := Registry (List String)

namespace Notes

/-- The reasons with one more, unless it is there already. -/
def insertReason (reasons : List String) (reason : String) : List String :=
  if reason ∈ reasons then reasons else reasons ++ [reason]

def add (notes : Notes) (name reason : String) : Notes :=
  notes.update name fun old => insertReason (old.getD []) reason

/-- The notes with all of `new` added. A name without reasons is added as well. -/
def merge (notes new : Notes) : Notes :=
  new.entries.foldl (fun notes (name, reasons) =>
    notes.update name fun old => reasons.foldl insertReason (old.getD [])) notes

/-- Names and reasons in ascending order. -/
def ordered (notes : Notes) : List (String × List String) :=
  notes.sorted.map fun (name, reasons) => (name, reasons.mergeSort (· ≤ ·))

/-- The line of a summary for one name. -/
def line (name : String) (reasons : List String) : Message :=
  .info s!"- {name} ({Text.quotedList reasons})"

/-- The lines of a summary: all of them, or if they are more than `limit`, the first and the last
few, with a mark where others are left out. -/
def summaryLines (limit : Int) (entries : List (String × List String)) : Log :=
  let lines := entries.map fun (name, reasons) => line name reasons
  if lines.length ≤ limit then lines
  else
    let shown := (limit - 1) / 2
    lines.take shown.toNat ++ .info "- [...]" :: lines.drop (lines.length - shown).toNat

/-- The heading, a template for the number of names, and the names with their reasons. Nothing is
said about empty notes. -/
def summary (heading : String) (limit : Int) (notes : Notes) : Log :=
  if notes.entries.isEmpty then []
  else
    .info (String.ofList (Text.fillIn notes.size heading.toList)) ::
      summaryLines limit notes.ordered

/-- The number of names that a summary shows unless told otherwise. -/
def defaultLimit : Int := 5

end Notes
end ZoneTables
