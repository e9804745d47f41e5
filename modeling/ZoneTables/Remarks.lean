import ZoneTables.Batch

/-!
# Remarks

The notes of all stages of a batch are brought together, and the remarks about a zone are shown
with its links too.
-/

namespace ZoneTables

/-- A remark about a name: a reason, or the reasons that its zone has. -/
inductive Remark where
  | reason (text : String)
  | ofZone (zone : String) (reasons : List String)
deriving DecidableEq

namespace Remark

/-- The number of reasons that a remark gives. -/
def count : Remark → Nat
  | reason _ => 1
  | ofZone _ reasons => reasons.length

end Remark

/-- The remarks about each name. -/
abbrev Remarks := Registry (List Remark)

namespace Remarks

/-- The remark about the zone of a link, after those about the link itself. -/
def addLink (notes : Notes) (remarks : Remarks) (link zone : String) : Remarks :=
  match notes.get? zone with
  | none => remarks
  | some reasons =>
    remarks.update link fun old =>
      old.getD [] ++ [.ofZone zone (reasons.mergeSort (· ≤ ·))]

/-- The remarks about the names of notes and about their links. -/
def ofNotes (notes : Notes) (links : Registry String) : Remarks :=
  let own := notes.ordered.foldl (fun remarks (name, reasons) =>
    remarks.put name (reasons.map Remark.reason)) (∅ : Remarks)
  links.sorted.foldl (fun remarks (link, zone) => addLink notes remarks link zone) own

/-- The number of reasons in all. -/
def count (remarks : Remarks) : Nat :=
  (remarks.entries.flatMap (·.2)).foldl (fun n r => n + r.count) 0

def summary (remarks : Remarks) : Log :=
  [.info s!"Zones: {remarks.size}; Comments: {remarks.count}"]

end Remarks

namespace Batch

/-- The links among the timelines of a batch, with their zones. -/
def Result.links (r : Result) : Registry String :=
  r.timelines.entries.foldl (fun links (name, t) =>
    match t.aliasFor with
    | some zone => links.put name zone
    | none => links) ∅

/-- The notes of all stages together. -/
def Result.allNotes (r : Result) : Notes :=
  ((r.notable.merge r.validation).merge r.rollback).merge r.tableNotes

/-- The notes of all stages put together, and the remarks that they make. -/
def Result.mergeNotes (r : Result) : Result × Remarks :=
  let r := { r with notable := r.allNotes }
  (r, Remarks.ofNotes r.notable r.links)

end Batch
end ZoneTables
