import ZoneTables.Table.Encode
import ZoneTables.Timeline.Matching

/-!
# Compact tables, read

The sections of a compact table are read back into a timeline. The rules at its end are not needed
for that. A table of one section does not tell the name; its daylight saving is what the first
offset is ahead of the standard one.
-/

namespace ZoneTables.Table

open Text

/-- Why a text is no table. -/
inductive DecodeError where
  /-- The header has not three fields. -/
  | header (text : List Char)
  | offset (error : OffsetNotation.Error)
  | minutes (error : Numeral.Error)
  /-- The table has two or three sections, or no kinds of local time. -/
  | table (text : List Char)
  /-- A kind of local time has no slash. -/
  | kind (text : List Char)
  | digits (error : Base60.Error)
  /-- The third and the fourth section do not go together. -/
  | lengths (kinds times : Nat)
  /-- There is no kind of that digit. -/
  | index (digit : Char) (kinds : Nat)
  /-- A difference from a timeline cannot be reported. -/
  | report (error : Numeral.Error)
deriving DecidableEq

namespace DecodeError

def quote (text : List Char) : String := "\"" ++ String.ofList text ++ "\""

def message : DecodeError → String
  | header text => s!"Invalid compact table header {quote text}"
  | offset error => error.message
  | minutes error | report error => error.message
  | table text => s!"Invalid compact table {quote text}"
  | kind text => s!"Invalid offset entry {quote text}"
  | digits error => error.message
  | lengths kinds times => s!"Index string length {kinds} != {times} delta times"
  | index digit kinds => s!"Invalid offset index {digit}: only {kinds} offsets"

end DecodeError

/-- A kind of local time: offset, daylight saving and name. -/
structure Kind where
  utcOffset : Int
  dstOffset : Int
  name : Option String
deriving DecidableEq

/-- A change to a kind of local time. -/
def Kind.transition (k : Kind) (time : Int) : Transition :=
  ⟨time, k.utcOffset, k.dstOffset, k.name, none⟩

/-- The first offset, the standard offset beyond the end, and daylight saving there. -/
def readHeader (text : List Char) : Except DecodeError (Int × Int × Int) :=
  match words text with
  | [first, std, dst] => do
    let first ← (OffsetNotation.read first).mapError .offset
    let std ← (OffsetNotation.read std).mapError .offset
    let minutes ← (Numeral.read dst).mapError .minutes
    return (first, std, minutes * 60)
  | _ => .error (.header text)

/-- A number of seconds in base-60 minutes. -/
def readMinutes (text : List Char) : Except DecodeError Int :=
  (Base60.readMinutes text).mapError .digits

def readKind (text : List Char) : Except DecodeError Kind :=
  match cutAtMost (· == '/') 2 text with
  | utc :: dst :: name => do
    let utcOffset ← readMinutes utc
    let dstOffset ← readMinutes dst
    return ⟨utcOffset, dstOffset, name.head?.map String.ofList⟩
  | _ => .error (.kind text)

/-- The kind that a digit tells. -/
def readIndex (kinds : List Kind) (digit : Char) : Except DecodeError Kind := do
  let index ← (Base60.read [digit]).mapError .digits
  match if index < 0 then none else kinds[index.toNat]? with
  | some kind => .ok kind
  | none => .error (.index digit kinds.length)

/-- The transitions of digits and times between them, the first of them since `last`. -/
def readChanges (kinds : List Kind) (last : Int) :
    List (Char × List Char) → Except DecodeError (List Transition)
  | [] => .ok []
  | (digit, delta) :: rest => do
    let kind ← readIndex kinds digit
    let time := last + (← readMinutes delta)
    return kind.transition time :: (← readChanges kinds time rest)

/-- The timeline of a table. -/
def decode (zone : Option String) (text : List Char) : Except DecodeError Timeline := do
  let sections := cut (· == ';') text
  let (first, std, dst) ← readHeader (sections.headD [])
  let timeline (ts : List Transition) : Timeline :=
    { Timeline.ofTransitions zone ts with nominal := some (std, dst) }
  match sections.drop 1 with
  | [] => return timeline [⟨beginningOfTime, first, first - std, none, none⟩]
  | kindTexts :: indexes :: times :: _ =>
    match ← (words kindTexts).mapM readKind with
    | [] => .error (.table text)
    | kind :: kinds =>
      let times := words times
      if indexes.length ≠ times.length then .error (.lengths indexes.length times.length)
      else
        let changes ← readChanges (kind :: kinds) 0 (indexes.zip times)
        return timeline (kind.transition beginningOfTime :: changes)
  | _ => .error (.table text)

/-- A table reads back as the timeline that it was made from. A table of one section does not tell
the name. -/
def validate (table : List Char) (t : Timeline) : Log × Except DecodeError Bool :=
  match decode t.zone table with
  | .error e => ([], .error e)
  | .ok decoded =>
    let (log, result) :=
      matchesExactly t.zone (1 < t.transitions.length) t.transitions decoded.transitions
    (log, result.mapError .report)

end ZoneTables.Table
