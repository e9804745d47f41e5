import ZoneTables.Base60
import ZoneTables.Calendar.OffsetNotation
import ZoneTables.Table.Tail

/-!
# Compact tables, written

A compact table is a line of up to five sections between semicolons:

1. the first offset, the standard offset beyond the end, and the minutes of daylight saving there;
2. the distinct kinds of local time, each as offset, daylight saving and name between slashes;
3. for each transition but the first, a base-60 digit that tells its kind;
4. for each of them the base-60 minutes since the one before, the first since the epoch;
5. the rules that go on for ever, if there are any.

A timeline of one transition has the first section only.
-/

namespace ZoneTables.Table

open Text

/-- Why a timeline has no table. -/
inductive EncodeError where
  | empty (zone : Option String)
  | tooManyKinds (zone : Option String) (count : Nat)
  /-- A number has too many decimal digits to be written. -/
  | unwritable
deriving DecidableEq

/-- A kind of local time has one digit. -/
def maxKinds : Nat := 60

def EncodeError.message : EncodeError → String
  | empty zone => s!"{label zone}: cannot encode empty list"
  | tooManyKinds zone count => s!"{label zone}: {count} unique offsets, more than {maxKinds}"
  | unwritable => Numeral.Error.unwritable.message

/-- The kind of local time that starts at a transition. -/
def kind (t : Transition) : List Char :=
  Base60.writeMinutes t.utcOffset ++ '/' :: Base60.writeMinutes t.dstOffset ++
    match t.name with
    | some name => if name.isEmpty then [] else '/' :: name.toList
    | none => []

def header (first : Transition) (n : Nominal) : List Char :=
  join [' '] [OffsetNotation.write first.utcOffset, OffsetNotation.write n.stdOffset,
    integer (n.dstOffset / 60)]

/-- No number in a header is too long to be written. -/
def headerIsWritable (first : Transition) (n : Nominal) : Bool :=
  [(first.utcOffset.natAbs : Int) / 3600, (n.stdOffset.natAbs : Int) / 3600,
    n.dstOffset / 60].all Numeral.isWritable

/-- The times between transitions, the first of them since `last`. -/
def deltas (last : Int) : List Transition → List Int
  | [] => []
  | t :: ts => (t.time - last) :: deltas t.time ts

/-- The rules that go on for ever as they stand in a tail. -/
def tailRules? (fix : Bool) (n : Nominal) : Option (Rule × Rule) :=
  n.rules?.map fun (std, dst) => if fix then shiftFallBack n.stdOffset std dst else (std, dst)

/-- No number in a tail is too long to be written. -/
def tailIsWritable (fix : Bool) (n : Nominal) : Bool :=
  (tailRules? fix n).all fun (std, dst) => std.hasWritableTail && dst.hasWritableTail

/-- The section of the rules that go on for ever. -/
def tailSection (fix : Bool) (n : Nominal) : List (List Char) :=
  match tailRules? fix n with
  | none => []
  | some (std, dst) => [std.tail ++ ',' :: dst.tail]

/-- The table of a timeline. If `fix` says so, clocks are turned back at midnight at the earliest in
the tail too. -/
def encode (fix : Bool) (t : Timeline) : Except EncodeError (List Char) :=
  match t.transitions with
  | [] => .error (.empty t.zone)
  | first :: rest =>
    let n := Nominal.ofTimeline t
    if !headerIsWritable first n then .error .unwritable
    else if rest.isEmpty then .ok (header first n)
    else
      let kinds := (t.transitions.map kind).eraseDups
      if maxKinds < kinds.length then .error (.tooManyKinds t.zone kinds.length)
      else if !tailIsWritable fix n then .error .unwritable
      else
        .ok <| join [';'] <|
          [header first n, join [' '] kinds,
            rest.flatMap fun t => Base60.write (kinds.idxOf (kind t)),
            join [' '] ((deltas 0 rest).map Base60.writeMinutes)] ++ tailSection fix n

end ZoneTables.Table
