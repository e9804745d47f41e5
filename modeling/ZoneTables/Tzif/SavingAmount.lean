import ZoneTables.Tzif.ClockFile

/-!
# Amounts of daylight saving

A file tells which local time types are daylight saving, but not by how much. The amounts are
inferred from the types of standard time that come before and after them.
-/

namespace ZoneTables.Tzif

/-- What a local clock is ahead of UTC, and how much of it is daylight saving. -/
structure Offsets where
  utc : Int
  dst : Int
deriving DecidableEq

namespace SavingAmount

/-- The amount of a type that no transition tells. -/
def default : Int := 3600

/-- What type `type`, whose number is `index`, is ahead of the type before it, if that is standard
time. If that tells nothing, the type after it is asked in the same way, unless `type` is the last
of the types. -/
def beside (types : List ClockType) (before : ClockType) (index : Nat) (type : ClockType)
    (next : Option Nat) : Except ClockError Int :=
  let ahead (other : ClockType) : Int :=
    if other.flag = 0 then type.utcOffset - other.utcOffset else 0
  if ahead before ≠ 0 ∨ types.length ≤ index + 1 then .ok (ahead before)
  else
    match next.bind (types[·]?) with
    | none => .error .noNext
    | some after => .ok (ahead after)

/-- The amounts by type, of which `found` are known so far, as the transitions tell them. Once there
are as many as the flags add up to, the others stay zero; otherwise they get the default at the
end. -/
def infer (types : List ClockType) (amounts : List Int) (found : Nat) :
    List Nat → Except ClockError (List Int)
  | before :: index :: rest =>
    if (types.map (·.flag)).sum = found then .ok amounts
    else
      match types[before]?, types[index]? with
      | some b, some type =>
        if type.flag = 0 ∨ amounts.getD index 0 ≠ 0 then infer types amounts found (index :: rest)
        else do
          let amount ← beside types b index type rest.head?
          infer types (amounts.set index amount) (if amount = 0 then found else found + 1)
            (index :: rest)
      | _, _ => .error .typeIndex
  | _ =>
    .ok <| types.zipWith
      (fun type amount => if amount = 0 ∧ type.flag ≠ 0 then default else amount) amounts

end SavingAmount

/-- The offsets of the types of a file. -/
def ClockFile.offsets (f : ClockFile) : Except ClockError (List Offsets) := do
  let amounts ← SavingAmount.infer f.types (f.types.map fun _ => 0) 0 f.typeIndexes
  return f.types.zipWith (⟨·.utcOffset, ·⟩) amounts

end ZoneTables.Tzif
