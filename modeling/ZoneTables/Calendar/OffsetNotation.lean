import ZoneTables.Text.Numeral

/-!
# Offset notation

Offsets from UTC are written as a sign, hours and minutes, and seconds if there are any: `-0500`,
`+005736`. A reader also takes `0`, and `1` for an hour.
-/

namespace ZoneTables.OffsetNotation

/-- An offset as `+HHMM` or `+HHMMSS`. Hours have as many digits as they need, and at least two. -/
def write (offset : Int) : List Char :=
  let n : Int := offset.natAbs
  (if offset < 0 then '-' else '+') :: Text.padded 2 (n / 3600) ++ Text.padded 2 (n % 3600 / 60) ++
    (if n % 60 = 0 then [] else Text.padded 2 (n % 60))

/-- Why a text is no offset. -/
inductive Error where
  /-- The text, less its sign, has not the form of an offset. -/
  | malformed (text : List Char)
  /-- A field has digits that are not decimal. -/
  | field (error : Text.Numeral.Error)
deriving DecidableEq

def Error.message : Error → String
  | malformed text => s!"Invalid offset notation '{String.ofList text}'"
  | field error => error.message

/-- A field of two digits. -/
def readField (cs : List Char) : Except Error Int :=
  (Text.Numeral.read cs).mapError .field

/-- The seconds of an offset without its sign. -/
def readMagnitude (cs : List Char) : Except Error Int :=
  if cs = ['0'] then .ok 0
  else if cs = ['1'] then .ok 3600
  else if (cs.length ≠ 4 ∧ cs.length ≠ 6) ∨ !Text.isDigits cs then .error (.malformed cs)
  else do
    let hours ← readField (cs.take 2)
    let minutes ← readField ((cs.drop 2).take 2)
    let seconds ← if cs.length = 6 then readField (cs.drop 4) else pure 0
    return 3600 * hours + 60 * minutes + seconds

/-- The offset that a text denotes. -/
def read : List Char → Except Error Int
  | '-' :: cs => do return -(← readMagnitude cs)
  | '+' :: cs => readMagnitude cs
  | cs => readMagnitude cs

end ZoneTables.OffsetNotation
