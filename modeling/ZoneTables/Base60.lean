import ZoneTables.Positional
import ZoneTables.Text.Cut

/-!
# Base-60 numerals

The digits are `0` to `9`, `a` to `z` and `A` to `X`. A number of seconds is also written in
minutes, with one digit after a point for the sixtieths (`writeMinutes`), and read back
(`readMinutes`).
-/

namespace ZoneTables.Base60

open Positional

/-- The digit of a value below 60. -/
def digitChar (d : Nat) : Char :=
  Char.ofNat (if d < 10 then d + 48 else if d < 36 then d + 87 else d + 29)

/-- The first and last digit of each row, and the value of the first. -/
def rows : List (Char × Char × Nat) :=
  [('a', 'z', 10), ('A', 'X', 36), ('0', '9', 0)]

/-- The value of a digit. -/
def digitValue? (c : Char) : Option Nat :=
  (rows.find? fun (first, last, _) => first ≤ c && c ≤ last).map fun (first, _, value) =>
    c.toNat - first.toNat + value

/-- Why a number has no digit, or a text no value. -/
inductive Error where
  /-- No digit has this value. -/
  | outOfRange (value : Int)
  /-- The text is no digit. -/
  | notDigit (text : List Char)
  /-- Several characters stand where a digit is read, between the first and the last digit of a
  row in the order of texts. -/
  | notSingle
  /-- No digits are left to read. -/
  | empty
deriving DecidableEq

def Error.message : Error → String
  | outOfRange value => s!"x={value} out of range, cannot write base-60 digit"
  | notDigit text => s!"'{String.ofList text}' is not a base-60 digit"
  | notSingle => "a digit is a single character"
  | empty => "Empty base-60 number"

/-- The digit of a value. -/
def writeDigit (value : Int) : Except Error Char :=
  if value < 0 ∨ 59 < value then .error (.outOfRange value) else .ok (digitChar value.toNat)

/-- The value of a character that should be a digit. -/
def readDigit (c : Char) : Except Error Nat :=
  match digitValue? c with
  | some d => .ok d
  | none => .error (.notDigit [c])

/-- The value of a text that should be a digit. -/
def readDigitText (text : List Char) : Except Error Nat :=
  match text with
  | [c] => readDigit c
  | [] => .error (.notDigit [])
  | c :: _ =>
    if rows.any fun (first, last, _) => first ≤ c && c < last then .error .notSingle
    else .error (.notDigit text)

/-- The numeral of a natural number; none for zero. -/
def magnitude (n : Nat) : List Char :=
  (digits 60 n).map digitChar

/-- The numeral of an integer. -/
def write (x : Int) : List Char :=
  if x = 0 then ['0'] else (if x < 0 then ['-'] else []) ++ magnitude x.natAbs

/-- The numeral of a number of seconds in minutes, with a point and a digit for the seconds left
over, if any. -/
def writeMinutes (seconds : Int) : List Char :=
  let n := seconds.natAbs
  if n = 0 then ['0']
  else
    (if seconds < 0 then ['-'] else []) ++
      (if n < 60 then ['0'] else magnitude (n / 60)) ++
      (if n % 60 = 0 then [] else ['.', digitChar (n % 60)])

/-- The number that a text of digits writes. -/
def readMagnitude (text : List Char) : Except Error Nat :=
  if text.isEmpty then .error .empty
  else do return value 60 (← text.mapM readDigit)

/-- The integer that a text denotes. -/
def read (text : List Char) : Except Error Int := do
  let (negative, cs) := Text.splitSign text
  let n ← readMagnitude cs
  return if negative then -(n : Int) else n

/-- The digits of a numeral in minutes as those of a number of seconds: the digit after the point
is the last one, and zero if there is none. What follows that digit is not looked at. -/
def joinPoint (cs : List Char) : List Char :=
  cs.takeWhile (· != '.') ++ [((cs.dropWhile (· != '.')).drop 1).headD '0']

/-- The number of seconds that a text denotes in minutes. -/
def readMinutes (text : List Char) : Except Error Int := do
  let (negative, cs) := Text.splitSign text
  let n ← readMagnitude (joinPoint cs)
  return if negative then -(n : Int) else n

end ZoneTables.Base60
