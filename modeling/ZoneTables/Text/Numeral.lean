import ZoneTables.Positional
import ZoneTables.Text.Blank
import ZoneTables.Text.Digit
import ZoneTables.Text.Quoted

/-!
# Numerals

The decimal notation of integers, written and read. A numeral that is read may have a sign, digits
of any script, single underscores between digits, and blanks around it, but at most `maxDigits`
digits.
-/

namespace ZoneTables.Text

open Positional

/-- The ASCII digit of a value below ten. -/
def decimalDigit (d : Nat) : Char :=
  Char.ofNat (d + 48)

/-- The decimal numeral of a natural number. -/
def natural (n : Nat) : List Char :=
  if n = 0 then ['0'] else (digits 10 n).map decimalDigit

/-- The decimal numeral of an integer. -/
def integer (n : Int) : List Char :=
  (if n < 0 then ['-'] else []) ++ natural n.natAbs

/-- The decimal numeral of an integer with zeros after the sign up to `width` characters, the sign
being one of them. -/
def padded (width : Nat) (n : Int) : List Char :=
  let sign := if n < 0 then ['-'] else []
  let ds := natural n.natAbs
  sign ++ List.replicate (width - sign.length - ds.length) '0' ++ ds

namespace Numeral

/-- Why a text is no numeral. -/
inductive Error where
  /-- The text has another form. -/
  | malformed (text : List Char)
  /-- The text has more digits than are read. -/
  | tooLong (count : Nat)
  /-- The number has more digits than are written. -/
  | unwritable
deriving DecidableEq

/-- Numerals with more digits are refused, and not written in reports. -/
def maxDigits : Nat := 4300

/-- Numerals quoted in a message are cut to this many characters. -/
def maxQuoted : Nat := 200

def Error.message : Error → String
  | malformed text =>
    "invalid literal for int() with base 10: " ++ String.ofList ((quoted text).take maxQuoted)
  | tooLong count =>
    s!"Exceeds the limit ({maxDigits} digits) for integer string conversion: " ++
      s!"value has {count} digits; use sys.set_int_max_str_digits() to increase the limit"
  | unwritable =>
    s!"Exceeds the limit ({maxDigits} digits) for integer string conversion; " ++
      "use sys.set_int_max_str_digits() to increase the limit"

/-- A number has no more digits than are written. -/
def isWritable (n : Int) : Bool := n.natAbs < Nat.pow 10 maxDigits

/-- Blanks that may surround a numeral: all but the ASCII separators. -/
def isMargin (c : Char) : Bool :=
  isBlank c && !(28 ≤ c.toNat && c.toNat ≤ 31)

/-- The digits of a run in which an underscore stands between digits only. The flag tells whether
a digit came just before. -/
def readRun (afterDigit : Bool) : List Char → Option (List Nat)
  | [] => if afterDigit then some [] else none
  | c :: r =>
    match digitValue? c with
    | some d => (readRun true r).map (d :: ·)
    | none => if c = '_' ∧ afterDigit then readRun false r else none

/-- The integer that a text denotes. A run of too many digits is reported before whatever follows
it is looked at. -/
def read (text : List Char) : Except Error Int :=
  let (negative, body) := splitSign (trim isMargin text)
  let (run, rest) := body.span fun c => (digitValue? c).isSome || c == '_'
  match readRun false run with
  | none => .error (.malformed text)
  | some ds =>
    if maxDigits < ds.length then .error (.tooLong ds.length)
    else if rest.isEmpty then
      .ok (if negative then -(value 10 ds : Int) else value 10 ds)
    else .error (.malformed text)

end Numeral
end ZoneTables.Text
