import ZoneTables.Text.Utf8
import ZoneTables.Tzif.Footer

/-!
# Errors of local clocks

Why a file describes no local clock, or a clock does not show an instant.
-/

namespace ZoneTables.Tzif

inductive ClockError where
  | magic
  /-- The version is no digit; there is none at the end of the file. -/
  | version (byte : Option UInt8)
  /-- The file ends before a field does. -/
  | ended
  /-- The size of a field is negative. -/
  | negativeSize
  /-- A field is before the start of the file. -/
  | beforeStart
  /-- The number of types is negative. -/
  | typeCount
  /-- An abbreviation is not in UTF-8. -/
  | name (fault : Text.Utf8.Fault)
  /-- No line end stands before the footer. -/
  | noFooter
  /-- A transition's type is not among the types. -/
  | typeIndex
  /-- The amount of daylight saving depends on a transition after the last one. -/
  | noNext
  /-- The footer is not in UTF-8. -/
  | footerText (fault : Text.Utf8.Fault)
  | footer (error : Footer.Error)
  | noTypes
  /-- The transitions are not in the order of their times. -/
  | unordered
  /-- The instant is not in the years 1 to 9999, or a number is above all of binary64. -/
  | outOfRange
  /-- The offset is a day or more. -/
  | offset
deriving DecidableEq

namespace ClockError

def message : ClockError → String
  | magic => "Invalid TZif file: magic not found"
  | version byte =>
    "invalid literal for int() with base 10: " ++ String.ofList (Text.quotedBytes byte.toList)
  | ended => "unpack requires a longer buffer"
  | negativeSize => "read length must be non-negative or -1"
  | beforeStart => "Invalid argument"
  | typeCount => "not enough values to unpack (expected 3, got 0)"
  | name fault | footerText fault => fault.message
  | noFooter => "no line end before the footer"
  | typeIndex | noNext => "index out of range"
  | footer error => error.message
  | noTypes => "No time zone information found."
  | unordered => "not enough values to unpack (expected 2, got 0)"
  | outOfRange => "date value out of range"
  | offset =>
    "offset must be a timedelta strictly between -timedelta(hours=24) and timedelta(hours=24)."

end ClockError
end ZoneTables.Tzif
