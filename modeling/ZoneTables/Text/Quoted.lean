import ZoneTables.Text.Printable

/-!
# Quoted text

Text between single quotes, or between double quotes if it holds a single quote and no double one.
A backslash stands before the closing quote's character and before another backslash; tabs, line
feeds and carriage returns have letters, and any other character that is not printable has its
hexadecimal code.
-/

namespace ZoneTables.Text

/-- A hexadecimal digit in lower case, for a value below sixteen. -/
def hexDigit (d : Nat) : Char :=
  Char.ofNat (if d < 10 then d + 48 else d + 87)

/-- The last `width` hexadecimal digits of a number. -/
def hexadecimal : Nat → Nat → List Char
  | 0, _ => []
  | width + 1, n => hexadecimal width (n / 16) ++ [hexDigit (n % 16)]

/-- A character inside quotes of the given kind. -/
def escaped (quote c : Char) : List Char :=
  if c == quote || c == '\\' then ['\\', c]
  else if c == '\t' then ['\\', 't']
  else if c == '\n' then ['\\', 'n']
  else if c == '\r' then ['\\', 'r']
  else if isPrintable c then [c]
  else if c.toNat < 0x100 then '\\' :: 'x' :: hexadecimal 2 c.toNat
  else if c.toNat < 0x10000 then '\\' :: 'u' :: hexadecimal 4 c.toNat
  else '\\' :: 'U' :: hexadecimal 8 c.toNat

/-- Text between quotes. -/
def quoted (cs : List Char) : List Char :=
  let quote := if cs.contains '\'' && !cs.contains '"' then '"' else '\''
  quote :: cs.flatMap (escaped quote) ++ [quote]

/-- Bytes between quotes, with a letter before them. Those beyond ASCII have their codes. -/
def quotedBytes (bytes : List UInt8) : List Char :=
  let cs := bytes.map fun b => Char.ofNat b.toNat
  let quote := if cs.contains '\'' && !cs.contains '"' then '"' else '\''
  let one (c : Char) : List Char :=
    if c.toNat < 0x80 then escaped quote c else '\\' :: 'x' :: hexadecimal 2 c.toNat
  'b' :: quote :: cs.flatMap one ++ [quote]

/-- A list of texts, each between quotes. -/
def quotedList (texts : List String) : String :=
  "[" ++ ", ".intercalate (texts.map fun t => String.ofList (quoted t.toList)) ++ "]"

end ZoneTables.Text
