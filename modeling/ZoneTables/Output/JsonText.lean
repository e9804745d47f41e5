import ZoneTables.Text.Quoted

/-!
# JSON text

Strings and objects of strings as JSON. Strings are in ASCII: other characters are written as their
UTF-16 units.
-/

namespace ZoneTables.JsonText

/-- The UTF-16 units of a character. -/
def units (c : Char) : List Nat :=
  let n := c.toNat
  if n < 0x10000 then [n]
  else [0xD800 + (n - 0x10000) / 0x400, 0xDC00 + (n - 0x10000) % 0x400]

def escaped (c : Char) : List Char :=
  if c = '"' then ['\\', '"']
  else if c = '\\' then ['\\', '\\']
  else if c = '\n' then ['\\', 'n']
  else if c = '\r' then ['\\', 'r']
  else if c = '\t' then ['\\', 't']
  else if c.toNat = 8 then ['\\', 'b']
  else if c.toNat = 12 then ['\\', 'f']
  else if 32 ≤ c.toNat ∧ c.toNat < 127 then [c]
  else (units c).flatMap fun u => '\\' :: 'u' :: Text.hexadecimal 4 u

/-- A string between double quotes. -/
def string (text : String) : String :=
  String.ofList ('"' :: text.toList.flatMap escaped ++ ['"'])

/-- An object with a line for each field, indented by two spaces. -/
def object (fields : List (String × String)) : String :=
  if fields.isEmpty then "\x7b\x7d"
  else
    "\x7b\n" ++
      ",\n".intercalate (fields.map fun (name, value) => s!"  {string name}: {string value}") ++
      "\n\x7d"

end ZoneTables.JsonText
