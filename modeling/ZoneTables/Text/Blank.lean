import ZoneTables.Text.Cut

/-!
# Blanks and line ends

A blank is a character with the Unicode property White_Space, or one of the four separators
U+001C to U+001F of ASCII. Words are the longest runs without a blank. Lines end at a line feed,
a carriage return, the two together, a vertical tab, a form feed, one of the first three ASCII
separators, U+0085, or the line and paragraph separators of Unicode.
-/

namespace ZoneTables.Text

def isBlank (c : Char) : Bool :=
  let n := c.toNat
  (9 ≤ n && n ≤ 13) || (28 ≤ n && n ≤ 32) || n == 0x85 || n == 0xA0 || n == 0x1680 ||
    (0x2000 ≤ n && n ≤ 0x200A) || n == 0x2028 || n == 0x2029 || n == 0x202F || n == 0x205F ||
    n == 0x3000

/-- The longest runs of characters that are no blanks. -/
def words (cs : List Char) : List (List Char) :=
  (cut isBlank cs).filter (!·.isEmpty)

/-- A carriage return and the line feed after it are one line end; all others are one character. -/
def endsLine (c : Char) : Bool :=
  let n := c.toNat
  (10 ≤ n && n ≤ 13) || (28 ≤ n && n ≤ 30) || n == 0x85 || n == 0x2028 || n == 0x2029

/-- The lines of a text without their ends. Nothing follows the end of the last line. -/
def lines : List Char → List (List Char)
  | [] => []
  | '\r' :: '\n' :: r => [] :: lines r
  | c :: r =>
    if endsLine c then [] :: lines r
    else
      match lines r with
      | [] => [[c]]
      | l :: ls => (c :: l) :: ls

/-- Carriage returns, alone or before a line feed, written as line feeds. -/
def unifyLineEnds : List Char → List Char
  | [] => []
  | '\r' :: '\n' :: r => '\n' :: unifyLineEnds r
  | c :: r => (if c == '\r' then '\n' else c) :: unifyLineEnds r

end ZoneTables.Text
