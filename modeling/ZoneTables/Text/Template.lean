import ZoneTables.Text.Numeral

/-!
# Templates

A template is a text in which a directive stands for a number. A directive starts with a percent
sign, ends with the letter of a notation, and between them may ask for a least width and for how the
number is brought to it. Two percent signs stand for one.
-/

namespace ZoneTables.Text

/-- How a number is written. -/
inductive Form where
  /-- As a decimal number. -/
  | decimal
  /-- In another base, with a mark before it on demand. -/
  | inBase (base : Nat) (mark : List Char) (isUpper : Bool)
  /-- As text, which is not brought to a width with zeros. -/
  | plain

namespace Form

def ofLetter? : Char → Option Form
  | 'd' | 'i' | 'u' => some .decimal
  | 's' | 'r' | 'a' => some .plain
  | 'x' => some (.inBase 16 ['0', 'x'] false)
  | 'X' => some (.inBase 16 ['0', 'X'] true)
  | 'o' => some (.inBase 8 ['0', 'o'] false)
  | _ => none

end Form

structure Directive where
  /-- The characters after the percent sign that say how the number is brought to its width. -/
  flags : List Char
  width : Nat
  /-- The least number of digits, or the greatest number of characters of text. -/
  precision : Option Nat
  form : Form

namespace Directive

/-- What follows a point and digits, if there is a point. -/
def afterPrecision (text : List Char) : List Char :=
  match text with
  | '.' :: r => r.dropWhile Char.isDigit
  | r => r

/-- The number that ASCII digits at the front of a text write; zero if there are none. -/
def leadingNumber (text : List Char) : Nat :=
  Positional.value 10 ((text.takeWhile Char.isDigit).map fun d => d.toNat - 48)

/-- The directive after a percent sign, and what follows it. -/
def read? (text : List Char) : Option (Directive × List Char) :=
  let isFlag : Char → Bool := ['-', '+', ' ', '#', '0'].contains
  let afterFlags := text.dropWhile isFlag
  let afterWidth := afterFlags.dropWhile Char.isDigit
  match afterPrecision afterWidth with
  | c :: rest =>
    (Form.ofLetter? c).map fun form =>
      ({ flags := text.takeWhile isFlag
         width := leadingNumber afterFlags
         precision := if afterWidth.head? = some '.' then some (leadingNumber (afterWidth.drop 1))
           else none
         form }, rest)
  | [] => none

theorem length_afterPrecision_le (text : List Char) :
    (afterPrecision text).length ≤ text.length := by
  unfold afterPrecision
  split
  · rename_i r
    have := (List.dropWhile_sublist Char.isDigit (l := r)).length_le
    simp only [List.length_cons]
    omega
  · exact Nat.le_refl _

/-- Something is left out before what follows a directive. -/
theorem length_lt_of_read? {text rest : List Char} {d : Directive}
    (h : read? text = some (d, rest)) : rest.length < text.length := by
  simp only [read?] at h
  split at h
  · rename_i c r hr
    obtain ⟨form, -, hd⟩ := Option.map_eq_some_iff.1 h
    obtain ⟨-, rfl⟩ := Prod.mk.inj hd
    have h1 := length_afterPrecision_le
      ((text.dropWhile ['-', '+', ' ', '#', '0'].contains).dropWhile Char.isDigit)
    have h2 := (List.dropWhile_sublist Char.isDigit
      (l := text.dropWhile ['-', '+', ' ', '#', '0'].contains)).length_le
    have h3 := (List.dropWhile_sublist ['-', '+', ' ', '#', '0'].contains (l := text)).length_le
    rw [hr, List.length_cons] at h1
    omega
  · cases h

/-- The digits of a number in a base. -/
def digitsIn (base n : Nat) (isUpper : Bool) : List Char :=
  let ds := if n = 0 then ['0'] else (Positional.digits base n).map hexDigit
  if isUpper then ds.map Char.toUpper else ds

/-- What a directive puts in the place of a number: the digits, and before them a sign and the mark
of the base. -/
def write (d : Directive) (n : Nat) : List Char :=
  let has := d.flags.contains
  let sign := if has '+' then ['+'] else if has ' ' then [' '] else []
  let withZeros (ds : List Char) := List.replicate (d.precision.getD 0 - ds.length) '0' ++ ds
  let (before, body, isNumber) :=
    match d.form with
    | .decimal => (sign, withZeros (natural n), true)
    | .inBase base mark isUpper =>
      (sign ++ (if has '#' then mark else []), withZeros (digitsIn base n isUpper), true)
    | .plain => ([], (natural n).take (d.precision.getD (natural n).length), false)
  let missing := d.width - before.length - body.length
  if has '-' then before ++ body ++ List.replicate missing ' '
  else if has '0' && isNumber then before ++ List.replicate missing '0' ++ body
  else List.replicate missing ' ' ++ before ++ body

end Directive

/-- A template with a number in the places of its directives. -/
def fillIn (n : Nat) (text : List Char) : List Char :=
  match text with
  | [] => []
  | '%' :: '%' :: r => '%' :: fillIn n r
  | '%' :: r =>
    match _h : Directive.read? r with
    | some (d, rest) => d.write n ++ fillIn n rest
    | none => '%' :: fillIn n r
  | c :: r => c :: fillIn n r
termination_by text.length
decreasing_by
  · simp only [List.length_cons]
    omega
  · have := Directive.length_lt_of_read? _h
    simp only [List.length_cons]
    omega
  all_goals simp

end ZoneTables.Text
