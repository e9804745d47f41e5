/-!
# Bytes

Parts of a file as lists of bytes, and the integers that big-endian bytes hold. A position below
zero counts from the end of the file.
-/

namespace ZoneTables

abbrev Bytes := List UInt8

namespace Bytes

/-- The number that big-endian bytes hold. -/
def toNat (bs : Bytes) : Nat :=
  bs.foldl (fun n b => n * 256 + b.toNat) 0

/-- The number that big-endian bytes hold in two's complement. -/
def toInt (bs : Bytes) : Int :=
  let n := toNat bs
  let size := 1 <<< (8 * bs.length)
  if 2 * n < size then n else (n : Int) - size

/-- A position within a file of the given length, or at its nearer end. -/
def place (length : Nat) (position : Int) : Nat :=
  if position < 0 then (length + position).toNat else min position.toNat length

/-- The bytes from one position up to another; none if that comes first. -/
def slice (bs : Bytes) (first last : Int) : Bytes :=
  (bs.take (place bs.length last)).drop (place bs.length first)

/-- So many bytes from a position on, if the file holds all of them. -/
def field? (bs : Bytes) (position : Int) (size : Nat) : Option Bytes :=
  let start := if position < 0 then bs.length + position else position
  if start < 0 ∨ bs.length < start + size then none else some ((bs.drop start.toNat).take size)

/-- Bytes in groups of `size`, as far as they fill groups. -/
def groups (size : Nat) (bs : Bytes) : List Bytes :=
  (List.range (bs.length / size)).map fun i => (bs.drop (i * size)).take size

end Bytes
end ZoneTables
