import ZoneTables.Tzif.Cursor
import ZoneTables.Tzif.Decode

/-!
# What local clocks take from a compiled zone file

The transitions, local time types and footer of a file, read from front to back. Unlike the reader
for timelines, this one takes the second block of a file of version 2 or later whatever the first
one holds, and the signs of flags and name indexes count.
-/

namespace ZoneTables.Tzif

open Bytes

/-- A local time type. Its flag is zero for standard time. -/
structure ClockType where
  utcOffset : Int
  flag : Int
deriving DecidableEq

structure ClockFile where
  /-- The instants of the transitions. -/
  times : List Int
  /-- The number of the type that starts at each. -/
  typeIndexes : List Nat
  types : List ClockType
  /-- The footer, which is empty if there is none. -/
  footer : Bytes
deriving DecidableEq

namespace ClockFile

/-- The version that a byte of a header stands for. -/
def versionOf? (b : UInt8) : Option Nat :=
  if b = 0 then some 1 else if 48 ≤ b ∧ b ≤ 57 then some (b.toNat - 48) else none

/-- A header and its version. -/
def readHeader (c : Cursor) : Except ClockError (Nat × Header × Cursor) := do
  let (bs, c) ← c.take headerSize
  if bs.take 4 ≠ magicBytes then .error .magic
  else
    match bs[4]?.bind versionOf? with
    | none => .error (.version bs[4]?)
    | some version =>
      if bs.length < headerSize then .error .ended else .ok (version, .ofBytes bs, c)

/-- A name starts at an index into the names, counted from their end if it is negative, and ends
before a zero byte. If there is none it lacks the last byte. -/
def readName (names : Bytes) (index : Int) : Except ClockError String :=
  let rest := names.drop (place names.length index)
  (Text.Utf8.decode (if rest.contains 0 then rest.takeWhile (· != 0) else rest.dropLast)).mapError
    .name

/-- A block with times of `timeSize` bytes, up to the end of its names. -/
def readBlock (timeSize : Nat) (h : Header) (c : Cursor) :
    Except ClockError (ClockFile × Cursor) := do
  let (times, c) ← c.takeExactly (h.timecnt * timeSize)
  let (typeIndexes, c) ← c.takeExactly h.timecnt
  if h.typecnt < 0 then .error .typeCount
  let (bytes, c) ← c.takeExactly (h.typecnt * 6)
  let types := groups 6 bytes
  let (names, c) ← c.take h.charcnt
  let _ ← types.mapM fun t => readName names (toInt (t.drop 5))
  let file :=
    { times := (groups timeSize times).map toInt
      typeIndexes := typeIndexes.map (·.toNat)
      types := types.map fun t => ⟨toInt (t.take 4), toInt ((t.drop 4).take 1)⟩
      footer := [] }
  return (file, c)

/-- The footer: the line after a line end. What stands before it is skipped. -/
def readFooter (h : Header) (c : Cursor) : Except ClockError Bytes := do
  let c ← c.move (h.isutcnt + h.isstdcnt + h.leapcnt * 12)
  match c.rest with
  | 10 :: line => return line.takeWhile (· != 10)
  | _ => .error .noFooter

def read (content : Bytes) : Except ClockError ClockFile := do
  let (version, h, c) ← readHeader (.start content)
  if version = 1 then
    let (file, _) ← readBlock 4 h c
    return file
  else
    let (version, h, c) ← readHeader (← c.move (h.blockSize 4))
    let (file, c) ← readBlock 8 h c
    if version < 2 then return file
    else return { file with footer := ← readFooter h c }

end ClockFile
end ZoneTables.Tzif
