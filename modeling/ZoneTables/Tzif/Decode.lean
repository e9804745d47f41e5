import ZoneTables.Text.Utf8
import ZoneTables.Timeline.Basic
import ZoneTables.Tzif.Bytes

/-!
# Compiled zone files

A compiled zone file in the format TZif is a header of 44 bytes and a data block. From version 2 on
a second header and block follow, with times of 64 bits instead of 32, and these are read. A block
lists the times of transitions, the number of the local time type that starts at each, the types
themselves, and their abbreviations.
-/

namespace ZoneTables.Tzif

open Bytes

/-- Why bytes are no compiled zone file. -/
inductive Error where
  | headerTruncated
  | magic
  | noTypes
  | blockTruncated
  /-- A transition's type is not among the types. -/
  | typeIndex (index count : Nat)
  /-- A count is negative, or a field lies outside the file. -/
  | layout
  /-- An abbreviation is not in UTF-8. -/
  | name (fault : Text.Utf8.Fault)
deriving DecidableEq

def Error.message : Error → String
  | headerTruncated => "TZif header truncated"
  | magic => "zoneinfo file did not contain magic header"
  | noTypes => "Local time records in block is zero"
  | blockTruncated => "TZif data block truncated"
  | typeIndex index count => s!"Local time type {index} out of bounds {count}"
  | layout => "field outside of the file"
  | name fault => fault.message

structure Header where
  version : UInt8
  isutcnt : Int
  isstdcnt : Int
  leapcnt : Int
  timecnt : Int
  typecnt : Int
  charcnt : Int
deriving DecidableEq

def headerSize : Nat := 44

def magicBytes : Bytes := [0x54, 0x5A, 0x69, 0x66]

/-- The size of the block after a header. Leap seconds take four bytes besides their time. -/
def Header.blockSize (h : Header) (timeSize : Nat) : Int :=
  h.timecnt * timeSize + h.timecnt + h.typecnt * 6 + h.charcnt + h.leapcnt * (timeSize + 4) +
    h.isstdcnt + h.isutcnt

/-- The header in its bytes. -/
def Header.ofBytes (bs : Bytes) : Header :=
  let count (i : Nat) : Int := toInt ((bs.drop (20 + 4 * i)).take 4)
  { version := bs.getD 4 0, isutcnt := count 0, isstdcnt := count 1, leapcnt := count 2
    timecnt := count 3, typecnt := count 4, charcnt := count 5 }

def readHeader (content : Bytes) (position : Int) : Except Error Header :=
  let bs := slice content position (position + headerSize)
  if bs.length ≠ headerSize then .error .headerTruncated
  else if bs.take 4 ≠ magicBytes then .error .magic
  else
    let h := Header.ofBytes bs
    if h.typecnt = 0 then .error .noTypes else .ok h

/-- A local time type: its offset, whether it is daylight saving, and where its name starts. -/
structure LocalType where
  utcOffset : Int
  isDst : Bool
  nameIndex : Nat
deriving DecidableEq

/-- Bytes at a position. -/
def readField (content : Bytes) (position : Int) (size : Nat) : Except Error Bytes :=
  match field? content position size with
  | some bs => .ok bs
  | none => .error .layout

/-- So many local time types from a position on. -/
def readTypes (content : Bytes) (position : Int) : Nat → Except Error (List LocalType)
  | 0 => .ok []
  | n + 1 => do
    let bs ← readField content position 6
    let rest ← readTypes content (position + 6) n
    return ⟨toInt (bs.take 4), bs.getD 4 0 != 0, (bs.getD 5 0).toNat⟩ :: rest

/-- A data block. -/
structure Block where
  times : List Int
  typeIndexes : List Nat
  types : List LocalType
  names : Bytes

/-- The block at a position, with times of `timeSize` bytes. -/
def readBlock (content : Bytes) (position : Int) (h : Header) (timeSize : Nat) :
    Except Error Block := do
  if content.length < position + h.blockSize timeSize then .error .blockTruncated
  if h.timecnt < 0 then .error .layout
  let count := h.timecnt.toNat
  let times ← readField content position (count * timeSize)
  let typeIndexes ← readField content (position + count * timeSize) count
  let typesAt := position + count * timeSize + count
  let types ← readTypes content typesAt h.typecnt.toNat
  let namesAt := typesAt + types.length * 6
  return {
    times := (groups timeSize times).map toInt
    typeIndexes := typeIndexes.map (·.toNat)
    types
    names := slice content namesAt (namesAt + h.charcnt) }

/-- What daylight saving counts for: a file tells only that there is some. -/
def dstFlagOffset : Int := 3600

namespace Block

/-- The name that starts at an index and ends before a zero byte. Numbers are no names. -/
def name (b : Block) (index : Nat) : Except Error (Option String) :=
  match Text.Utf8.decode ((b.names.drop index).takeWhile (· != 0)) with
  | .error fault => .error (.name fault)
  | .ok text => .ok (abbreviation text.toList)

/-- The transition to a local time type. -/
def transition (b : Block) (time : Int) (typeIndex : Nat) : Except Error Transition :=
  match b.types[typeIndex]? with
  | none => .error (.typeIndex typeIndex b.types.length)
  | some type => do
    let name ← b.name type.nameIndex
    return ⟨time, type.utcOffset, if type.isDst then dstFlagOffset else 0, name, none⟩

/-- The transitions of a block. The first type holds from the beginning of time, unless the first
transition is there, at the time that stands for it in the block. -/
def transitions (b : Block) (start : Int) : Except Error (List Transition) := do
  let first ← if b.times.head? = some start then pure [] else
    (b.transition beginningOfTime 0).map ([·])
  let rest ← (b.times.zip b.typeIndexes).mapM fun (time, typeIndex) =>
    b.transition (if time = start then beginningOfTime else time) typeIndex
  return first ++ rest

end Block

/-- The transitions of a compiled zone file without duplicates. -/
def readTransitions (content : Bytes) : Except Error (List Transition) := do
  let first ← readHeader content 0
  let block ←
    if first.version = 0 then readBlock content headerSize first 4
    else do
      let position := headerSize + first.blockSize 4
      let second ← readHeader content position
      readBlock content (position + headerSize) second 8
  let ts ← block.transitions (if first.version = 0 then -0x80000000 else -0x800000000000000)
  return removeDuplicates ts

/-- The timeline of a compiled zone file. -/
def decode (zone : Option String) (content : Bytes) : Except Error Timeline :=
  (readTransitions content).map (Timeline.ofTransitions zone)

end ZoneTables.Tzif
