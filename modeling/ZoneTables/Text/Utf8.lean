import ZoneTables.Text.Quoted

/-!
# UTF-8

The text that bytes encode in UTF-8, or what is wrong with the first of them that encode none. A
first byte tells how many bytes follow it and bounds the next of them; all others lie between 0x80
and 0xBF.
-/

namespace ZoneTables.Text.Utf8

/-- What is wrong with bytes. -/
inductive Reason where
  /-- No character starts with the byte. -/
  | start
  /-- The byte after them does not go on with the character. -/
  | continuation
  /-- The bytes end before the character does. -/
  | ending
deriving DecidableEq

def Reason.message : Reason → String
  | start => "invalid start byte"
  | continuation => "invalid continuation byte"
  | ending => "unexpected end of data"

/-- Bytes at a position that encode no character. -/
structure Fault where
  position : Nat
  bytes : List UInt8
  reason : Reason
deriving DecidableEq

def Fault.message (f : Fault) : String :=
  "'utf-8' codec can't decode " ++
    (match f.bytes with
    | [b] => "byte 0x" ++ String.ofList (hexadecimal 2 b.toNat) ++ s!" in position {f.position}"
    | bs => s!"bytes in position {f.position}-{f.position + bs.length - 1}") ++
    ": " ++ f.reason.message

/-- How many bytes follow the first one of a character, and the least and the greatest that the next
one may be. -/
def following? (first : Nat) : Option (Nat × Nat × Nat) :=
  if first < 0x80 then some (0, 0x80, 0xBF)
  else if first < 0xC2 then none
  else if first < 0xE0 then some (1, 0x80, 0xBF)
  else if first < 0xF0 then
    some (2, if first = 0xE0 then 0xA0 else 0x80, if first = 0xED then 0x9F else 0xBF)
  else if first < 0xF5 then
    some (3, if first = 0xF0 then 0x90 else 0x80, if first = 0xF4 then 0x8F else 0xBF)
  else none

/-- How many of at most `count` bytes go on with a character, the first of them within bounds. -/
def goingOn : Nat → Nat → Nat → List UInt8 → Nat
  | count + 1, least, greatest, b :: bs =>
    if least ≤ b.toNat ∧ b.toNat ≤ greatest then goingOn count 0x80 0xBF bs + 1 else 0
  | _, _, _, _ => 0

/-- The first fault of bytes from a position on, of which the first `known` belong to a character
before them. -/
def faultFrom? (position : Nat) : Nat → List UInt8 → Option Fault
  | _, [] => none
  | known + 1, _ :: bs => faultFrom? (position + 1) known bs
  | 0, b :: bs =>
    match following? b.toNat with
    | none => some ⟨position, [b], .start⟩
    | some (count, least, greatest) =>
      let found := goingOn count least greatest bs
      if found = count then faultFrom? (position + 1) count bs
      else
        some ⟨position, b :: bs.take found, if found = bs.length then .ending else .continuation⟩

/-- The text that bytes encode. -/
def decode (bytes : List UInt8) : Except Fault String :=
  match String.fromUTF8? ⟨bytes.toArray⟩ with
  | some text => .ok text
  | none => .error ((faultFrom? 0 0 bytes).getD ⟨0, bytes, .start⟩)

end ZoneTables.Text.Utf8
