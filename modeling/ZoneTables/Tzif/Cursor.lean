import ZoneTables.Tzif.Bytes
import ZoneTables.Tzif.ClockError

/-!
# Positions in a file

A cursor is a file and the position of the bytes that are read next. It may be moved beyond the end
of the file, where there are none, but not before the start.
-/

namespace ZoneTables.Tzif

structure Cursor where
  content : Bytes
  position : Nat

namespace Cursor

def start (content : Bytes) : Cursor := ⟨content, 0⟩

/-- The bytes from the position on. -/
def rest (c : Cursor) : Bytes := c.content.drop c.position

/-- The cursor after some of the bytes that it stands before. -/
def after (c : Cursor) (bs : Bytes) : Cursor := { c with position := c.position + bs.length }

/-- At most so many bytes; all of the rest for the size -1. -/
def take (c : Cursor) (size : Int) : Except ClockError (Bytes × Cursor) :=
  if size < -1 then .error .negativeSize
  else
    let bs := if size = -1 then c.rest else c.rest.take size.toNat
    .ok (bs, c.after bs)

/-- Exactly so many bytes. -/
def takeExactly (c : Cursor) (size : Int) : Except ClockError (Bytes × Cursor) := do
  let (bs, c) ← c.take size
  if bs.length < size then .error .ended else .ok (bs, c)

/-- The cursor so many bytes further on, or back for a negative number. -/
def move (c : Cursor) (distance : Int) : Except ClockError Cursor :=
  if c.position + distance < 0 then .error .beforeStart
  else .ok { c with position := (c.position + distance).toNat }

end Cursor
end ZoneTables.Tzif
