import ZoneTables.Proofs.Tzif.Bytes
import ZoneTables.Tzif.Decode

/-!
# Well-formed zone files

What a compiled zone file says, written down as the format has it: `Content` is one header with its
block, in any version, and `File` a whole file. A file of a later version says in a first block what
is not read, and may end with a footer.

The six counts of a header are signed integers of four bytes, so that no part has 2³¹ pieces.
-/

namespace ZoneTables.Tzif

open Bytes

/-! ## Types -/

/-- A local time type with the text of its abbreviation. -/
structure NamedType extends LocalType where
  text : String
deriving DecidableEq

/-- A text starts at an index into names, and a zero byte ends it. -/
def Spells (names : Bytes) (index : Nat) (text : String) : Prop :=
  0 ∉ text.toUTF8.data.toList ∧ text.toUTF8.data.toList ++ [0] <+: names.drop index

instance (names : Bytes) (index : Nat) (text : String) : Decidable (Spells names index text) :=
  inferInstanceAs (Decidable (_ ∧ _))

namespace NamedType

def bytes (t : NamedType) : Bytes :=
  ofInt 4 t.utcOffset ++ [if t.isDst then 1 else 0, UInt8.ofNat t.nameIndex]

/-- The transition to a type. A file tells no amount of daylight saving; an hour stands for it. -/
def transition (t : NamedType) (time : Int) : Transition :=
  ⟨time, t.utcOffset, if t.isDst then 3600 else 0, abbreviation t.text.toList, none⟩

structure IsWellFormed (names : Bytes) (t : NamedType) : Prop where
  fits : Fits 4 t.utcOffset
  nameIndex_lt : t.nameIndex < 256
  spells : Spells names t.nameIndex t.text

instance (names : Bytes) (t : NamedType) : Decidable (t.IsWellFormed names) :=
  decidable_of_iff
    (Fits 4 t.utcOffset ∧ t.nameIndex < 256 ∧ Spells names t.nameIndex t.text)
    ⟨fun ⟨hfits, hindex, hspells⟩ => ⟨hfits, hindex, hspells⟩,
      fun h => ⟨h.fits, h.nameIndex_lt, h.spells⟩⟩

end NamedType

/-! ## Blocks -/

/-- A header and its block, with times of `timeSize` bytes. -/
structure Content (timeSize : Nat) where
  /-- What a header holds between its version and its counts. -/
  reserved : Vector UInt8 15
  types : List NamedType
  names : Bytes
  /-- The times of the transitions, and the type that starts at each. -/
  entries : List (Int × Fin types.length)
  /-- The times of the leap seconds, and the correction from each on. -/
  leaps : List (Int × Int)
  standardIndicators : Bytes
  utcIndicators : Bytes

namespace Content

variable {timeSize : Nat}

/-- The counts of a header, in their order. -/
def counts (c : Content timeSize) : List Nat :=
  [c.utcIndicators.length, c.standardIndicators.length, c.leaps.length, c.entries.length,
    c.types.length, c.names.length]

def header (version : UInt8) (c : Content timeSize) : Bytes :=
  magicBytes ++ version :: c.reserved.toList ++ c.counts.flatMap fun n : Nat => ofInt 4 n

def timeBytes (c : Content timeSize) : Bytes := c.entries.flatMap fun e => ofInt timeSize e.1

def indexBytes (c : Content timeSize) : Bytes := c.entries.map fun e => UInt8.ofNat e.2

def typeBytes (c : Content timeSize) : Bytes := c.types.flatMap NamedType.bytes

/-- The correction of a leap second takes four bytes after its time. -/
def leapBytes (c : Content timeSize) : Bytes :=
  c.leaps.flatMap fun l => ofInt timeSize l.1 ++ ofInt 4 l.2

/-- The block. -/
def data (c : Content timeSize) : Bytes :=
  c.timeBytes ++ (c.indexBytes ++ (c.typeBytes ++ (c.names ++ (c.leapBytes ++
    (c.standardIndicators ++ c.utcIndicators)))))

def bytes (version : UInt8) (c : Content timeSize) : Bytes := c.header version ++ c.data

/-- Where the parts of a block stand can be told from its header. -/
structure HasLayout (c : Content timeSize) : Prop where
  types_ne_nil : c.types ≠ []
  counts_fit : ∀ n ∈ c.counts, Fits 4 (n : Nat)

structure IsWellFormed (c : Content timeSize) : Prop extends c.HasLayout where
  length_types_le : c.types.length ≤ 256
  types : ∀ t ∈ c.types, t.IsWellFormed c.names
  times_fit : ∀ e ∈ c.entries, Fits timeSize e.1

instance (c : Content timeSize) : Decidable c.HasLayout :=
  decidable_of_iff (c.types ≠ [] ∧ ∀ n ∈ c.counts, Fits 4 (n : Nat))
    ⟨fun ⟨htypes, hcounts⟩ => ⟨htypes, hcounts⟩, fun h => ⟨h.types_ne_nil, h.counts_fit⟩⟩

instance (c : Content timeSize) : Decidable c.IsWellFormed :=
  decidable_of_iff
    (c.HasLayout ∧ c.types.length ≤ 256 ∧ (∀ t ∈ c.types, t.IsWellFormed c.names) ∧
      ∀ e ∈ c.entries, Fits timeSize e.1)
    ⟨fun ⟨hlayout, hlength, htypes, htimes⟩ => ⟨hlayout, hlength, htypes, htimes⟩,
      fun h => ⟨h.toHasLayout, h.length_types_le, h.types, h.times_fit⟩⟩

/-- The type of an entry. -/
def typeOf (c : Content timeSize) (e : Int × Fin c.types.length) : NamedType := c.types.get e.2

/-- The transition to the type of an entry. One time stands for the beginning of time. -/
def entryTransition (marker : Int) (c : Content timeSize) (e : Int × Fin c.types.length) :
    Transition :=
  (c.typeOf e).transition (if e.1 = marker then beginningOfTime else e.1)

/-- The transitions that a block tells: the first type from the beginning of time on, unless the
first entry is there, and the type of each entry from its time on. -/
def timeline (marker : Int) (c : Content timeSize) : List Transition :=
  (if c.entries.head?.map Prod.fst = some marker then []
    else (c.types.take 1).map (·.transition beginningOfTime)) ++
  c.entries.map (c.entryTransition marker)

/-- The least that a block holds: one type without a name. Files of later versions may begin so. -/
def minimal : Content timeSize where
  reserved := .replicate 15 0
  types := [⟨⟨0, false, 0⟩, ""⟩]
  names := [0]
  entries := []
  leaps := []
  standardIndicators := []
  utcIndicators := []

end Content

/-! ## Files -/

/-- The time that stands for the beginning of time where times have four bytes: -2³¹. -/
def firstMarker : Int := -0x80000000

/-- The time that stands for the beginning of time where times have eight bytes: -2⁵⁹. -/
def laterMarker : Int := -0x800000000000000

inductive File where
  /-- A file of the first version. -/
  | first (content : Content 4)
  /-- A file of a later version, with its first block, the one that is read, and what follows. -/
  | later (version : UInt8) (hversion : version ≠ 0) (hidden : Content 4) (content : Content 8)
    (footer : Bytes)

theorem versionTwo_ne_zero : (0x32 : UInt8) ≠ 0 := by decide

namespace File

def bytes : File → Bytes
  | first content => content.bytes 0
  | later version _ hidden content footer =>
    hidden.bytes version ++ (content.bytes version ++ footer)

/-- The end of the block that is read. -/
def readEnd : File → Nat
  | first content => (content.bytes 0).length
  | later version _ hidden content _ =>
    (hidden.bytes version).length + (content.bytes version).length

/-- Of the first block of a later version nothing counts but how long it is. -/
def IsWellFormed : File → Prop
  | first content => content.IsWellFormed
  | later _ _ hidden content _ => hidden.HasLayout ∧ content.IsWellFormed

instance (f : File) : Decidable f.IsWellFormed :=
  match f with
  | first content => inferInstanceAs (Decidable content.IsWellFormed)
  | later _ _ hidden content _ =>
    inferInstanceAs (Decidable (hidden.HasLayout ∧ content.IsWellFormed))

/-- The transitions that a file tells. -/
def timeline : File → List Transition
  | first content => content.timeline firstMarker
  | later _ _ _ content _ => content.timeline laterMarker

end File
end ZoneTables.Tzif
