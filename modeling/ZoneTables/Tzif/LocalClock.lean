import ZoneTables.Tzif.SavingAmount

/-!
# Local clocks of compiled zone files

The local clock of a zone as its compiled file describes it, footer included. Offsets and daylight
saving at an instant are found by way of local time: the instant is first converted to what the
clock shows, and what the clock shows then tells the local time type.
-/

namespace ZoneTables.Tzif

structure LocalClock where
  /-- The instants of the transitions. -/
  times : List Int
  /-- What holds from each of them on. -/
  offsets : List Offsets
  /-- What holds before the first. -/
  before : Offsets
  /-- What the clock shows at each transition, on the later and on the earlier of the two clocks. -/
  shown : List (Int × Int)
  /-- What holds after the last transition. -/
  after : Offsets ⊕ Seasons
deriving DecidableEq

/-! ## Seasons -/

/-- A time lies between two others; if the first of them is the later, outside of them. -/
def isBetween (time start ending : Int) : Bool :=
  if start < ending then start ≤ time && time < ending else time < ending || start ≤ time

/-- The binary64 number nearest to an integer. -/
def rounded (n : Int) : Except ClockError Int :=
  match Binary64.nearestInteger? n 1 with
  | some n => .ok n
  | none => .error .outOfRange

namespace Seasons

/-- The amount of daylight saving. -/
def amount (s : Seasons) : Int := s.dstOffset - s.stdOffset

def offsets (s : Seasons) (isDst : Bool) : Offsets :=
  if isDst then ⟨s.dstOffset, s.amount⟩ else ⟨s.stdOffset, 0⟩

/-- The offsets at an instant, and whether the clock shows the same time for the second time. The
instants of the switches are binary64 numbers. -/
def atInstant (s : Seasons) (instant : Int) : Except ClockError (Offsets × Bool) := do
  let year := localYear instant 0
  let start ← rounded ((← rounded (s.start.clockTime year)) - s.stdOffset)
  let ending ← rounded ((← rounded (s.ending.clockTime year)) - s.dstOffset)
  let (since, until_) ←
    if 0 < s.amount then pure (ending, ← rounded (ending + s.amount))
    else pure (start, ← rounded (start - s.amount))
  return (s.offsets (isBetween instant start ending), since ≤ instant && instant < until_)

/-- The offsets when the clock shows a time, for the first or the second time. -/
def whenShown (s : Seasons) (time : Int) (second : Bool) : Offsets :=
  let year := localYear time 0
  let start := s.start.clockTime year
  let ending := s.ending.clockTime year
  let (start, ending) :=
    if second = decide (0 ≤ s.amount) then (start, ending - s.amount)
    else (start + s.amount, ending)
  s.offsets (isBetween time start ending)

end Seasons

namespace LocalClock

/-! ## The clock of a file -/

/-- What clocks show at each transition: the time on the later and on the earlier of the clocks
before and after it. -/
def shownTimes (prev : Int) : List (Int × Int) → List (Int × Int)
  | [] => []
  | (time, offset) :: rest =>
    (time + max prev offset, time + min prev offset) :: shownTimes offset rest

/-- What a footer says. -/
def readFooter (bs : Bytes) : Except ClockError (Offsets ⊕ Seasons) := do
  let text ← (Text.Utf8.decode bs).mapError .footerText
  match ← (Footer.read text.toList).mapError .footer with
  | .fixed offset => return .inl ⟨offset, 0⟩
  | .seasons s => return .inr s

/-- The clock that a file describes. Without a footer the last transition's type holds for good. The
first type of standard time holds before the first transition. -/
def ofFile (f : ClockFile) : Except ClockError LocalClock := do
  if f.typeIndexes.any (f.types.length ≤ ·) then .error .typeIndex
  let byType ← f.offsets
  let offsets := f.typeIndexes.filterMap (byType[·]?)
  let standard? := ((byType.zip f.types).find? (·.2.flag = 0)).map (·.1)
  let after ←
    if f.footer.isEmpty then
      match offsets.getLast? <|> byType.getLast? with
      | some last => pure (.inl last)
      | none => .error .noTypes
    else readFooter f.footer
  return {
    times := f.times
    offsets
    before := (standard? <|> offsets.head?).getD ⟨0, 0⟩
    shown := shownTimes ((byType.head?.map (·.utc)).getD 0) (f.times.zip (offsets.map (·.utc)))
    after }

/-- The local clock that a compiled zone file describes. -/
def read (content : Bytes) : Except ClockError LocalClock := do ofFile (← ClockFile.read content)

/-! ## The clock at an instant -/

/-- The number of entries that are not above `x`, found by halving the range `[low, high)`. -/
def countUpTo (x : Int) (entries : Array Int) (low high : Nat) : Nat :=
  if low < high then
    let middle := (low + high) / 2
    if x < entries.getD middle 0 then countUpTo x entries low middle
    else countUpTo x entries (middle + 1) high
  else high
termination_by high - low

/-- The offsets before and since the last transition at an instant or earlier, where `count`
transitions are. Beyond a single transition `last` holds. -/
def around (c : LocalClock) (instant : Int) (count : Nat) (last : Offsets) :
    Except ClockError (Offsets × Offsets) :=
  let nth (i : Nat) := c.offsets.getD i c.before
  if c.times[1]?.any (· ≤ instant) then
    if count < 2 then .error .unordered else .ok (nth (count - 2), nth (count - 1))
  else if c.times.getLast?.any (· < instant) then .ok (nth (c.offsets.length - 1), last)
  else .ok (c.before, nth 0)

/-- The offsets at an instant, and whether the clock shows the same time for the second time. -/
def atInstant (c : LocalClock) (instant : Int) : Except ClockError (Offsets × Bool) :=
  let among (last : Offsets) : Except ClockError (Offsets × Bool) := do
    let count := countUpTo instant c.times.toArray 0 c.times.length
    let (prev, now) ← c.around instant count last
    return (now, instant - c.times.getD (count - 1) 0 < prev.utc - now.utc)
  if c.times.head?.any (instant < ·) then .ok (c.before, false)
  else
    match c.after with
    | .inl last => if c.times.isEmpty then .ok (last, false) else among last
    | .inr seasons =>
      if c.times.getLast?.all (· < instant) then seasons.atInstant instant else among c.before

/-- The offsets when the clock shows a time, for the first or the second time. -/
def whenShown (c : LocalClock) (time : Int) (second : Bool) : Offsets :=
  let shown := c.shown.map fun (first, again) => if second then again else first
  if shown.head?.any (time < ·) then c.before
  else if shown.getLast?.all (· < time) then
    match c.after with
    | .inl offsets => offsets
    | .inr seasons => seasons.whenShown time second
  else c.offsets.getD (countUpTo time shown.toArray 0 shown.length - 1) c.before

/-- The first second of year 1 and the last of year 9999. -/
def isShowable (time : Int) : Bool :=
  Date.seconds ⟨1, 1, 1⟩ 0 ≤ time && time < Date.seconds ⟨10000, 1, 1⟩ 0

/-- The offsets that the clock has at an instant. -/
def probe (c : LocalClock) (instant : Int) : Except ClockError Offsets := do
  if !isShowable instant then .error .outOfRange
  let (offsets, second) ← c.atInstant instant
  let time := instant + offsets.utc
  if !isShowable time then .error .outOfRange
  let result := c.whenShown time second
  if secondsPerDay ≤ result.utc.natAbs ∨ secondsPerDay ≤ result.dst.natAbs then .error .offset
  else return result

end LocalClock
end ZoneTables.Tzif
