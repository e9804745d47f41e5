import ZoneTables.Replay.Firing
import ZoneTables.Timeline.Basic

/-!
# Segments

A segment is what one zone line contributes to a zone: from the instant at which it takes over, the
changes up to its end. Under rules, the firings within the segment are its changes. Unless one of
them is at the very start, a change there brings the clock to what the latest earlier firing left,
or to standard time.
-/

namespace ZoneTables.Replay

/-- A change of daylight saving within a segment. -/
structure Change where
  time : Int
  /-- What clocks are ahead of standard time from then on. -/
  save : Int
  /-- The letters for the abbreviation. -/
  letters : String
  rule : Option Rule
deriving DecidableEq

structure Segment where
  line : ZoneLine
  start : Int
  changes : List Change
  /-- The instant at which the segment ends. -/
  ending : Int
deriving DecidableEq

/-- Letters that no rule tells. -/
def unknownLetters : String := "?"

/-- The end of a line on the clock in effect there, which is `dst` ahead of standard time. -/
def endingAt (line : ZoneLine) (dst : Int) : Int :=
  if line.endingClock = .wall ∧ !line.isLast then line.ending - dst else line.ending

/-- The segment of a line whose daylight saving is fixed. -/
def fixedSegment (line : ZoneLine) (h : Handover) (amount : Int) : Segment where
  line := line
  start := h.start
  changes := [⟨h.start, amount, unknownLetters, none⟩]
  ending := endingAt line amount

/-! ## Segments under rules -/

/-- A firing is within the segment and the window. The segment's end on the wall clock depends on
the firing before it, if one is within. -/
def isWithin (line : ZoneLine) (h : Handover) (w : Window) (prev : Option Firing) (f : Firing) :
    Bool :=
  let ahead := match prev with
    | some p => if line.endingClock = .wall then p.rule.save else 0
    | none => 0
  let year := localYear f.time 0
  h.start ≤ f.time && f.time < line.ending - ahead && w.minYear ≤ year && year ≤ w.maxYear

/-- The firings that are within the segment and those that are not. -/
def split (line : ZoneLine) (h : Handover) (w : Window) (prev : Option Firing) :
    List Firing → List Firing × List Firing
  | [] => ([], [])
  | f :: fs =>
    if isWithin line h w prev f then
      let (inside, outside) := split line h w (some f) fs
      (f :: inside, outside)
    else
      let (inside, outside) := split line h w prev fs
      (inside, f :: outside)

/-- The latest firing before the start; of several at one instant the first. -/
def latestBefore (start : Int) (fs : List Firing) : Option Firing :=
  fs.foldl (fun latest f =>
    if f.time < start && latest.all (·.time < f.time) then some f else latest) none

/-- The letters of standard time that firings outside a segment tell: those of the last firing
before its start, or else of the first after it. -/
def lettersOutside (start : Int) (fs : List Firing) : String :=
  fs.foldl (fun letters f =>
    if f.rule.save = 0 ∧ (f.time < start ∨ letters = unknownLetters) then f.rule.letters
    else letters) unknownLetters

/-- The letters of standard time: those of the first firing inside a segment that tells them, or
else those told outside. -/
def standardLetters (start : Int) (inside outside : List Firing) : String :=
  match inside.find? fun f => f.rule.save == 0 && f.rule.letters != unknownLetters with
  | some f => f.rule.letters
  | none => lettersOutside start outside

/-- A firing as a change. -/
def Firing.change (f : Firing) : Change :=
  ⟨f.time, f.rule.save, f.rule.letters, some f.rule⟩

/-- The change at the start of a segment at which no rule fires. -/
def openingChange (start : Int) (inside outside : List Firing) : Change :=
  match latestBefore start outside with
  | some f => { f.change with time := start }
  | none => ⟨start, 0, standardLetters start inside outside, none⟩

/-- The changes of a segment under rules. -/
def ruledChanges (rules : List Rule) (line : ZoneLine) (h : Handover) (w : Window) : List Change :=
  let (inside, outside) := split line h w none (firings rules line h w)
  let changes := inside.map Firing.change
  if inside.any (·.time == h.start) then changes
  else openingChange h.start inside outside :: changes

/-- The segment of a line under rules. It ends on the clock that its last rule left. -/
def ruledSegment (rules : List Rule) (line : ZoneLine) (h : Handover) (w : Window) : Segment :=
  let changes := ruledChanges rules line h w
  { line, start := h.start, changes
    ending := endingAt line ((changes.getLast?.bind (·.rule)).elim 0 (·.save)) }

/-! ## Abbreviations -/

/-- The abbreviation that a format makes of letters: they stand for `%s`; of two names at a slash
daylight saving has the second. A zone without a name, or with a number for a name, has none. -/
def formatName (format letters : String) (isDst : Bool) : Option String :=
  let cs := format.toList
  if (Text.around? "%z".toList cs).isSome then none
  else
    abbreviation <|
      match Text.around? "%s".toList cs, Text.around? ['/'] cs with
      | some (before, after), _ => before ++ letters.toList ++ after
      | none, some (standard, daylight) => if isDst then daylight else standard
      | none, none => cs

/-- The format asks for letters, and no rule tells them. -/
def isUnresolved (format letters : String) : Bool :=
  (Text.around? "%s".toList format.toList).isSome && letters == unknownLetters

/-- A change as a transition. -/
def Change.transition (line : ZoneLine) (c : Change) : Transition where
  time := c.time
  utcOffset := line.stdoff + c.save
  dstOffset := c.save
  name := formatName line.format c.letters (c.save != 0)
  rule := c.rule

def Segment.transitions (s : Segment) : List Transition :=
  s.changes.map (·.transition s.line)

/-- What the line after a segment takes over. -/
def Segment.handover (s : Segment) : Handover where
  start := s.ending
  stdoff := s.line.stdoff
  dst := s.changes.getLast?.elim 0 (·.save)

end ZoneTables.Replay
