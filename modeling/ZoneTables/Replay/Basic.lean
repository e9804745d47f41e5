import ZoneTables.Registry
import ZoneTables.Replay.Segment

/-!
# Replaying a zone

The lines of a zone are replayed one after the other, each from where the one before ended. The
replay stops after a line that ends beyond the window, and breaks off at a line whose rules are
missing.
-/

namespace ZoneTables

structure Replay where
  segments : List Replay.Segment
  /-- The name of the missing rules at which the replay broke off. -/
  missing : Option String
deriving DecidableEq

namespace Replay

/-- The segment of a line, or the name of the rules that it lacks. -/
def segment (ruleSets : Registry (List Rule)) (w : Window) (h : Handover) (line : ZoneLine) :
    Except String Segment :=
  match line.saving with
  | .fixed amount => .ok (fixedSegment line h amount)
  | .ruled name =>
    match ruleSets.get? name with
    | some rules => .ok (ruledSegment rules line h w)
    | none => .error name

/-- No line after the segment can reach the window. -/
def Segment.isBeyond (s : Segment) (w : Window) : Bool :=
  s.ending != endOfTime && w.maxYear < localYear s.ending s.line.stdoff

def replay (ruleSets : Registry (List Rule)) (w : Window) : Handover → List ZoneLine → Replay
  | _, [] => ⟨[], none⟩
  | h, line :: rest =>
    match segment ruleSets w h line with
    | .error name => ⟨[], some name⟩
    | .ok s =>
      if s.isBeyond w then ⟨[s], none⟩
      else
        let r := replay ruleSets w s.handover rest
        { r with segments := s :: r.segments }

def transitions (r : Replay) : List Transition :=
  r.segments.flatMap Segment.transitions

/-- The unresolved formats of a replay, each with whether daylight saving was in effect. -/
def unresolved (r : Replay) : List (String × Bool) :=
  r.segments.flatMap fun s =>
    (s.changes.filter fun c => isUnresolved s.line.format c.letters).map fun c =>
      (s.line.format, c.save != 0)

end Replay
end ZoneTables
