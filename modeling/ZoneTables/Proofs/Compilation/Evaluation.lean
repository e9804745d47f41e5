import Mathlib.Data.List.Sort
import ZoneTables.Proofs.Compilation.Basic

/-!
# Running a replay

Merge sort does not reduce, so that a list of firings cannot be told by running `firings`. Sorted by
insertion they are the same (`firings_eq_insertedFirings`), and a replay that sorts them so can be
run (`evaluate_eq_replay`). `exists_evaluated` decides properties of what a text compiles to.
-/

namespace ZoneTables

namespace Replay

variable {rules : List Rule} {line : ZoneLine} {h : Handover} {w : Window}
  {ruleSets : Registry (List Rule)}

/-! ## Firings sorted by insertion -/

/-- A firing that is inserted goes before all that are not earlier, as merge sort has it. -/
theorem orderedInsert_eq_append {before after : List Firing} {f : Firing}
    (hbefore : ∀ g ∈ before, ¬ f.time ≤ g.time) (hafter : ∀ g ∈ after, f.time ≤ g.time) :
    (before ++ after).orderedInsert (fun a b => a.time ≤ b.time) f = before ++ f :: after := by
  induction before with
  | nil =>
    cases after with
    | nil => rfl
    | cons g after => exact if_pos (hafter g List.mem_cons_self)
  | cons g before ih =>
    obtain ⟨hg, hbefore⟩ := List.forall_mem_cons.1 hbefore
    rw [List.cons_append, List.orderedInsert, if_neg hg, ih hbefore]
    rfl

theorem mergeSort_eq_insertionSort (fs : List Firing) :
    fs.mergeSort (fun a b => decide (a.time ≤ b.time)) =
      fs.insertionSort fun a b => a.time ≤ b.time := by
  have htrans (a b c : Firing) (hab : decide (a.time ≤ b.time) = true)
      (hbc : decide (b.time ≤ c.time) = true) : decide (a.time ≤ c.time) = true :=
    decide_eq_true (Int.le_trans (of_decide_eq_true hab) (of_decide_eq_true hbc))
  have htotal (a b : Firing) : (decide (a.time ≤ b.time) || decide (b.time ≤ a.time)) = true := by
    simp only [Bool.or_eq_true, decide_eq_true_eq]
    exact Int.le_total a.time b.time
  induction fs with
  | nil => simp
  | cons f fs ih =>
    obtain ⟨before, after, hcons, hrest, hbefore⟩ := List.mergeSort_cons htrans htotal f fs
    have hsorted := List.pairwise_mergeSort htrans htotal (f :: fs)
    rw [hcons, List.pairwise_append, List.pairwise_cons] at hsorted
    rw [List.insertionSort_cons, ← ih, hrest, hcons, orderedInsert_eq_append]
    · intro g hg
      simpa using hbefore g hg
    · intro g hg
      exact of_decide_eq_true (hsorted.2.1.1 g hg)

/-- The firings of a set of rules, sorted by insertion. -/
def insertedFirings (rules : List Rule) (line : ZoneLine) (h : Handover) (w : Window) :
    List Firing :=
  chain ((candidates rules line h w).insertionSort fun a b => a.time ≤ b.time)

theorem firings_eq_insertedFirings : firings rules line h w = insertedFirings rules line h w :=
  congrArg chain (mergeSort_eq_insertionSort _)

/-! ## Segments of given firings -/

/-- The changes of a segment with the given firings. -/
def changesOf (fs : List Firing) (line : ZoneLine) (h : Handover) (w : Window) : List Change :=
  let (inside, outside) := split line h w none fs
  let changes := inside.map Firing.change
  if inside.any (·.time == h.start) then changes
  else openingChange h.start inside outside :: changes

/-- A segment with the given changes. -/
def segmentOf (changes : List Change) (line : ZoneLine) (h : Handover) : Segment where
  line := line
  start := h.start
  changes := changes
  ending := endingAt line ((changes.getLast?.bind (·.rule)).elim 0 (·.save))

theorem ruledSegment_eq_segmentOf :
    ruledSegment rules line h w = segmentOf (changesOf (firings rules line h w) line h w) line h :=
  rfl

/-- The segment of a line, with its firings sorted by insertion. -/
def evaluateSegment (ruleSets : Registry (List Rule)) (w : Window) (h : Handover)
    (line : ZoneLine) : Except String Segment :=
  match line.saving with
  | .fixed amount => .ok (fixedSegment line h amount)
  | .ruled name =>
    match ruleSets.get? name with
    | some rules => .ok (segmentOf (changesOf (insertedFirings rules line h w) line h w) line h)
    | none => .error name

theorem evaluateSegment_eq_segment :
    evaluateSegment ruleSets w h line = segment ruleSets w h line := by
  cases hsaving : line.saving with
  | fixed amount => simp only [evaluateSegment, segment, hsaving]
  | ruled name =>
    cases hrules : ruleSets.get? name with
    | none => simp only [evaluateSegment, segment, hsaving, hrules]
    | some rules =>
      simp only [evaluateSegment, segment, hsaving, hrules, ruledSegment_eq_segmentOf,
        firings_eq_insertedFirings]

/-- A replay that can be run. -/
def evaluate (ruleSets : Registry (List Rule)) (w : Window) : Handover → List ZoneLine → Replay
  | _, [] => ⟨[], none⟩
  | h, line :: rest =>
    match evaluateSegment ruleSets w h line with
    | .error name => ⟨[], some name⟩
    | .ok s =>
      if s.isBeyond w then ⟨[s], none⟩
      else
        let r := evaluate ruleSets w s.handover rest
        { r with segments := s :: r.segments }

theorem evaluate_eq_replay (h : Handover) (lines : List ZoneLine) :
    evaluate ruleSets w h lines = replay ruleSets w h lines := by
  induction lines generalizing h with
  | nil => rfl
  | cons line rest ih =>
    cases hsegment : segment ruleSets w h line with
    | error name => simp only [evaluate, replay, evaluateSegment_eq_segment, hsegment]
    | ok s => simp only [evaluate, replay, evaluateSegment_eq_segment, hsegment, ih]

end Replay

namespace Database

open Replay

/-- The segments of a zone and the timeline that it compiles to, if it does. -/
def evaluated? (db : Database) (name : String) (w : Window) : Option (List Segment × Timeline) :=
  match db.find name with
  | .error _ => none
  | .ok (zone, lines) =>
    let r := evaluate db.ruleSets w .initial lines
    match r.missing with
    | some _ => none
    | none => some (r.segments, timelineOf name zone lines w r.transitions)

theorem compilesTo_of_evaluated? {db : Database} {name : String} {w : Window} {t : Timeline}
    {ss : List Segment} (h : db.evaluated? name w = some (ss, t)) :
    db.CompilesTo name w t ∧ db.segments name w = ss := by
  unfold evaluated? at h
  split at h
  · cases h
  · rename_i zone lines hfind
    simp only [evaluate_eq_replay] at h
    split at h
    · cases h
    · rename_i hmissing
      obtain ⟨rfl, rfl⟩ := Prod.mk.inj (Option.some.inj h)
      refine ⟨(compilesTo_of_find hfind).2 ?_, segments_of_find hfind⟩
      simp only [compileLines, hmissing]

theorem exists_evaluated_of_sources (options : Source.Options) (sources : Registry String)
    (names : Option (List String)) (name : String) (w : Window)
    (check : Database → List Segment → Timeline → Bool)
    (h : ((ofSources options sources names).2.toOption.any fun db =>
      (db.evaluated? name w).any fun found => check db found.1 found.2) = true) :
    ∃ log db t, ofSources options sources names = (log, .ok db) ∧ db.CompilesTo name w t ∧
      check db (db.segments name w) t = true := by
  simp only [Option.any_eq_true] at h
  obtain ⟨db, hdb, ⟨ss, t⟩, ht, hcheck⟩ := h
  obtain ⟨hcompiles, hsegments⟩ := compilesTo_of_evaluated? ht
  exact ⟨_, db, t, Prod.ext rfl (eq_ok_of_toOption hdb), hcompiles, hsegments ▸ hcheck⟩

/-- A zone of a text compiles to a timeline that passes a check, if running a replay says so. -/
theorem exists_evaluated (text name : String) (w : Window)
    (check : Database → List Segment → Timeline → Bool)
    (h : ((ofText text).2.toOption.any fun db =>
      (db.evaluated? name w).any fun found => check db found.1 found.2) = true) :
    ∃ log db t, ofText text = (log, .ok db) ∧ db.CompilesTo name w t ∧
      check db (db.segments name w) t = true :=
  exists_evaluated_of_sources ⟨false, false⟩ (.ofList [("text", text)]) none name w check h

/-- A zone that gives up its rules in summer. -/
def narvik : String :=
  "Rule R 1985 max - Apr 1 2:00 1:00 S\nRule R 1985 max - Oct 1 3:00 0 -\n" ++
    "Zone Narvik 1:00 R CE%sT 1988 Jul 1 2:00\n\t0 - GMT\n"

end Database
end ZoneTables
