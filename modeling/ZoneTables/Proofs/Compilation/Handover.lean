import ZoneTables.Proofs.Compilation.Evaluation
import ZoneTables.Proofs.Timeline.InEffect

/-!
# Lines that take over

A line without daylight saving starts with one transition, to its standard offset. Within the years
it stays in the compiled list unless it is taken for a duplicate: the last transition before it is
at the same instant, or has the same offsets and name.
`Database.CompilesTo.isStandardAt_start_iff` says when standard time is in effect where the line
starts.
-/

namespace ZoneTables

open Replay

/-- Standard time with the given offset is in effect at an instant. -/
def IsStandardAt (instant stdoff : Int) (ts : List Transition) : Prop :=
  ∃ u, inEffect instant ts = some u ∧ u.utcOffset = stdoff ∧ u.dstOffset = 0

instance (instant stdoff : Int) (ts : List Transition) :
    Decidable (IsStandardAt instant stdoff ts) :=
  decidable_of_iff (∃ u ∈ inEffect instant ts, u.utcOffset = stdoff ∧ u.dstOffset = 0) Iff.rfl

/-- The transition with which a line without daylight saving starts. -/
def ZoneLine.standard (line : ZoneLine) (start : Int) : Transition where
  time := start
  utcOffset := line.stdoff
  dstOffset := 0
  name := formatName line.format unknownLetters false
  rule := none

theorem transitions_of_standard {s : Segment} (hsound : s.IsSound)
    (hsaving : s.line.saving = .fixed 0) : s.transitions = [s.line.standard s.start] := by
  rw [Segment.transitions, hsound.of_fixed 0 hsaving]
  simp [Change.transition, ZoneLine.standard]

namespace Database

variable {db : Database} {name zone : String} {w : Window} {t : Timeline} {lines : List ZoneLine}
  {line : ZoneLine} {k : Nat} {s : Segment}

/-- The transitions of the lines before number `k`. -/
def transitionsBefore (db : Database) (name : String) (w : Window) (k : Nat) : List Transition :=
  ((db.segments name w).take k).flatMap Segment.transitions

/-- The transitions of the lines after number `k`. -/
def transitionsAfter (db : Database) (name : String) (w : Window) (k : Nat) : List Transition :=
  ((db.segments name w).drop (k + 1)).flatMap Segment.transitions

/-- The line of number `k + 1` has no daylight saving and takes over from the segment `s` within the
years. -/
structure TakesOver (db : Database) (name : String) (w : Window) (k : Nat) (line : ZoneLine)
    (s : Segment) : Prop where
  exists_lines : ∃ zone lines, db.find name = .ok (zone, lines) ∧ lines[k + 1]? = some line
  segment : (db.segments name w)[k]? = some s
  saving : line.saving = .fixed 0
  minYear_le : w.minYear ≤ localYear s.ending line.stdoff
  le_maxYear : localYear s.ending line.stdoff ≤ w.maxYear

/-- The line of number `k` is replayed, and its transition `own` does not repeat the last one kept
before it. -/
def Keeps (db : Database) (name : String) (w : Window) (k : Nat) (own : Transition) : Prop :=
  k < (db.segments name w).length ∧
    ∀ prev, (removeDuplicates (db.transitionsBefore name w k)).getLast? = some prev →
      own.repeats prev = false

instance (db : Database) (name : String) (w : Window) (k : Nat) (own : Transition) :
    Decidable (db.Keeps name w k own) :=
  decidable_of_iff (k < (db.segments name w).length ∧
    ∀ prev ∈ (removeDuplicates (db.transitionsBefore name w k)).getLast?,
      own.repeats prev = false) Iff.rfl

theorem line_of_getElem? (hfind : db.find name = .ok (zone, lines)) (hline : lines[k]? = some line)
    (hs : (db.segments name w)[k]? = some s) : s.line = line := by
  obtain ⟨rest, hrest⟩ := map_line_isPrefix db.ruleSets w .initial lines
  have hmap : ((db.segments name w).map (·.line))[k]? = some s.line := by
    rw [List.getElem?_map, hs]
    rfl
  rw [segments_of_find hfind] at hmap
  rw [← hrest, List.getElem?_append_left (List.getElem?_eq_some_iff.1 hmap).1, hmap] at hline
  exact Option.some.inj hline

theorem start_of_getElem? {u : Segment} (hs : (db.segments name w)[k]? = some s)
    (hu : (db.segments name w)[k + 1]? = some u) : u.start = s.ending := by
  obtain ⟨hk, rfl⟩ := List.getElem?_eq_some_iff.1 hs
  obtain ⟨hk', rfl⟩ := List.getElem?_eq_some_iff.1 hu
  exact List.isChain_iff_getElem.1 isChain_segments k hk'

/-- What precedes the second line and those after it is never nothing. -/
theorem exists_getLast?_before (hs : (db.segments name w)[k]? = some s) :
    ∃ prev, (removeDuplicates (db.transitionsBefore name w (k + 1))).getLast? = some prev := by
  have hmem : s ∈ (db.segments name w).take (k + 1) :=
    List.mem_of_getElem? (by rw [List.getElem?_take_of_lt (Nat.lt_succ_self k), hs])
  have hne : db.transitionsBefore name w (k + 1) ≠ [] := by
    obtain ⟨c, hc⟩ := List.exists_mem_of_ne_nil _
      (isSound_of_mem_segments (List.mem_of_getElem? hs)).changes_ne_nil
    exact List.ne_nil_of_mem (List.mem_flatMap.2 ⟨s, hmem, List.mem_map_of_mem hc⟩)
  obtain ⟨u, us, hus⟩ := List.exists_cons_of_ne_nil hne
  rw [hus]
  exact ⟨_, List.getLast?_cons⟩

theorem flatMap_transitions_eq_append (hs : (db.segments name w)[k]? = some s) :
    (db.segments name w).flatMap Segment.transitions =
      db.transitionsBefore name w k ++ (s.transitions ++ db.transitionsAfter name w k) := by
  obtain ⟨hk, heq⟩ := List.getElem?_eq_some_iff.1 hs
  have hsplit := List.take_append_drop k (db.segments name w)
  rw [List.drop_eq_getElem_cons hk, heq] at hsplit
  conv_lhs => rw [← hsplit]
  rw [List.flatMap_append, List.flatMap_cons]
  rfl

theorem flatMap_transitions_eq {own : Segment} (hown : (db.segments name w)[k]? = some own)
    (hsaving : own.line.saving = .fixed 0) :
    (db.segments name w).flatMap Segment.transitions =
      db.transitionsBefore name w k ++
        own.line.standard own.start :: db.transitionsAfter name w k := by
  have htransitions := transitions_of_standard
    (isSound_of_mem_segments (List.mem_of_getElem? hown)) hsaving
  rw [flatMap_transitions_eq_append hown, htransitions]
  rfl

theorem lt_of_mem_transitionsAfter (hstarts : StartsIncrease (db.segments name w))
    (hs : (db.segments name w)[k]? = some s) {u : Transition}
    (hu : u ∈ db.transitionsAfter name w k) : s.start < u.time := by
  obtain ⟨hk, rfl⟩ := List.getElem?_eq_some_iff.1 hs
  obtain ⟨v, hv, huv⟩ := List.mem_flatMap.1 hu
  obtain ⟨c, hc, rfl⟩ := List.mem_map.1 huv
  have hpairs : ((db.segments name w).drop k).Pairwise fun s u => s.start < u.start :=
    hstarts.sublist (List.drop_sublist k _)
  rw [List.drop_eq_getElem_cons hk] at hpairs
  have hstart := (List.pairwise_cons.1 hpairs).1 v hv
  exact Int.lt_of_lt_of_le hstart
    ((isSound_of_mem_segments (List.mem_of_mem_drop hv)).start_le c hc)

theorem start_ne_beginningOfTime (hstarts : StartsIncrease (db.segments name w))
    (hs : (db.segments name w)[k + 1]? = some s) : s.start ≠ beginningOfTime := by
  have hhead := start_of_head?_segments db name w
  have hbegin {u : Segment} (hu : u ∈ db.segments name w) := beginningOfTime_le_start hstarts hu
  cases hss : db.segments name w with
  | nil => simp [hss] at hs
  | cons u us =>
    rw [hss] at hs hstarts
    have hfirst := (List.pairwise_cons.1 hstarts).1 s (List.mem_of_getElem? hs)
    have hu := hbegin (by simp [hss] : u ∈ db.segments name w)
    omega

namespace CompilesTo

/-- A line's transition that is kept is in effect where the line starts. -/
theorem isStandardAt_of_keeps (h : db.CompilesTo name w t)
    (hstarts : StartsIncrease (db.segments name w)) {own : Segment}
    (hown : (db.segments name w)[k + 1]? = some own) (hsaving : own.line.saving = .fixed 0)
    (hmin : w.minYear ≤ localYear own.start own.line.stdoff)
    (hmax : localYear own.start own.line.stdoff ≤ w.maxYear) {prev : Transition}
    (hprev : (removeDuplicates (db.transitionsBefore name w (k + 1))).getLast? = some prev)
    (hkeeps : (own.line.standard own.start).repeats prev = false) :
    IsStandardAt own.start own.line.stdoff t.transitions := by
  have hkept : removeDuplicates ((db.segments name w).flatMap Segment.transitions) =
      removeDuplicates (db.transitionsBefore name w (k + 1)) ++ own.line.standard own.start ::
        dropRepeats (own.line.standard own.start) (db.transitionsAfter name w (k + 1)) := by
    rw [flatMap_transitions_eq hown hsaving, removeDuplicates_append hprev, dropRepeats,
      if_neg (by simp [hkeeps])]
  have hnext : own.start ≤ own.start + 1 := by omega
  have hyear : w.minYear ≤ (own.line.standard own.start).yearAfter :=
    Int.le_trans hmin (localYear_mono hnext _)
  obtain ⟨as, bs, htrim, hbs⟩ := trimYears_append_cons
    (removeDuplicates (db.transitionsBefore name w (k + 1)))
    (dropRepeats (own.line.standard own.start) (db.transitionsAfter name w (k + 1)))
    (start_ne_beginningOfTime hstarts hown) rfl hyear hmax
  have hlater : ∀ v ∈ bs, (own.line.standard own.start).time < v.time := by
    intro v hv
    have hafter := (dropRepeats_sublist _ _).subset (hbs.subset hv)
    exact lt_of_mem_transitionsAfter hstarts hown hafter
  rw [h.transitions_eq, hkept, htrim]
  exact ⟨_, inEffect_append_cons (Int.le_refl _) hlater, rfl, rfl⟩

/-- **When no line is lost.** Where a line without daylight saving takes over within the years,
standard time with its offset is in effect in the compiled list if the line's transition is kept, or
if it is without that transition. -/
theorem isStandardAt_start_iff (h : db.CompilesTo name w t)
    (hstarts : StartsIncrease (db.segments name w)) (htakes : db.TakesOver name w k line s) :
    IsStandardAt s.ending line.stdoff t.transitions ↔
      db.Keeps name w (k + 1) (line.standard s.ending) ∨
        IsStandardAt s.ending line.stdoff (trimYears (some w.minYear) w.maxYear
          (removeDuplicates
            (db.transitionsBefore name w (k + 1) ++ db.transitionsAfter name w (k + 1)))) := by
  obtain ⟨⟨zone, lines, hfind, hline⟩, hs, hsaving, hmin, hmax⟩ := htakes
  obtain ⟨prev, hprev⟩ := exists_getLast?_before hs
  by_cases hk : k + 1 < (db.segments name w).length
  · obtain ⟨own, hown⟩ : ∃ own, (db.segments name w)[k + 1]? = some own :=
      ⟨_, List.getElem?_eq_getElem hk⟩
    obtain rfl := line_of_getElem? hfind hline hown
    have hstart := start_of_getElem? hs hown
    by_cases hrepeats : (own.line.standard s.ending).repeats prev = true
    · have hdropped : t.transitions = trimYears (some w.minYear) w.maxYear (removeDuplicates
          (db.transitionsBefore name w (k + 1) ++ db.transitionsAfter name w (k + 1))) := by
        rw [h.transitions_eq, flatMap_transitions_eq hown hsaving, hstart,
          removeDuplicates_append hprev, removeDuplicates_append hprev, dropRepeats,
          if_pos hrepeats]
      have hnot : ¬ db.Keeps name w (k + 1) (own.line.standard s.ending) := by
        intro hkeeps
        rw [hkeeps.2 prev hprev] at hrepeats
        cases hrepeats
      rw [hdropped, or_iff_right hnot]
    · have hkeeps : (own.line.standard s.ending).repeats prev = false := by simpa using hrepeats
      apply iff_of_true
      · rw [← hstart] at hmin hmax hkeeps ⊢
        exact h.isStandardAt_of_keeps hstarts hown hsaving hmin hmax hprev hkeeps
      · left
        refine ⟨hk, ?_⟩
        intro other hother
        rwa [Option.some.inj (hother.symm.trans hprev)]
  · -- the line is not replayed
    have hnil : db.transitionsAfter name w (k + 1) = [] := by
      rw [transitionsAfter, List.drop_eq_nil_of_le (by omega)]
      rfl
    have hall : db.transitionsBefore name w (k + 1) =
        (db.segments name w).flatMap Segment.transitions := by
      rw [transitionsBefore, List.take_of_length_le (by omega)]
    rw [hnil, List.append_nil, hall, ← h.transitions_eq]
    exact (or_iff_right fun hkeeps => hk hkeeps.1).symm

end CompilesTo

/-- A check of a line that takes over among segments. -/
def checkLine (db : Database) (ss : List Segment) (name : String) (w : Window) (k : Nat)
    (check : ZoneLine → Segment → Bool) : Bool :=
  (db.find name).toOption.any fun (_, lines) => lines[k + 1]?.any fun line => ss[k]?.any fun s =>
    decide (line.saving = .fixed 0 ∧ w.minYear ≤ localYear s.ending line.stdoff ∧
      localYear s.ending line.stdoff ≤ w.maxYear) && check line s

theorem exists_takesOver {check : ZoneLine → Segment → Bool}
    (h : db.checkLine (db.segments name w) name w k check = true) :
    ∃ line s, db.TakesOver name w k line s ∧ check line s = true := by
  simp only [checkLine, Option.any_eq_true, Bool.and_eq_true, decide_eq_true_eq] at h
  obtain ⟨⟨zone, lines⟩, hfind, line, hline, s, hs, ⟨hsaving, hmin, hmax⟩, hcheck⟩ := h
  exact ⟨line, s, ⟨⟨zone, lines, eq_ok_of_toOption hfind, hline⟩, hs, hsaving, hmin, hmax⟩, hcheck⟩

theorem isStandardAt_narvik :
    ∃ log db t line s, ofText narvik = (log, .ok db) ∧ db.CompilesTo "Narvik" ⟨1986, 1989⟩ t ∧
      StartsIncrease (db.segments "Narvik" ⟨1986, 1989⟩) ∧
      db.TakesOver "Narvik" ⟨1986, 1989⟩ 0 line s ∧ s.handover = ⟨583718400, 3600, 3600⟩ ∧
      IsStandardAt s.ending line.stdoff t.transitions := by
  obtain ⟨log, db, t, hdb, ht, hcheck⟩ := exists_evaluated narvik "Narvik" ⟨1986, 1989⟩
    (fun db ss _ => decide (StartsIncrease ss) &&
      db.checkLine ss "Narvik" ⟨1986, 1989⟩ 0 fun line s =>
        decide (s.handover = ⟨583718400, 3600, 3600⟩) && decide (1 < ss.length ∧
          ∀ prev ∈ (removeDuplicates ((ss.take 1).flatMap Segment.transitions)).getLast?,
            (line.standard s.ending).repeats prev = false)) (by decide +kernel)
  simp only [Bool.and_eq_true, decide_eq_true_eq] at hcheck
  obtain ⟨hstarts, hline⟩ := hcheck
  obtain ⟨line, s, htakes, hchecks⟩ := exists_takesOver hline
  rw [Bool.and_eq_true, decide_eq_true_eq, decide_eq_true_eq] at hchecks
  obtain ⟨hhandover, hkeeps⟩ := hchecks
  exact ⟨log, db, t, line, s, hdb, ht, hstarts, htakes, hhandover,
    (ht.isStandardAt_start_iff hstarts htakes).2 (Or.inl hkeeps)⟩

/-- A line is lost if a rule fires where the line before ends on the wall clock, by which time
clocks are ahead: the transition of the rule is at the same instant. -/
theorem lost_line :
    ∃ log db t line s, ofText ("Rule R 2000 only - Apr 2 1:00u 1:00 B\n" ++
        "Zone Z 0 R G/B 2000 Apr 2 2:00\n\t1:00 - C\n") = (log, .ok db) ∧
      db.CompilesTo "Z" ⟨2000, 2000⟩ t ∧ StartsIncrease (db.segments "Z" ⟨2000, 2000⟩) ∧
      db.TakesOver "Z" ⟨2000, 2000⟩ 0 line s ∧
      ¬ IsStandardAt s.ending line.stdoff t.transitions := by
  obtain ⟨log, db, t, hdb, ht, hcheck⟩ := exists_compiled
    ("Rule R 2000 only - Apr 2 1:00u 1:00 B\n" ++
      "Zone Z 0 R G/B 2000 Apr 2 2:00\n\t1:00 - C\n") "Z" ⟨2000, 2000⟩
    (fun db t => decide (StartsIncrease (db.segments "Z" ⟨2000, 2000⟩)) &&
      db.checkLine (db.segments "Z" ⟨2000, 2000⟩) "Z" ⟨2000, 2000⟩ 0 fun line s =>
        decide (¬ IsStandardAt s.ending line.stdoff t.transitions)) (by decide +kernel)
  simp only [Bool.and_eq_true, decide_eq_true_eq] at hcheck
  obtain ⟨hstarts, hline⟩ := hcheck
  obtain ⟨line, s, htakes, hlost⟩ := exists_takesOver hline
  exact ⟨log, db, t, line, s, hdb, ht, hstarts, htakes, of_decide_eq_true hlost⟩

end Database
end ZoneTables
