import ZoneTables.Proofs.Compilation.Windows
import ZoneTables.Proofs.Replay.Start

/-!
# Rules that fire where their line takes over

One firing of the rules of a line falls on the instant at which the line takes over, read on the
clocks of the line before (`Database.FiresAtStart`). The rule is in effect from that instant unless
it is on the wall clock and the firing before it left clocks behind standard time: then the line
starts with that amount (`Database.FiresAtStart.startsAhead_iff`).
-/

namespace ZoneTables.Database

open Replay

variable {db : Database} {name : String} {w : Window} {k : Nat} {p s : Segment}
  {rules : List Rule} {r : Rule} {year : Int}

/-- The line of number `k + 1`, of the segment `s`, is under rules and takes over from the segment
`p` within the years. Of all firings of its rules only that of `r` in `year` falls on its start,
read on the clocks that `p` leaves. -/
structure FiresAtStart (db : Database) (name : String) (w : Window) (k : Nat) (p s : Segment)
    (rules : List Rule) (r : Rule) (year : Int) : Prop where
  before : (db.segments name w)[k]? = some p
  own : (db.segments name w)[k + 1]? = some s
  ruled : ∃ set, s.line.saving = .ruled set ∧ db.ruleSets.get? set = some rules
  minYear_le : w.minYear ≤ localYear s.start 0
  le_maxYear : localYear s.start 0 ≤ w.maxYear
  only : occurrencesAtStart rules s.line p.handover w = [(r, year)]

theorem handoverTo_succ (hp : (db.segments name w)[k]? = some p) :
    db.handoverTo name w (k + 1) = p.handover := by
  rw [handoverTo, handoverAfter, List.getLast?_take, if_neg (Nat.succ_ne_zero k),
    Nat.add_sub_cancel, hp]
  rfl

namespace FiresAtStart

theorem eq_ruledSegment (h : db.FiresAtStart name w k p s rules r year) :
    s = ruledSegment rules s.line p.handover w := by
  obtain ⟨set, hsaving, hrules⟩ := h.ruled
  obtain ⟨-, -, -, -, hsegment, -⟩ := exists_lines_of_getElem? h.own
  rw [handoverTo_succ h.before] at hsegment
  rcases segment_cases hsegment with ⟨amount, hfixed, -⟩ | ⟨other, found, hother, hfound, heq⟩
  · cases hsaving.symm.trans hfixed
  · obtain rfl := Saving.ruled.inj (hsaving.symm.trans hother)
    obtain rfl := Option.some.inj (hrules.symm.trans hfound)
    exact heq

theorem start_eq (h : db.FiresAtStart name w k p s rules r year) : s.start = p.handover.start :=
  congrArg Segment.start h.eq_ruledSegment

theorem startsAhead_iff_amountsAtStart (h : db.FiresAtStart name w k p s rules r year)
    (amount : Int) :
    s.StartsAhead amount ↔ ∀ a ∈ amountsAtStart rules s.line p.handover w, a = amount := by
  rw [← startsAhead_ruledSegment_iff, ← h.eq_ruledSegment]

/-- **When a rule is in effect from the first instant of its line.** It is if the rules that fire
there within the line all save what it saves, or if none does, the one that fired latest before. If
neither the rule nor the end of the line is on the wall clock, it fires there, so that no other must
that saves something else. Where firings are far apart and the line does not end at once, the rule
is in effect unless it is on the wall clock and the firing before it left clocks behind standard
time by another amount. -/
theorem startsAhead_iff (h : db.FiresAtStart name w k p s rules r year) :
    (s.StartsAhead r.save ↔
      (∀ f ∈ insideFirings rules s.line p.handover w,
        f.time = s.start → f.rule.save = r.save) ∧
      ((∀ f ∈ insideFirings rules s.line p.handover w, f.time ≠ s.start) →
        (latestBefore s.start (outsideFirings rules s.line p.handover w)).elim 0 (·.rule.save) =
          r.save)) ∧
      (r.clock ≠ .wall → s.line.endingClock ≠ .wall → s.start < s.line.ending →
        (s.StartsAhead r.save ↔ ∀ f ∈ firings rules s.line p.handover w,
          f.time = s.start → f.rule.save = r.save)) ∧
      ∀ bound, FireFarApart rules s.line p.handover w bound → s.start < s.line.ending →
        s.StartsAhead (amountAfter
          (latestBefore s.start (candidates rules s.line p.handover w)) r) ∧
        (s.StartsAhead r.save ↔
          ∀ f ∈ latestBefore s.start (candidates rules s.line p.handover w),
            r.clock = .wall → f.rule.save < 0 → f.rule.save = r.save) := by
  have hmin := h.minYear_le
  have hmax := h.le_maxYear
  have hoccurs : (r, year) ∈ occurrencesAtStart rules s.line p.handover w := by simp [h.only]
  rw [h.start_eq] at hmin hmax ⊢
  simp only [h.startsAhead_iff_amountsAtStart]
  refine ⟨forall_amountsAtStart_iff, fun hwall hclock hending => ?_, fun bound hapart hending => ?_⟩
  · exact forall_amountsAtStart_iff_of_ne_wall hoccurs hwall hclock hending hmin hmax
  · have hamounts := hapart.amountsAtStart_eq hoccurs hending hmin hmax
    simp only [hamounts, List.forall_mem_singleton, true_and]
    unfold amountAfter
    cases latestBefore p.handover.start (candidates rules s.line p.handover w) with
    | none => simp
    | some f =>
      by_cases hbehind : r.clock = .wall ∧ f.rule.save < 0
      · simp [hbehind]
      · simpa [hbehind] using fun hwall hneg => absurd ⟨hwall, hneg⟩ hbehind

end FiresAtStart

/-- A check of a line that takes over while one of its rules fires. -/
def checkFires (db : Database) (ss : List Segment) (w : Window) (k : Nat)
    (check : Segment → Segment → List Rule → Rule → Int → Bool) : Bool :=
  ss[k]?.any fun p => ss[k + 1]?.any fun s =>
    decide (w.minYear ≤ localYear s.start 0 ∧ localYear s.start 0 ≤ w.maxYear) &&
    match s.line.saving with
    | .fixed _ => false
    | .ruled set => (db.ruleSets.get? set).any fun rules =>
      match occurrencesAtStart rules s.line p.handover w with
      | [(r, year)] => check p s rules r year
      | _ => false

theorem exists_firesAtStart {check : Segment → Segment → List Rule → Rule → Int → Bool}
    (h : checkFires db (db.segments name w) w k check = true) :
    ∃ p s rules r year, db.FiresAtStart name w k p s rules r year ∧
      check p s rules r year = true := by
  simp only [checkFires, Option.any_eq_true, Bool.and_eq_true, decide_eq_true_eq] at h
  obtain ⟨p, hp, s, hs, ⟨hmin, hmax⟩, hrules⟩ := h
  split at hrules
  · cases hrules
  · rename_i set hsaving
    obtain ⟨rules, hset, hcheck⟩ := (Option.any_eq_true ..).1 hrules
    split at hcheck
    · rename_i r year honly
      exact ⟨p, s, rules, r, year, ⟨hp, hs, ⟨set, hsaving, hset⟩, hmin, hmax, honly⟩, hcheck⟩
    · cases hcheck

/-- A zone that goes over to the rules of another just when summer time begins there. -/
def intoSummer : String :=
  "Rule R 2004 max - Apr 1 2:00 1:00 D\nRule R 2004 max - Oct 1 2:00 0 S\n" ++
    "Zone Z -5:00 - EST 2005 Apr 1 2:00\n\t-6:00 R C%sT\n"

/-- It does so with summer time. -/
theorem startsAhead_intoSummer :
    ∃ log db p s rules r, ofText intoSummer = (log, .ok db) ∧
      db.FiresAtStart "Z" ⟨2005, 2006⟩ 0 p s rules r 2005 ∧
      FireFarApart rules s.line p.handover ⟨2005, 2006⟩ 3600 ∧ s.start < s.line.ending ∧
      r.save = 3600 ∧ s.StartsAhead 3600 := by
  obtain ⟨log, db, t, hdb, -, hcheck⟩ := exists_evaluated intoSummer "Z" ⟨2005, 2006⟩
    (fun db ss _ => checkFires db ss ⟨2005, 2006⟩ 0 fun p s rules r year =>
      decide (FireFarApart rules s.line p.handover ⟨2005, 2006⟩ 3600) &&
      decide (s.start < s.line.ending ∧ r.save = 3600 ∧ year = 2005) &&
      (latestBefore s.start (candidates rules s.line p.handover ⟨2005, 2006⟩)).all
        (fun (f : Firing) => decide (f.rule.save = 0)))
    (by decide +kernel)
  obtain ⟨p, s, rules, r, year, hfires, hchecks⟩ := exists_firesAtStart hcheck
  simp only [Bool.and_eq_true, decide_eq_true_eq, Option.all_eq_true] at hchecks
  obtain ⟨⟨hapart, hending, hsave, rfl⟩, hbefore⟩ := hchecks
  have hstarts := ((hfires.startsAhead_iff.2.2 3600 hapart hending).2).2 fun f hf _ hneg => by
    have := hbefore f hf
    omega
  exact ⟨log, db, p, s, rules, r, hdb, hfires, hapart, hending, hsave, hsave ▸ hstarts⟩

/-- A zone that goes over to rules just when winter time ends, which is behind standard time. -/
def outOfWinter : String :=
  "Rule R 2000 only - Jan 1 0:00u -1:00 W\nRule R 2000 only - Mar 1 2:00 0 S\n" ++
    "Zone Z 1:00 - A 2000 Mar 1 2:00\n\t1:00 R X%sT\n"

/-- It starts with winter time all the same. -/
theorem startsBehind_outOfWinter :
    ∃ log db p s rules r, ofText outOfWinter = (log, .ok db) ∧
      db.FiresAtStart "Z" ⟨2000, 2000⟩ 0 p s rules r 2000 ∧ r.save = 0 ∧
      s.StartsAhead (-3600) ∧ ¬ s.StartsAhead r.save := by
  obtain ⟨log, db, t, hdb, -, hcheck⟩ := exists_evaluated outOfWinter "Z" ⟨2000, 2000⟩
    (fun db ss _ => checkFires db ss ⟨2000, 2000⟩ 0 fun _ s _ r year =>
      decide (r.save = 0 ∧ year = 2000 ∧ s.StartsAhead (-3600) ∧ ¬ s.StartsAhead r.save))
    (by decide +kernel)
  obtain ⟨p, s, rules, r, year, hfires, hchecks⟩ := exists_firesAtStart hcheck
  simp only [decide_eq_true_eq] at hchecks
  obtain ⟨hsave, rfl, hbehind, hnot⟩ := hchecks
  exact ⟨log, db, p, s, rules, r, hdb, hfires, hsave, hbehind, hnot⟩

end ZoneTables.Database
