import ZoneTables.Proofs.Compilation.Evaluation

/-!
# Where transitions come from

A line of a zone brings changes by its fixed amount, by its rules, or to standard time under rules
(`ZoneLine.Brings`), and no other change is in its segment (`brings_of_segment`). Removing
duplicates and trimming neither make transitions nor take anything but its time from one, so that
each transition of a compiled list has the standard offset, the amount, the rule and the name that
one line of the zone gives it (`CompilesTo.comesFrom_line`).
-/

namespace ZoneTables

open Replay

/-- A change that a line brings: the one to its fixed amount, or one that comes from its rules. -/
inductive ZoneLine.Brings (ruleSets : Registry (List Rule)) (line : ZoneLine) : Change → Prop
  | fixed {amount : Int} (time : Int) (saving : line.saving = .fixed amount) :
      Brings ruleSets line ⟨time, amount, unknownLetters, none⟩
  | ruled {set : String} {rules : List Rule} {c : Change} (saving : line.saving = .ruled set)
      (known : ruleSets.get? set = some rules) (origin : c.Origin rules) : Brings ruleSets line c

/-- A transition has the standard offset of a line, and the amount, the rule and the name of a
change that the line brings. -/
structure Transition.ComesFrom (u : Transition) (ruleSets : Registry (List Rule))
    (line : ZoneLine) : Prop where
  stdoff : u.utcOffset - u.dstOffset = line.stdoff
  change : ∃ c, line.Brings ruleSets c ∧ u.dstOffset = c.save ∧ u.rule = c.rule ∧
    u.name = formatName line.format c.letters (u.dstOffset != 0)

theorem ZoneLine.Brings.comesFrom {ruleSets : Registry (List Rule)} {line : ZoneLine} {c : Change}
    (h : line.Brings ruleSets c) (time : Int) :
    Transition.ComesFrom { c.transition line with time := time } ruleSets line where
  stdoff := Int.add_sub_cancel line.stdoff c.save
  change := ⟨c, h, rfl, rfl, rfl⟩

/-- **All changes of a segment are brought by its line.** -/
theorem Replay.brings_of_segment {ruleSets : Registry (List Rule)} {w : Window} {h : Handover}
    {line : ZoneLine} {s : Segment} {c : Change} (hs : segment ruleSets w h line = .ok s)
    (hc : c ∈ s.changes) : line.Brings ruleSets c := by
  rcases segment_cases hs with ⟨amount, hsaving, rfl⟩ | ⟨set, rules, hsaving, hrules, rfl⟩
  · rw [List.mem_singleton.1 hc]
    exact .fixed h.start hsaving
  · exact .ruled hsaving hrules (origin_of_mem_ruledChanges hc)

namespace Database

variable {db : Database} {name : String} {w : Window} {t : Timeline}

/-- **Every transition of a compiled list comes from a line of the zone.** -/
theorem CompilesTo.comesFrom_line (h : db.CompilesTo name w t) :
    ∃ zone lines, db.find name = .ok (zone, lines) ∧
      ∀ u ∈ t.transitions, ∃ line ∈ lines, u.ComesFrom db.ruleSets line := by
  obtain ⟨zone, lines, hfind, -⟩ := h.exists_lines
  refine ⟨zone, lines, hfind, fun u hu => ?_⟩
  obtain ⟨s, hs, c, hc, hcu⟩ := h.exists_change hu
  obtain ⟨hline, handover, hsegment⟩ := line_mem_of_find hfind hs
  have hbrings := brings_of_segment hsegment hc
  refine ⟨s.line, hline, ?_⟩
  rcases hcu with rfl | rfl
  · exact hbrings.comesFrom c.time
  · exact hbrings.comesFrom beginningOfTime

/-- A zone that goes by rules between two fixed amounts, by a link. -/
theorem comesFrom_line_trondheim :
    ∃ log db t zone lines, ofText ("Rule R 1990 max - Apr 1 0:00u 1:00 S\n" ++
        "Rule R 1990 max - Oct 1 0:00u 0 -\nZone Nidaros 0:41 - LMT 1989\n" ++
        "\t1:00 R CE%sT 1991 Jul 1\n\t0 1:00 %s 1991 Sep 1\n" ++
        "\t0 - WET\nLink Nidaros Trondheim\n") = (log, .ok db) ∧
      db.CompilesTo "Trondheim" ⟨1980, 1991⟩ t ∧ db.find "Trondheim" = .ok (zone, lines) ∧
      t.transitions.length = 7 ∧
      ∀ u ∈ t.transitions, ∃ line ∈ lines, u.ComesFrom db.ruleSets line := by
  obtain ⟨log, db, t, hdb, ht, hcheck⟩ := exists_evaluated
    ("Rule R 1990 max - Apr 1 0:00u 1:00 S\n" ++
      "Rule R 1990 max - Oct 1 0:00u 0 -\nZone Nidaros 0:41 - LMT 1989\n" ++
      "\t1:00 R CE%sT 1991 Jul 1\n\t0 1:00 %s 1991 Sep 1\n" ++
      "\t0 - WET\nLink Nidaros Trondheim\n") "Trondheim" ⟨1980, 1991⟩
    (fun _ _ t => decide (t.transitions.length = 7)) (by decide +kernel)
  obtain ⟨zone, lines, hfind, hall⟩ := ht.comesFrom_line
  exact ⟨log, db, t, zone, lines, hdb, ht, hfind, of_decide_eq_true hcheck, hall⟩

end Database
end ZoneTables
