import ZoneTables.Proofs.Compilation.Evaluation
import ZoneTables.Proofs.Compilation.Validation
import ZoneTables.Proofs.Replay.Times
import ZoneTables.Proofs.Source.Acceptance
import ZoneTables.Proofs.Timeline.NormalForm

/-!
# Compiled lists are in normal form

The first segment of a zone opens at the beginning of time, and every other starts where one ends,
which is not long ago (`longAgo_lt_ending`). The changes of a zone therefore begin there once,
whatever their order is (`CompilesTo.beginsOnce`), and the compiled list is in normal form
(`CompilesTo.isNormal`).
-/

namespace ZoneTables

open Replay

namespace Database

variable {db : Database} {name : String} {w : Window} {t : Timeline} {s : Segment}

/-- **No segment ends long ago.** -/
theorem longAgo_lt_ending (hordinary : db.Holds ZoneLine.IsOrdinary Rule.IsOrdinary)
    (hs : s ∈ db.segments name w) : longAgo < s.ending := by
  obtain ⟨hline, hsave⟩ := forall_changes hordinary (B := fun x => x.natAbs ≤ 93600) (by decide)
    (L := fun _ => True) trivial (fun l amount hl => hl.amount amount)
    (fun r hr => ⟨hr.save, trivial⟩) hs
  obtain ⟨-, -, -, -, h, hsegment⟩ := exists_of_mem_segments hs
  rw [ending_of_segment hsegment]
  refine longAgo_lt_endingAt hline ?_
  show (s.changes.getLast?.elim 0 (·.save)).natAbs ≤ 93600
  cases hlast : s.changes.getLast? with
  | none => decide
  | some c => exact (hsave c (List.mem_of_getLast? hlast)).1

theorem CompilesTo.exists_segments {zone : String} {line : ZoneLine} {rest : List ZoneLine}
    (h : db.CompilesTo name w t) (hfind : db.find name = .ok (zone, line :: rest)) :
    ∃ s ss, segment db.ruleSets w .initial line = .ok s ∧ db.segments name w = s :: ss := by
  cases hs : segment db.ruleSets w .initial line with
  | error rules =>
    have ht := (compilesTo_of_find hfind).1 h
    simp only [compileLines, replay, hs] at ht
    cases ht
  | ok s =>
    exact ⟨s, _, rfl, (segments_of_find hfind).trans (segments_replay_cons hs)⟩

/-- The changes of segments begin once if those of the first segment do and the times of all others
are such as the beginning of time is not. -/
theorem beginsOnce_flatMap {B : Int → Prop} {ss : List Segment} (hB : ¬ B beginningOfTime)
    (hs : ∃ first rest, s.changes = first :: rest ∧ first.time = beginningOfTime ∧
      ∀ c ∈ rest, B c.time)
    (hss : ∀ u ∈ ss, ∀ c ∈ u.changes, B c.time) :
    BeginsOnce ((s :: ss).flatMap Segment.transitions) := by
  obtain ⟨first, changes, hchanges, hfirst, hlater⟩ := hs
  have hne {x : Int} (hx : B x) : x ≠ beginningOfTime := fun heq => hB (heq ▸ hx)
  refine ⟨first.transition s.line, changes.map (·.transition s.line) ++
    ss.flatMap Segment.transitions, ?_, hfirst, fun u hu => ?_⟩
  · rw [List.flatMap_cons, Segment.transitions, hchanges]
    rfl
  · rcases List.mem_append.1 hu with hu | hu
    · obtain ⟨c, hc, rfl⟩ := List.mem_map.1 hu
      exact hne (hlater c hc)
    · obtain ⟨v, hv, huv⟩ := List.mem_flatMap.1 hu
      obtain ⟨c, hc, rfl⟩ := List.mem_map.1 huv
      exact hne (hss v hv c hc)

/-- **The changes of a zone begin at the beginning of time**, and none but the first is there. -/
theorem CompilesTo.beginsOnce {options : Source.Options} {sources : Registry String}
    {names : Option (List String)} {log : Log} (h : db.CompilesTo name w t)
    (hdb : ofSources options sources names = (log, .ok db))
    (hordinary : db.Holds ZoneLine.IsOrdinary Rule.IsOrdinary) :
    BeginsOnce ((db.segments name w).flatMap Segment.transitions) := by
  obtain ⟨zone, lines, hfind, -⟩ := h.exists_lines
  have hlines := get?_of_find hfind
  obtain ⟨line, rest, rfl⟩ :=
    List.exists_cons_of_ne_nil (Source.isClosed_of_ofSources hdb hlines).ne_nil
  obtain ⟨s, ss, hs, hsegments⟩ := h.exists_segments hfind
  have hdated := Source.isDated_of_ofSources hdb
  have hfirst := exists_changes_of_initial hs
    (hordinary.zones zone _ hlines line List.mem_cons_self) fun name rules hrules r hr =>
      ⟨hdated.ruleSets name rules hrules r hr, hordinary.ruleSets name rules hrules r hr⟩
  have hchain : (s :: ss).IsChain fun s u => u.start = s.ending := hsegments ▸ isChain_segments
  rw [hsegments]
  refine beginsOnce_flatMap not_longAgo_lt_beginningOfTime hfirst fun v hv c hc => ?_
  obtain ⟨p, hp, hstart⟩ := exists_ending_eq_start hchain v hv
  have hending := longAgo_lt_ending hordinary (hsegments ▸ hp)
  have hsound := isSound_of_mem_segments (hsegments ▸ List.mem_cons_of_mem s hv)
  have hle := hsound.start_le c hc
  omega

/-- **Compiled lists are in normal form**, where lines end in the year -10000 or later and offsets,
amounts and times of day are at most 26 hours. -/
theorem CompilesTo.isNormal {options : Source.Options} {sources : Registry String}
    {names : Option (List String)} {log : Log} (h : db.CompilesTo name w t)
    (hdb : ofSources options sources names = (log, .ok db))
    (hordinary : db.Holds ZoneLine.IsOrdinary Rule.IsOrdinary) :
    IsNormal w.minYear w.maxYear t.transitions := by
  rw [h.transitions_eq]
  exact (h.beginsOnce hdb hordinary).isNormal_trimYears w.minYear w.maxYear

/-- A zone that takes up standard time in the year -9999 and rules in this age, by a link. -/
theorem isNormal_nippur :
    ∃ log db t, ofText ("Rule R 1990 max - Apr 1 0:00u 1:00 D\n" ++
        "Rule R 1990 max - Oct 1 0:00u 0 S\n" ++
        "Zone Ur 3:04 - LMT -9999\n\t3:00 R X%sT\nLink Ur Nippur\n") = (log, .ok db) ∧
      db.Holds ZoneLine.IsOrdinary Rule.IsOrdinary ∧ db.CompilesTo "Nippur" ⟨1980, 1991⟩ t ∧
      t.transitions.length = 5 ∧ IsNormal 1980 1991 t.transitions := by
  obtain ⟨log, db, t, hdb, ht, hcheck⟩ := exists_evaluated
    ("Rule R 1990 max - Apr 1 0:00u 1:00 D\n" ++ "Rule R 1990 max - Oct 1 0:00u 0 S\n" ++
      "Zone Ur 3:04 - LMT -9999\n\t3:00 R X%sT\nLink Ur Nippur\n") "Nippur" ⟨1980, 1991⟩
    (fun db _ t => decide (db.Holds ZoneLine.IsOrdinary Rule.IsOrdinary) &&
      decide (t.transitions.length = 5)) (by decide +kernel)
  simp only [Bool.and_eq_true, decide_eq_true_eq] at hcheck
  obtain ⟨hordinary, hlength⟩ := hcheck
  exact ⟨log, db, t, hdb, hordinary, ht, hlength, ht.isNormal hdb hordinary⟩

end Database
end ZoneTables
