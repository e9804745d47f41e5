import ZoneTables.Proofs.Compilation.Evaluation

/-!
# The order of compiled lists

A compiled list is in strict order of time unless neighbours in it are misplaced (`Misplaced`), of
which there are three ways: a rule on the wall clock fires out of turn, a change comes after the end
of its line, or a further transition is at the beginning of time
(`Database.CompilesTo.pairwise_time_iff`). The first two come of clocks that are ahead: firings on
the wall clock are moved after they were sorted, and an end on the wall clock is moved once more
when the changes before it are known.
-/

namespace ZoneTables

open Replay

/-- The transition `q` comes after `p` in a list though it is not later, and how that happens in
the segments that the list is made of. -/
inductive Misplaced (ss : List Segment) (p q : Transition) : Prop
  /-- A transition that is not the first is at the beginning of time. -/
  | atBeginning (time_eq : q.time = beginningOfTime)
  /-- Two changes of a segment are out of order, of which one is that of a rule on the wall
  clock. -/
  | shifted (s : Segment) (c d : Change) (mem : s ∈ ss) (sublist : [c, d].Sublist s.changes)
      (wall : c.IsOnWall ∨ d.IsOnWall) (lt : d.time < c.time) (left : p = c.transition s.line)
      (right : q = d.transition s.line)
  /-- A change comes after the end of its line, which is on the wall clock, and after a change of
  a later segment. -/
  | late (s u : Segment) (c d : Change) (sublist : [s, u].Sublist ss) (left_mem : c ∈ s.changes)
      (right_mem : d ∈ u.changes) (wall : s.line.endingClock = .wall) (late : s.ending < c.time)
      (lt : d.time < c.time) (left : p = c.transition s.line) (right : q = d.transition u.line)

namespace Misplaced

variable {ss : List Segment} {p q : Transition}

theorem time_le (h : Misplaced ss p q) (hp : beginningOfTime ≤ p.time) : q.time ≤ p.time := by
  cases h with
  | atBeginning time_eq => omega
  | shifted s c d _ _ _ lt left right =>
    subst left right
    show d.time ≤ c.time
    omega
  | late s u c d _ _ _ _ _ lt left right =>
    subst left right
    show d.time ≤ c.time
    omega

end Misplaced

/-- **The changes of all segments are in order, or misplaced.** -/
theorem pairwise_flatMap_transitions {ss : List Segment} (hsound : ∀ s ∈ ss, s.IsSound)
    (hchain : ss.IsChain fun s u => u.start = s.ending) (hstarts : StartsIncrease ss) :
    (ss.flatMap Segment.transitions).Pairwise fun p q => p.time ≤ q.time ∨ Misplaced ss p q := by
  rw [List.pairwise_flatMap]
  constructor
  · intro s hs
    rw [Segment.transitions, List.pairwise_map, List.pairwise_iff_forall_sublist]
    intro c d hcd
    by_cases hle : c.time ≤ d.time
    · exact Or.inl hle
    · have hpair := List.pairwise_iff_forall_sublist.1 (hsound s hs).pairwise hcd
      exact Or.inr (.shifted s c d hs hcd (hpair.resolve_left hle) (Int.not_le.1 hle) rfl rfl)
  · rw [List.pairwise_iff_forall_sublist]
    intro s u hsu p hp q hq
    obtain ⟨c, hc, rfl⟩ := List.mem_map.1 hp
    obtain ⟨d, hd, rfl⟩ := List.mem_map.1 hq
    obtain ⟨hle, hlt⟩ :=
      List.pairwise_iff_forall_sublist.1 (pairwise_ending_le_start hchain hstarts) hsu
    have hs := hsound s (hsu.subset (by simp))
    have hu := (hsound u (hsu.subset (by simp))).start_le d hd
    by_cases hcd : c.time ≤ d.time
    · exact Or.inl hcd
    · have hlate : s.ending < c.time := by omega
      have hwall : s.line.endingClock = .wall := by
        by_contra hclock
        have := hs.le_ending (Int.le_of_lt hlt) hclock c hc
        omega
      exact Or.inr (.late s u c d hsu hc hd hwall hlate (Int.not_le.1 hcd) rfl rfl)

namespace Database
namespace CompilesTo

variable {db : Database} {name : String} {w : Window} {t : Timeline}

theorem beginningOfTime_le (h : db.CompilesTo name w t)
    (hstarts : StartsIncrease (db.segments name w)) {u : Transition} (hu : u ∈ t.transitions) :
    beginningOfTime ≤ u.time := by
  rcases h.exists_change hu with ⟨s, hs, c, hc, rfl | rfl⟩
  · exact Int.le_trans (beginningOfTime_le_start hstarts hs)
      ((isSound_of_mem_segments hs).start_le c hc)
  · exact Int.le_refl _

theorem lt_or_misplaced (h : db.CompilesTo name w t)
    (hstarts : StartsIncrease (db.segments name w)) {p q : Transition}
    (hpq : [p, q] <:+: t.transitions) :
    p.time < q.time ∨ Misplaced (db.segments name w) p q := by
  by_cases hq : q.time = beginningOfTime
  · exact Or.inr (.atBeginning hq)
  have hle := h.beginningOfTime_le hstarts (hpq.subset (by simp : q ∈ [p, q]))
  rw [h.transitions_eq] at hpq
  rcases infix_of_infix_trimYears hpq with hp | hq' | hinfix
  · left
    omega
  · exact absurd hq' hq
  · -- neighbours that are kept do not come at one instant
    have hne : p.time ≠ q.time := by
      obtain ⟨l, r, hlr⟩ := hinfix
      have hchain := isChain_removeDuplicates ((db.segments name w).flatMap Segment.transitions)
      have hrepeats := List.isChain_iff_forall_rel_of_append_cons_cons.1 hchain
        (by simpa using hlr.symm : _ = l ++ p :: q :: r)
      simp only [Transition.repeats, Bool.or_eq_false_iff, beq_eq_false_iff_ne] at hrepeats
      exact fun heq => hrepeats.1 heq.symm
    have hpairs := pairwise_flatMap_transitions (fun _ => isSound_of_mem_segments)
      isChain_segments hstarts
    have hsublist := hinfix.sublist.trans (removeDuplicates_sublist _)
    rcases List.pairwise_iff_forall_sublist.1 hpairs hsublist with htime | hmisplaced
    · left
      omega
    · exact Or.inr hmisplaced

/-- **When a compiled list is in strict order**: if no neighbours in it are misplaced, where the
segments of the zone start one after the other. -/
theorem pairwise_time_iff (h : db.CompilesTo name w t)
    (hstarts : StartsIncrease (db.segments name w)) :
    t.transitions.Pairwise (fun p q => p.time < q.time) ↔
      ∀ p q, [p, q] <:+: t.transitions → ¬ Misplaced (db.segments name w) p q := by
  constructor
  · intro hpairwise p q hpq hmisplaced
    have hlt := List.pairwise_iff_forall_sublist.1 hpairwise hpq.sublist
    have hle := hmisplaced.time_le (h.beginningOfTime_le hstarts (hpq.subset (by simp)))
    omega
  · intro hplaced
    have hchain : (t.transitions.map (·.time)).IsChain (· < ·) := by
      rw [List.isChain_map, List.isChain_iff_forall_rel_of_append_cons_cons]
      intro p q l r hts
      have hpq : [p, q] <:+: t.transitions := ⟨l, r, by simp [hts]⟩
      exact (h.lt_or_misplaced hstarts hpq).resolve_right (hplaced p q hpq)
    exact List.pairwise_map.1 (List.isChain_iff_pairwise.1 hchain)

end CompilesTo

theorem pairwise_time_narvik :
    ∃ log db t, ofText narvik = (log, .ok db) ∧
      db.CompilesTo "Narvik" ⟨1986, 1989⟩ t ∧ t.transitions.length = 7 ∧
      StartsIncrease (db.segments "Narvik" ⟨1986, 1989⟩) ∧
      ∀ p q, [p, q] <:+: t.transitions →
        ¬ Misplaced (db.segments "Narvik" ⟨1986, 1989⟩) p q := by
  obtain ⟨log, db, t, hdb, ht, hcheck⟩ := exists_evaluated narvik "Narvik" ⟨1986, 1989⟩
    (fun _ ss t => decide (StartsIncrease ss) && decide (t.transitions.length = 7) &&
      decide (t.transitions.Pairwise fun (p q : Transition) => p.time < q.time)) (by decide +kernel)
  simp only [Bool.and_eq_true, decide_eq_true_eq] at hcheck
  obtain ⟨⟨hstarts, hlength⟩, hpairwise⟩ := hcheck
  exact ⟨log, db, t, hdb, ht, hlength, hstarts, (ht.pairwise_time_iff hstarts).1 hpairwise⟩

/-- A rule that fires within the hour before an end on the wall clock, by which time clocks are
ahead: the end comes before it. -/
theorem out_of_order :
    ∃ log db t, ofText ("Rule R 2000 only - Apr 2 1:00u 1:00 B\n" ++
        "Zone Z 0 R G/B 2000 Apr 2 1:30\n\t0:20 - C\n") = (log, .ok db) ∧
      db.CompilesTo "Z" ⟨2000, 2000⟩ t ∧ StartsIncrease (db.segments "Z" ⟨2000, 2000⟩) ∧
      t.transitions.map (·.time) = [beginningOfTime, 954637200, 954635400] := by
  obtain ⟨log, db, t, hdb, ht, hcheck⟩ := exists_compiled
    ("Rule R 2000 only - Apr 2 1:00u 1:00 B\n" ++
      "Zone Z 0 R G/B 2000 Apr 2 1:30\n\t0:20 - C\n") "Z" ⟨2000, 2000⟩
    (fun db t => decide (StartsIncrease (db.segments "Z" ⟨2000, 2000⟩)) &&
      t.transitions.map (·.time) == [beginningOfTime, 954637200, 954635400]) (by decide +kernel)
  simp only [Bool.and_eq_true, decide_eq_true_eq, beq_iff_eq] at hcheck
  exact ⟨log, db, t, hdb, ht, hcheck⟩

end Database
end ZoneTables
