import ZoneTables.Proofs.Compilation.Evaluation
import ZoneTables.Proofs.Replay.Windows
import ZoneTables.Proofs.Timeline.NormalForm

/-!
# The years of transitions

Trimming looks for the latest transition to standard time before the years, up to the first
transition of the years, and for the last one within them. So a transition that comes too early on
its local clock is left where another before it did not, or where there is nothing but daylight
saving up to it (`minYear_le_or_of_fromLatestStandard?`), and one that comes too late is left where
a later one does not (`year_le_or_of_trimEnding`). A replay keeps to the years of UTC, but for the
starts of its segments (`start_or_hasBegun_of_segment`). `CompilesTo.years` puts this together for
compiled lists.
-/

namespace ZoneTables

open Replay

variable {ts before after : List Transition} {u : Transition} {minYear maxYear : Int}

/-! ## Trimming -/

theorem year_le_or_of_trimLatest (h : trimLatest maxYear ts = before ++ u :: after)
    (hu : u.time ≠ beginningOfTime) :
    u.year ≤ maxYear ∨
      ∃ v ∈ before, v.time ≠ beginningOfTime ∧ v.dstOffset = 0 ∧ v.year ≤ maxYear := by
  induction ts generalizing before with
  | nil => simp [trimLatest] at h
  | cons t ts ih =>
    rw [trimLatest] at h
    split at h
    · rename_i hbegin
      cases before with
      | nil =>
        obtain ⟨rfl, -⟩ := List.cons.inj h
        exact absurd hbegin hu
      | cons b before =>
        obtain ⟨-, h⟩ := List.cons.inj h
        refine (ih h).imp_right ?_
        rintro ⟨v, hv, hwithin⟩
        exact ⟨v, List.mem_cons_of_mem b hv, hwithin⟩
    · rename_i hne
      split at h
      · exact ih h
      · rename_i hkept
        rw [not_or, not_ne_iff, Int.not_lt] at hkept
        cases before with
        | nil =>
          obtain ⟨rfl, -⟩ := List.cons.inj h
          exact Or.inl hkept.2
        | cons b before =>
          obtain ⟨rfl, -⟩ := List.cons.inj h
          exact Or.inr ⟨t, List.mem_cons_self, hne, hkept⟩

/-- **What is left although it is too late** has a transition to standard time after it that is
not. -/
theorem year_le_or_of_trimEnding (h : trimEnding maxYear ts = before ++ u :: after)
    (hu : u.time ≠ beginningOfTime) :
    u.year ≤ maxYear ∨
      ∃ v ∈ after, v.time ≠ beginningOfTime ∧ v.dstOffset = 0 ∧ v.year ≤ maxYear := by
  have hlatest : trimLatest maxYear ts.reverse = after.reverse ++ u :: before.reverse := by
    rw [← List.reverse_inj, ← trimEnding, h]
    simp
  refine (year_le_or_of_trimLatest hlatest hu).imp_right ?_
  rintro ⟨v, hv, hwithin⟩
  exact ⟨v, List.mem_reverse.1 hv, hwithin⟩

/-- **What is left although it is too early** has a transition before it that is not, or nothing but
daylight saving up to it. -/
theorem minYear_le_or_of_fromLatestStandard?
    (h : fromLatestStandard? minYear (before ++ u :: after) = none)
    (hu : u.time ≠ beginningOfTime) :
    minYear ≤ u.yearAfter ∨
      (∃ v ∈ before, v.time ≠ beginningOfTime ∧ minYear ≤ v.yearAfter) ∨
      ∀ v ∈ before ++ [u], v.time ≠ beginningOfTime → v.dstOffset ≠ 0 := by
  induction before with
  | nil =>
    rw [List.nil_append, fromLatestStandard?_cons_eq_none_iff] at h
    rcases h with ⟨-, hyear⟩ | ⟨hdst, -⟩
    · exact Or.inl hyear
    · right; right
      intro v hv _
      obtain rfl := List.mem_singleton.1 hv
      exact hdst.resolve_left hu
  | cons v before ih =>
    rw [List.cons_append, fromLatestStandard?_cons_eq_none_iff] at h
    rcases h with hyear | ⟨hdst, hrest⟩
    · exact Or.inr (Or.inl ⟨v, List.mem_cons_self, hyear⟩)
    · rcases ih hrest with hyear | ⟨p, hp, hyear⟩ | hall
      · exact Or.inl hyear
      · exact Or.inr (Or.inl ⟨p, List.mem_cons_of_mem v hp, hyear⟩)
      · right; right
        exact List.forall_mem_cons.2 ⟨fun hne => hdst.resolve_left hne, hall⟩

/-! ## Compiling -/

/-- **A change is at the start of its segment, or within the years of UTC.** -/
theorem Replay.start_or_hasBegun_of_segment {ruleSets : Registry (List Rule)} {w : Window}
    {h : Handover} {line : ZoneLine} {s : Segment} {c : Change}
    (hs : segment ruleSets w h line = .ok s) (hc : c ∈ s.changes) :
    c.time = s.start ∨ HasBegun w.minYear c.time ∧ localYear c.time 0 ≤ w.maxYear := by
  rcases segment_cases hs with ⟨amount, -, rfl⟩ | ⟨set, rules, -, -, rfl⟩
  · left
    rw [List.mem_singleton.1 hc]
    rfl
  · change c ∈ ruledChanges rules line h w at hc
    rw [ruledChanges_eq, List.mem_append] at hc
    rcases hc with hc | hc
    · exact Or.inl (time_of_mem_opening hc)
    · obtain ⟨f, hf, rfl⟩ := List.mem_map.1 hc
      obtain ⟨prev, hwithin⟩ := exists_isWithin hf
      obtain ⟨-, -, hyears⟩ := isWithin_iff.1 hwithin
      exact Or.inr hyears

namespace Database

variable {db : Database} {name : String} {w : Window} {t : Timeline}

/-- **The years of a compiled list.** A transition is within the years of UTC unless a line of the
zone takes over at it. On its local clock it comes no later than the years unless a later one to
standard time does not; and a second after it no earlier than the years unless an earlier one does
not, or there is nothing but daylight saving up to it. -/
theorem CompilesTo.years (h : db.CompilesTo name w t)
    (hsplit : t.transitions = before ++ u :: after) (hu : u.time ≠ beginningOfTime) :
    ((∃ s ∈ db.segments name w, u.time = s.start) ∨
        w.minYear ≤ localYear u.time 0 ∧ localYear u.time 0 ≤ w.maxYear) ∧
      (u.year ≤ w.maxYear ∨
        ∃ v ∈ after, v.time ≠ beginningOfTime ∧ v.dstOffset = 0 ∧ v.year ≤ w.maxYear) ∧
      (w.minYear ≤ u.yearAfter ∨
        (∃ v ∈ before, v.time ≠ beginningOfTime ∧ w.minYear ≤ v.yearAfter) ∨
        ∀ v ∈ before ++ [u], v.time ≠ beginningOfTime → v.dstOffset ≠ 0) := by
  have hmem : u ∈ t.transitions := by
    rw [hsplit]
    exact List.mem_append_right before List.mem_cons_self
  rw [h.transitions_eq] at hsplit
  refine ⟨?_, year_le_or_of_trimEnding hsplit hu, ?_⟩
  · obtain ⟨s, hs, c, hc, rfl | rfl⟩ := h.exists_change hmem
    · obtain ⟨-, -, -, -, handover, hsegment⟩ := exists_of_mem_segments hs
      refine (start_or_hasBegun_of_segment hsegment hc).imp_left fun hstart => ?_
      exact ⟨s, hs, hstart⟩
    · exact absurd rfl hu
  · have hnone := fromLatestStandard?_trimEnding w.maxYear (fromLatestStandard?_trimStart w.minYear
      (removeDuplicates ((db.segments name w).flatMap Segment.transitions)))
    rw [trimYears] at hsplit
    rw [hsplit] at hnone
    exact minYear_le_or_of_fromLatestStandard? hnone hu

/-- A zone that goes by its rules in all of the years. -/
theorem years_malmo :
    ∃ log db t before u after, ofText ("Rule R 1990 max - Apr 1 0:00u 1:00 D\n" ++
        "Rule R 1990 max - Oct 1 0:00u 0 S\nZone Malmo 0 R X%sT\n") = (log, .ok db) ∧
      db.CompilesTo "Malmo" ⟨2000, 2001⟩ t ∧
      t.transitions = before ++ u :: after ∧ u.time ≠ beginningOfTime ∧
      ((∃ s ∈ db.segments "Malmo" ⟨2000, 2001⟩, u.time = s.start) ∨
        2000 ≤ localYear u.time 0 ∧ localYear u.time 0 ≤ 2001) ∧
      (u.year ≤ 2001 ∨
        ∃ v ∈ after, v.time ≠ beginningOfTime ∧ v.dstOffset = 0 ∧ v.year ≤ 2001) ∧
      (2000 ≤ u.yearAfter ∨
        (∃ v ∈ before, v.time ≠ beginningOfTime ∧ 2000 ≤ v.yearAfter) ∨
        ∀ v ∈ before ++ [u], v.time ≠ beginningOfTime → v.dstOffset ≠ 0) := by
  obtain ⟨log, db, t, hdb, ht, hcheck⟩ := exists_evaluated
    ("Rule R 1990 max - Apr 1 0:00u 1:00 D\n" ++
      "Rule R 1990 max - Oct 1 0:00u 0 S\nZone Malmo 0 R X%sT\n") "Malmo" ⟨2000, 2001⟩
    (fun _ _ t => t.transitions.any fun u => u.time != beginningOfTime) (by decide +kernel)
  obtain ⟨u, hu, hne⟩ := List.any_eq_true.1 hcheck
  obtain ⟨before, after, hsplit⟩ := List.append_of_mem hu
  have htime := bne_iff_ne.1 hne
  exact ⟨log, db, t, before, u, after, hdb, ht, hsplit, htime, ht.years hsplit htime⟩

/-- The zone `Z` of a text compiles to a list in which a transition after the first is outside of
the years on its local clock. -/
def LeavesYears (text : String) (w : Window) : Prop :=
  ∃ log db t, ofText text = (log, .ok db) ∧ db.CompilesTo "Z" w t ∧
    ∃ u ∈ t.transitions.tail, ¬(w.minYear ≤ localYear u.time u.utcOffset ∧
      localYear u.time u.utcOffset ≤ w.maxYear)

theorem leavesYears_of_evaluated? {text : String} {w : Window}
    (h : ((ofText text).2.toOption.any fun db => (db.evaluated? "Z" w).any fun found =>
      found.2.transitions.tail.any fun u =>
        decide ¬(w.minYear ≤ localYear u.time u.utcOffset ∧
          localYear u.time u.utcOffset ≤ w.maxYear)) = true) : LeavesYears text w := by
  obtain ⟨log, db, t, hdb, ht, hcheck⟩ := exists_evaluated text "Z" w
    (fun _ _ t => t.transitions.tail.any fun u =>
      decide ¬(w.minYear ≤ localYear u.time u.utcOffset ∧
        localYear u.time u.utcOffset ≤ w.maxYear)) h
  obtain ⟨u, hu, hyear⟩ := List.any_eq_true.1 hcheck
  exact ⟨log, db, t, hdb, ht, u, hu, of_decide_eq_true hyear⟩

/-- **Local clocks leave the years** in each of these ways: with daylight saving from before them,
in the last second before them, by going back to the year before them, and by going back from the
year after them. -/
theorem leavesYears :
    LeavesYears "Zone Z 0 - A 1990\n\t0 1:00 B 2010\n\t0 - C\n" ⟨2000, 2020⟩ ∧
      LeavesYears "Zone Z 0 - A 1999 Dec 31 23:59:59u\n\t0 - B\n" ⟨2000, 2020⟩ ∧
      LeavesYears ("Zone Z 0 - A 2020 Dec 31 12:00u\n" ++
        "\t14:00 - B 2020 Dec 31 13:00u\n\t0 - C\n") ⟨2021, 2030⟩ ∧
      LeavesYears ("Rule R 2020 only - Dec 31 23:30u 1:00 D\n" ++
        "Rule R 2020 only - Dec 31 23:45u 0 S\nZone Z 0 R X%sT\n") ⟨2000, 2020⟩ := by
  refine ⟨?_, ?_, ?_, ?_⟩
  · exact leavesYears_of_evaluated? (by decide +kernel)
  · exact leavesYears_of_evaluated? (by decide +kernel)
  · exact leavesYears_of_evaluated? (by decide +kernel)
  · exact leavesYears_of_evaluated? (by decide +kernel)

end Database
end ZoneTables
