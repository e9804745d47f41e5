import ZoneTables.Proofs.Replay.Windows
import ZoneTables.Proofs.Source.Dates

/-!
# Nothing happens long ago

No rule fires before 1800, and a line that ends in the year -10000 or later does not end long ago.
With offsets, amounts and times of at most 26 hours, firings (`longAgo_lt_of_mem_firings`) and the
ends of segments (`longAgo_lt_endingAt`) therefore come after `longAgo`. At the beginning of time,
which is longer ago, is the change with which the first segment of a zone opens, and no other
(`exists_changes_of_initial`).
-/

namespace ZoneTables

/-- An instant before the year -10000, with room for some days. -/
def longAgo : Int := -1000000000000

theorem not_longAgo_lt_beginningOfTime : ¬ longAgo < beginningOfTime := by decide

theorem longAgo_add_lt_of_le_localYear {instant offset : Int} (hoffset : offset.natAbs ≤ 93600)
    (hyear : -10000 ≤ localYear instant offset) : longAgo + 93600 < instant := by
  by_contra hle
  have hday : (instant + offset) / secondsPerDay ≤ (longAgo + 93600 + 93600) / secondsPerDay :=
    Int.ediv_le_ediv (by decide) (by omega)
  have hmono : localYear instant offset ≤ _ := Date.year_ofDayNumber_mono hday
  have hlong : (Date.ofDayNumber ((longAgo + 93600 + 93600) / secondsPerDay)).year < -10000 := by
    decide
  omega

theorem Rule.longAgo_add_lt_instant {r : Rule} {year stdoff dst : Int} (hdated : r.IsDated)
    (hordinary : r.IsOrdinary) (hyear : firstRuleYear ≤ year) (hstdoff : stdoff.natAbs ≤ 93600)
    (hdst : dst.natAbs ≤ 93600) : longAgo + 93600 < r.instant year stdoff dst := by
  have hday : Date.dayNumber ⟨firstRuleYear, 1, -5⟩ ≤ (r.on.resolve year r.month).dayNumber :=
    Int.le_trans (dayNumber_january_mono hyear _)
      (hdated.on.le_dayNumber_resolve hdated.one_le_month year)
  have hfirst : Date.dayNumber ⟨firstRuleYear, 1, -5⟩ = -62097 := by decide
  have htime := hordinary.time
  have hclock : longAgo + 3 * 93600 < r.clockTime year := by
    unfold clockTime Date.seconds secondsPerDay longAgo
    omega
  unfold instant
  split <;> omega

namespace Replay

variable {ruleSets : Registry (List Rule)} {rules : List Rule} {line : ZoneLine} {h : Handover}
  {w : Window} {s : Segment} {f : Firing}

section Firings

variable (hrules : ∀ r ∈ rules, r.IsDated ∧ r.IsOrdinary) (hline : line.stdoff.natAbs ≤ 93600)
  (hstdoff : h.stdoff.natAbs ≤ 93600) (hdst : h.dst.natAbs ≤ 93600)

include hrules hline hstdoff hdst

theorem longAgo_add_lt_of_mem_candidates (hf : f ∈ candidates rules line h w) :
    longAgo + 93600 < f.time ∧ f.rule.save.natAbs ≤ 93600 := by
  obtain ⟨hr, year, hyear, htime⟩ := time_of_mem_candidates hf
  obtain ⟨hdated, hordinary⟩ := hrules f.rule hr
  refine ⟨?_, hordinary.save⟩
  rcases htime with heq | heq
  · rw [heq]
    exact Rule.longAgo_add_lt_instant hdated hordinary hyear hstdoff hdst
  · rw [heq]
    exact Rule.longAgo_add_lt_instant hdated hordinary hyear hline (by decide)

/-- **No firing is long ago**: it is a candidate, less at most what clocks are ahead. -/
theorem longAgo_lt_of_mem_firings (hf : f ∈ firings rules line h w) : longAgo < f.time := by
  obtain ⟨g, hg, htime⟩ := time_of_mem_firings hf
  obtain ⟨hlong, -⟩ := longAgo_add_lt_of_mem_candidates hrules hline hstdoff hdst hg
  rcases htime with heq | ⟨prev, hprev, heq⟩
  · omega
  · obtain ⟨-, hsave⟩ := longAgo_add_lt_of_mem_candidates hrules hline hstdoff hdst hprev
    omega

end Firings

/-- **No segment ends long ago.** -/
theorem longAgo_lt_endingAt {dst : Int} (hline : line.IsOrdinary) (hdst : dst.natAbs ≤ 93600) :
    longAgo < endingAt line dst := by
  have hending := longAgo_add_lt_of_le_localYear hline.stdoff hline.ending
  unfold endingAt
  split <;> omega

/-- **Only the first change of a zone is at the beginning of time**, of those of its first line. -/
theorem exists_changes_of_initial (hs : segment ruleSets w .initial line = .ok s)
    (hline : line.IsOrdinary)
    (hrules : ∀ name rules, ruleSets.get? name = some rules →
      ∀ r ∈ rules, r.IsDated ∧ r.IsOrdinary) :
    ∃ first rest, s.changes = first :: rest ∧ first.time = beginningOfTime ∧
      ∀ c ∈ rest, longAgo < c.time := by
  refine exists_changes_of_not_start hs (fun name rules hset f hf => ?_)
    not_longAgo_lt_beginningOfTime
  exact longAgo_lt_of_mem_firings (hrules name rules hset) hline.stdoff (by decide) (by decide) hf

end Replay
end ZoneTables
