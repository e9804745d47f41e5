import ZoneTables.Proofs.Replay.Windows
import ZoneTables.Proofs.Source.Groups
import ZoneTables.Proofs.Source.Rounding

/-!
# Replays in whole minutes

From lines and rules in whole minutes come firings at whole minutes (`dvd_of_mem_firings`), and from
these changes at whole minutes, but for the one that opens a segment. A segment that starts at a
whole minute hands over one (`isWhole_handover`), so that all segments but the first of a zone have
their changes there (`dvd_of_mem_replay`).
-/

namespace ZoneTables

open Replay

/-- The time of day and the amount of the rule are whole minutes. -/
structure Rule.IsWhole (r : Rule) : Prop where
  time : 60 ∣ r.time
  save : 60 ∣ r.save

theorem Rule.IsWhole.dvd_instant {r : Rule} (hr : r.IsWhole) {stdoff dst : Int}
    (hstdoff : 60 ∣ stdoff) (hdst : 60 ∣ dst) (year : Int) : 60 ∣ r.instant year stdoff dst := by
  have hclock : 60 ∣ r.clockTime year := Date.dvd_seconds hr.time _
  unfold instant
  split
  · exact hclock
  · exact Int.dvd_sub hclock hstdoff
  · exact Int.dvd_sub (Int.dvd_sub hclock hstdoff) hdst

namespace Replay

/-- What is handed over are whole minutes, but for the instant, which is the beginning of time at
first. -/
structure Handover.IsWhole (h : Handover) : Prop where
  stdoff : 60 ∣ h.stdoff
  dst : 60 ∣ h.dst

variable {ruleSets : Registry (List Rule)} {rules : List Rule} {line : ZoneLine}
  {lines : List ZoneLine} {h : Handover} {w : Window} {s : Segment} {f : Firing}

theorem isWhole_initial : Handover.initial.IsWhole := ⟨Int.dvd_zero 60, Int.dvd_zero 60⟩

theorem dvd_of_mem_candidates (hrules : ∀ r ∈ rules, r.IsWhole) (hline : 60 ∣ line.stdoff)
    (hh : h.IsWhole) (hf : f ∈ candidates rules line h w) : 60 ∣ f.time ∧ f.rule.IsWhole := by
  obtain ⟨hr, year, -, htime⟩ := time_of_mem_candidates hf
  have hrule := hrules f.rule hr
  refine ⟨?_, hrule⟩
  rcases htime with heq | heq
  · rw [heq]
    exact hrule.dvd_instant hh.stdoff hh.dst year
  · rw [heq]
    exact hrule.dvd_instant hline (Int.dvd_zero 60) year

/-- **Rules fire at whole minutes.** -/
theorem dvd_of_mem_firings (hrules : ∀ r ∈ rules, r.IsWhole) (hline : 60 ∣ line.stdoff)
    (hh : h.IsWhole) (hf : f ∈ firings rules line h w) : 60 ∣ f.time := by
  obtain ⟨g, hg, htime⟩ := time_of_mem_firings hf
  obtain ⟨hdvd, -⟩ := dvd_of_mem_candidates hrules hline hh hg
  rcases htime with heq | ⟨prev, hprev, heq⟩
  · rwa [heq]
  · obtain ⟨-, hrule⟩ := dvd_of_mem_candidates hrules hline hh hprev
    rw [heq]
    exact Int.dvd_sub hdvd hrule.save

theorem goesOn_of_mem {u : Segment} (hclosed : Source.IsClosed (line :: lines))
    (hu : u ∈ if s.isBeyond w then [] else (replay ruleSets w s.handover lines).segments) :
    line.isLast = false ∧ Source.IsClosed lines ∧
      u ∈ (replay ruleSets w s.handover lines).segments := by
  split at hu
  · cases hu
  · cases hlast : line.isLast with
    | true =>
      obtain rfl := (Source.isClosed_cons_of_isLast hlast).1 hclosed
      simp [replay] at hu
    | false => exact ⟨rfl, (Source.isClosed_cons_of_not_isLast hlast).1 hclosed, hu⟩

section

variable (hrules : ∀ name rules, ruleSets.get? name = some rules → ∀ r ∈ rules, r.IsWhole)

include hrules

section

variable (hline : line.IsWhole) (hs : segment ruleSets w h line = .ok s)

include hline hs

theorem dvd_save_of_mem_changes : ∀ c ∈ s.changes, 60 ∣ c.save := by
  intro c hc
  exact (forall_changes_of_segment (B := fun x => 60 ∣ x) (L := fun _ => True) (Int.dvd_zero 60)
    trivial hline.amount (fun name rules hset r hr => ⟨(hrules name rules hset r hr).save, trivial⟩)
    hs c hc).1

/-- **What a segment hands over are whole minutes**, the instant too unless the zone ends there. -/
theorem isWhole_handover : s.handover.IsWhole ∧ (line.isLast = false → 60 ∣ s.handover.start) := by
  have hdst : 60 ∣ s.handover.dst := by
    show 60 ∣ s.changes.getLast?.elim 0 (·.save)
    cases hlast : s.changes.getLast? with
    | none => exact Int.dvd_zero 60
    | some c => exact dvd_save_of_mem_changes hrules hline hs c (List.mem_of_getLast? hlast)
  refine ⟨⟨?_, hdst⟩, fun hlast => ?_⟩
  · show 60 ∣ s.line.stdoff
    rw [line_of_segment hs]
    exact hline.stdoff
  · show 60 ∣ s.ending
    rw [ending_of_segment hs, endingAt]
    have hending := hline.ending hlast
    split
    · exact Int.dvd_sub hending hdst
    · exact hending

variable (hh : h.IsWhole)

include hh

theorem dvd_time_of_mem_changes : ∀ c ∈ s.changes, c.time = h.start ∨ 60 ∣ c.time :=
  time_of_mem_changes (B := fun x => 60 ∣ x) hs fun name rules hset _ =>
    dvd_of_mem_firings (hrules name rules hset) hline.stdoff hh

end

/-- **From a whole minute on all changes are at whole minutes.** -/
theorem dvd_of_mem_replay (hlines : ∀ l ∈ lines, l.IsWhole) (hclosed : Source.IsClosed lines)
    (hh : h.IsWhole) (hstart : 60 ∣ h.start) :
    ∀ s ∈ (replay ruleSets w h lines).segments, ∀ c ∈ s.changes, 60 ∣ c.time := by
  induction lines generalizing h with
  | nil => simp [replay]
  | cons line rest ih =>
    obtain ⟨hline, hrest⟩ := List.forall_mem_cons.1 hlines
    cases hs : segment ruleSets w h line with
    | error name => simp [replay, hs]
    | ok s =>
      rw [segments_replay_cons hs]
      refine List.forall_mem_cons.2 ⟨fun c hc => ?_, fun u hu => ?_⟩
      · rcases dvd_time_of_mem_changes hrules hline hs hh c hc with heq | hdvd
        · rwa [heq]
        · exact hdvd
      · obtain ⟨hlast, hclosed, hu⟩ := goesOn_of_mem hclosed hu
        obtain ⟨hhandover, hnext⟩ := isWhole_handover hrules hline hs
        exact ih hrest hclosed hhandover (hnext hlast) u hu

/-- **The changes of a zone are at whole minutes**, but for the one at the beginning of time with
which its first line opens. -/
theorem dvd_of_initial (hlines : ∀ l ∈ line :: lines, l.IsWhole)
    (hclosed : Source.IsClosed (line :: lines)) (hs : segment ruleSets w .initial line = .ok s) :
    (∃ first rest, s.changes = first :: rest ∧ first.time = beginningOfTime ∧
      ∀ c ∈ rest, 60 ∣ c.time) ∧
    ∀ u ∈ (replay ruleSets w .initial (line :: lines)).segments.tail,
      ∀ c ∈ u.changes, 60 ∣ c.time := by
  obtain ⟨hline, hrest⟩ := List.forall_mem_cons.1 hlines
  constructor
  · exact exists_changes_of_not_start (B := fun x => 60 ∣ x) hs (fun name rules hset _ =>
      dvd_of_mem_firings (hrules name rules hset) hline.stdoff isWhole_initial) (by decide)
  · rw [segments_replay_cons hs]
    intro u hu
    obtain ⟨hlast, hclosed, hu⟩ := goesOn_of_mem hclosed hu
    obtain ⟨hhandover, hnext⟩ := isWhole_handover hrules hline hs
    exact dvd_of_mem_replay hrules hrest hclosed hhandover (hnext hlast) u hu

end

end Replay
end ZoneTables
