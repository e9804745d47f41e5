import Mathlib.Data.List.Chain
import ZoneTables.Proofs.Replay.Segment
import ZoneTables.Replay.Basic

/-!
# The segments of a replay

A replay has a segment for each line of a beginning of the zone's lines (`map_line_isPrefix`), each
starting where the one before ends (`isChain_segments`). Where starts are increasing, a segment ends
no later than any that follows starts (`pairwise_ending_le_start`).
-/

namespace ZoneTables.Replay

variable {ruleSets : Registry (List Rule)} {w : Window} {h : Handover} {line : ZoneLine}
  {lines : List ZoneLine} {s : Segment} {c : Change}

/-! ## One segment -/

theorem segment_cases (hs : segment ruleSets w h line = .ok s) :
    (∃ amount, line.saving = .fixed amount ∧ s = fixedSegment line h amount) ∨
      ∃ name rules, line.saving = .ruled name ∧ ruleSets.get? name = some rules ∧
        s = ruledSegment rules line h w := by
  unfold segment at hs
  split at hs
  · rename_i amount hsaving
    exact Or.inl ⟨amount, hsaving, (Except.ok.inj hs).symm⟩
  · rename_i name hsaving
    split at hs
    · rename_i rules hrules
      exact Or.inr ⟨name, rules, hsaving, hrules, (Except.ok.inj hs).symm⟩
    · cases hs

theorem line_of_segment (hs : segment ruleSets w h line = .ok s) : s.line = line := by
  rcases segment_cases hs with ⟨amount, -, rfl⟩ | ⟨name, rules, -, -, rfl⟩
  · rfl
  · rfl

theorem start_of_segment (hs : segment ruleSets w h line = .ok s) : s.start = h.start := by
  rcases segment_cases hs with ⟨amount, -, rfl⟩ | ⟨name, rules, -, -, rfl⟩
  · rfl
  · rfl

/-- What every segment is like. -/
structure Segment.IsSound (s : Segment) : Prop where
  changes_ne_nil : s.changes ≠ []
  start_le : ∀ c ∈ s.changes, s.start ≤ c.time
  /-- Only where the end of the line is on the wall clock can a change come after the segment. -/
  le_ending : s.start ≤ s.ending → s.line.endingClock ≠ .wall → ∀ c ∈ s.changes, c.time ≤ s.ending
  /-- Only rules on the wall clock put changes out of order. -/
  pairwise : s.changes.Pairwise fun c d => c.time ≤ d.time ∨ c.IsOnWall ∨ d.IsOnWall
  /-- With a fixed amount there is one change, at the start. -/
  of_fixed : ∀ amount, s.line.saving = .fixed amount →
    s.changes = [⟨s.start, amount, unknownLetters, none⟩]

theorem endingAt_of_ne_wall (hclock : line.endingClock ≠ .wall) (dst : Int) :
    endingAt line dst = line.ending := by
  simp [endingAt, hclock]

theorem isSound_fixedSegment {amount : Int} (hsaving : line.saving = .fixed amount) :
    (fixedSegment line h amount).IsSound where
  changes_ne_nil := List.cons_ne_nil _ _
  start_le c hc := by
    rw [List.mem_singleton.1 hc]
    exact Int.le_refl _
  le_ending hle _ c hc := by
    rw [List.mem_singleton.1 hc]
    exact hle
  pairwise := List.pairwise_singleton _ _
  of_fixed other hother := by
    obtain rfl : amount = other := Saving.fixed.inj (hsaving.symm.trans hother)
    rfl

theorem isSound_ruledSegment {name : String} {rules : List Rule}
    (hsaving : line.saving = .ruled name) : (ruledSegment rules line h w).IsSound where
  changes_ne_nil := ruledChanges_ne_nil
  start_le _ := start_le_of_mem_ruledChanges
  le_ending hle hclock c hc := by
    rcases start_or_lt_of_mem_ruledChanges hclock hc with heq | hlt
    · rw [heq]
      exact hle
    · have hending : (ruledSegment rules line h w).ending = line.ending :=
        endingAt_of_ne_wall hclock _
      rw [hending]
      exact Int.le_of_lt hlt
  pairwise := pairwise_ruledChanges
  of_fixed other hother := by cases hsaving.symm.trans hother

theorem isSound_of_segment (hs : segment ruleSets w h line = .ok s) : s.IsSound := by
  rcases segment_cases hs with ⟨amount, hsaving, rfl⟩ | ⟨name, rules, hsaving, -, rfl⟩
  · exact isSound_fixedSegment hsaving
  · exact isSound_ruledSegment hsaving

/-- What holds of the amount of a line and of those of the rules holds of the amounts of changes,
and what holds of the letters of the rules holds of theirs. -/
theorem forall_changes_of_segment {B : Int → Prop} {L : String → Prop} (hzero : B 0)
    (hunknown : L unknownLetters) (hfixed : ∀ amount, line.saving = .fixed amount → B amount)
    (hrules : ∀ name rules, ruleSets.get? name = some rules →
      ∀ r ∈ rules, B r.save ∧ L r.letters)
    (hs : segment ruleSets w h line = .ok s) : ∀ c ∈ s.changes, B c.save ∧ L c.letters := by
  rcases segment_cases hs with ⟨amount, hsaving, rfl⟩ | ⟨name, rules, -, hset, rfl⟩
  · intro c hc
    rw [List.mem_singleton.1 hc]
    exact ⟨hfixed amount hsaving, hunknown⟩
  · exact forall_ruledChanges hzero hunknown (hrules name rules hset)

section

variable {B : Int → Prop} (hs : segment ruleSets w h line = .ok s)
  (hfirings : ∀ name rules, ruleSets.get? name = some rules →
    ∀ f ∈ firings rules line h w, B f.time)

include hs hfirings

theorem time_of_mem_changes : ∀ c ∈ s.changes, c.time = h.start ∨ B c.time := by
  rcases segment_cases hs with ⟨amount, -, rfl⟩ | ⟨name, rules, -, hset, rfl⟩
  · intro c hc
    rw [List.mem_singleton.1 hc]
    exact Or.inl rfl
  · intro c hc
    have hc : c ∈ ruledChanges rules line h w := hc
    rw [ruledChanges_eq, List.mem_append] at hc
    rcases hc with hc | hc
    · exact Or.inl (time_of_mem_opening hc)
    · obtain ⟨f, hf, rfl⟩ := List.mem_map.1 hc
      exact Or.inr (hfirings name rules hset f (insideFirings_sublist.subset hf))

/-- Where no rule can fire at the start, the first change opens the segment and the others are at
the times of firings. -/
theorem exists_changes_of_not_start (hstart : ¬ B h.start) :
    ∃ first rest, s.changes = first :: rest ∧ first.time = h.start ∧ ∀ c ∈ rest, B c.time := by
  rcases segment_cases hs with ⟨amount, -, rfl⟩ | ⟨name, rules, -, hset, rfl⟩
  · exact ⟨_, [], rfl, rfl, by simp⟩
  · have hinside : ∀ f ∈ insideFirings rules line h w, B f.time :=
      fun f hf => hfirings name rules hset f (insideFirings_sublist.subset hf)
    have hnone : ∀ f ∈ insideFirings rules line h w, f.time ≠ h.start := by
      rintro f hf heq
      exact hstart (heq ▸ hinside f hf)
    refine ⟨_, _, ruledChanges_eq_cons hnone, openingChange_time _ _ _, fun c hc => ?_⟩
    obtain ⟨f, hf, rfl⟩ := List.mem_map.1 hc
    exact hinside f hf

end

/-! ## All segments -/

/-- **What holds of the segment of every line holds of all segments of a replay.** -/
theorem forall_segments {P : Segment → Prop}
    (hP : ∀ line ∈ lines, ∀ h s, segment ruleSets w h line = .ok s → P s) (h : Handover) :
    ∀ s ∈ (replay ruleSets w h lines).segments, P s := by
  induction lines generalizing h with
  | nil => simp [replay]
  | cons line rest ih =>
    rw [replay]
    split
    · simp
    · rename_i s hs
      have hhead := hP line List.mem_cons_self h s hs
      split
      · simpa using hhead
      · have hrest := ih (fun l hl => hP l (List.mem_cons_of_mem _ hl)) s.handover
        exact List.forall_mem_cons.2 ⟨hhead, hrest⟩

theorem map_line_isPrefix (ruleSets : Registry (List Rule)) (w : Window) (h : Handover)
    (lines : List ZoneLine) :
    (replay ruleSets w h lines).segments.map (·.line) <+: lines := by
  induction lines generalizing h with
  | nil => simp [replay]
  | cons line rest ih =>
    rw [replay]
    split
    · simp
    · rename_i s hs
      split
      · simp [line_of_segment hs]
      · rw [List.map_cons, line_of_segment hs]
        exact List.prefix_cons_inj line |>.2 (ih s.handover)

theorem start_of_head? (h : Handover) (lines : List ZoneLine) :
    ∀ s ∈ (replay ruleSets w h lines).segments.head?, s.start = h.start := by
  cases lines with
  | nil => simp [replay]
  | cons line rest =>
    rw [replay]
    split
    · simp
    · rename_i s hs
      split <;> simp [start_of_segment hs]

/-- **Each segment starts where the one before ends.** -/
theorem isChain_segments (h : Handover) (lines : List ZoneLine) :
    (replay ruleSets w h lines).segments.IsChain fun s u => u.start = s.ending := by
  induction lines generalizing h with
  | nil => exact .nil
  | cons line rest ih =>
    rw [replay]
    split
    · exact .nil
    · rename_i s hs
      split
      · exact .singleton s
      · rw [List.isChain_cons]
        exact ⟨start_of_head? s.handover rest, ih s.handover⟩

theorem exists_ending_eq_start {ss : List Segment}
    (hchain : (s :: ss).IsChain fun s u => u.start = s.ending) :
    ∀ u ∈ ss, ∃ p ∈ s :: ss, u.start = p.ending := by
  induction ss generalizing s with
  | nil => simp
  | cons v ss ih =>
    obtain ⟨hv, hchain⟩ := List.isChain_cons_cons.1 hchain
    intro u hu
    rcases List.mem_cons.1 hu with rfl | hu
    · exact ⟨s, List.mem_cons_self, hv⟩
    · obtain ⟨p, hp, hstart⟩ := ih hchain u hu
      exact ⟨p, List.mem_cons_of_mem _ hp, hstart⟩

/-- The segments start one after the other. -/
def StartsIncrease (ss : List Segment) : Prop := ss.Pairwise fun s u => s.start < u.start

instance (ss : List Segment) : Decidable (StartsIncrease ss) :=
  inferInstanceAs (Decidable (ss.Pairwise fun s u => s.start < u.start))

theorem pairwise_ending_le_start {ss : List Segment}
    (hchain : ss.IsChain fun s u => u.start = s.ending) (hstarts : StartsIncrease ss) :
    ss.Pairwise fun s u => s.ending ≤ u.start ∧ s.start < s.ending := by
  induction ss with
  | nil => exact .nil
  | cons s ss ih =>
    obtain ⟨hhead, htail⟩ := List.pairwise_cons.1 hstarts
    obtain ⟨hnext, hchain⟩ := List.isChain_cons.1 hchain
    rw [List.pairwise_cons]
    refine ⟨?_, ih hchain htail⟩
    intro u hu
    cases ss with
    | nil => cases hu
    | cons v vs =>
      have hv : v.start = s.ending := hnext v rfl
      have hsv := hhead v List.mem_cons_self
      rw [← hv]
      refine ⟨?_, hsv⟩
      rcases List.mem_cons.1 hu with rfl | hu
      · exact Int.le_refl _
      · exact Int.le_of_lt ((List.pairwise_cons.1 htail).1 u hu)

end ZoneTables.Replay
