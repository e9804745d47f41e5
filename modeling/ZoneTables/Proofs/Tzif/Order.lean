import ZoneTables.Proofs.Timeline.NormalForm
import ZoneTables.Proofs.Tzif.Reading

/-!
# The order of transitions from zone files

The beginning of time is later than the least times that a file can hold, and only one of these is
put there. Whatever else comes before it stays in its place, after the transition at the beginning,
unless it changes nothing and is removed as a duplicate. So the transitions of a file with times in
order are in order exactly if nothing but duplicates comes that early (`decode_later_inOrder_iff`).
-/

namespace ZoneTables.Tzif

variable {timeSize : Nat} {version : UInt8} {c : Content timeSize} {marker start time : Int}
variable {t u : NamedType} {es : List (Int × Fin c.types.length)}

theorem NamedType.repeats_transition_iff :
    (u.transition time).repeats (t.transition start) = true ↔
      time = start ∨ u.transition start = t.transition start := by
  simp [Transition.repeats, NamedType.transition, and_assoc]

namespace Content

theorem time_entryTransition_of_ne {e : Int × Fin c.types.length} (h : e.1 ≠ marker) :
    (c.entryTransition marker e).time = e.1 := if_neg h

/-- Before the beginning of time only what stands for it, or looks the same, is removed. -/
theorem repeats_entryTransition_iff {e : Int × Fin c.types.length} (he : e.1 < beginningOfTime) :
    (c.entryTransition marker e).repeats (t.transition beginningOfTime) = true ↔
      e.1 = marker ∨ (c.typeOf e).transition beginningOfTime = t.transition beginningOfTime := by
  rw [entryTransition, NamedType.repeats_transition_iff]
  refine or_congr_left ?_
  split
  · rename_i heq
    exact iff_of_true rfl heq
  · rename_i hne
    exact iff_of_false (Int.ne_of_lt he) hne

theorem exists_timeline_eq_cons (marker : Int) (h : c.types ≠ []) :
    ∃ (t : NamedType) (es : List (Int × Fin c.types.length)),
      c.timeline marker = t.transition beginningOfTime :: es.map (c.entryTransition marker) ∧
        (c.entries = es ∨ ∃ e, c.entries = e :: es ∧ e.1 = marker) := by
  unfold timeline
  split
  · rename_i hhead
    cases hentries : c.entries with
    | nil => simp [hentries] at hhead
    | cons e es =>
      have hmarker : e.1 = marker := by simpa [hentries] using hhead
      refine ⟨c.typeOf e, es, ?_, Or.inr ⟨e, rfl, hmarker⟩⟩
      rw [List.map_cons, entryTransition, if_pos hmarker]
      rfl
  · have htake : c.types.take 1 = [c.types.head h] := by
      rw [List.take_one, List.head?_eq_some_head h]
      rfl
    refine ⟨c.types.head h, c.entries, ?_, Or.inl rfl⟩
    rw [htake]
    rfl

/-- Entries from the beginning of time on leave only transitions after it: one at the beginning is a
duplicate. -/
theorem lt_time_of_mem_dropRepeats {e : Int × Fin c.types.length} {u : Transition}
    (hmarker : marker < beginningOfTime) (he : beginningOfTime ≤ e.1) (hes : ∀ d ∈ es, e.1 < d.1)
    (hu : u ∈ dropRepeats (t.transition beginningOfTime)
      ((e :: es).map (c.entryTransition marker))) :
    beginningOfTime < u.time := by
  have hlate : ∀ v ∈ es.map (c.entryTransition marker), beginningOfTime < v.time := by
    rw [List.forall_mem_map]
    intro d hd
    have hlt := hes d hd
    rw [time_entryTransition_of_ne (by omega)]
    omega
  rw [List.map_cons, dropRepeats] at hu
  split at hu
  · exact hlate u ((dropRepeats_sublist _ _).subset hu)
  · rename_i hkept
    rcases List.mem_cons.1 hu with rfl | hu
    · have hne : (c.entryTransition marker e).time ≠ beginningOfTime := by
        intro htime
        exact hkept (NamedType.repeats_transition_iff.2 (Or.inl htime))
      rw [time_entryTransition_of_ne (by omega)] at hne ⊢
      omega
    · exact hlate u ((dropRepeats_sublist _ _).subset hu)

/-- **What is left after the first transition comes later** exactly if nothing but duplicates of it
comes before the beginning of time. -/
theorem forall_mem_dropRepeats_iff (hmarker : marker < beginningOfTime)
    (hsorted : es.Pairwise fun d e => d.1 < e.1) :
    (∀ u ∈ dropRepeats (t.transition beginningOfTime) (es.map (c.entryTransition marker)),
        beginningOfTime < u.time) ↔
      ∀ e ∈ es, e.1 < beginningOfTime → e.1 ≠ marker →
        (c.typeOf e).transition beginningOfTime = t.transition beginningOfTime := by
  induction es with
  | nil => simp [dropRepeats]
  | cons e es ih =>
    obtain ⟨he, hes⟩ := List.pairwise_cons.1 hsorted
    rcases Int.lt_or_le e.1 beginningOfTime with hlow | hhigh
    · have hrepeats :
          (c.entryTransition marker e).repeats (t.transition beginningOfTime) = true ↔ _ :=
        repeats_entryTransition_iff hlow
      rw [List.map_cons, dropRepeats, List.forall_mem_cons]
      split
      · rename_i hdropped
        rw [ih hes]
        refine (and_iff_right fun _ hne => ?_).symm
        exact (hrepeats.1 hdropped).resolve_left hne
      · -- It is kept, in front of the beginning, and what it is to does not look the same.
        rename_i hkept
        rw [hrepeats, not_or] at hkept
        refine iff_of_false (fun h => ?_) fun h => hkept.2 (h.1 hlow hkept.1)
        have hlate := h _ List.mem_cons_self
        rw [time_entryTransition_of_ne hkept.1] at hlate
        omega
    · refine iff_of_true (fun u hu => lt_time_of_mem_dropRepeats hmarker hhigh he hu) ?_
      intro d hd hlt
      rcases List.mem_cons.1 hd with rfl | hd
      · omega
      · have := he d hd
        omega

theorem pairwise_of_sublist {us : List Transition} (hsorted : es.Pairwise fun d e => d.1 < e.1)
    (hsublist : us.Sublist (es.map (c.entryTransition marker)))
    (hlate : ∀ u ∈ us, beginningOfTime < u.time) : us.Pairwise fun u v => u.time < v.time := by
  have hfilter : us.Sublist
      ((es.map (c.entryTransition marker)).filter fun u => beginningOfTime < u.time) := by
    rw [← List.filter_eq_self.2 fun u hu => decide_eq_true (hlate u hu)]
    exact hsublist.filter _
  refine List.Pairwise.sublist hfilter (List.pairwise_filter.2 (List.pairwise_map.2 ?_))
  refine hsorted.imp fun {d e} hlt hd he => ?_
  have hplace (f : Int × Fin c.types.length)
      (hf : decide (beginningOfTime < (c.entryTransition marker f).time) = true) :
      f.1 ≠ marker := by
    intro hmarker
    have htime : (c.entryTransition marker f).time = beginningOfTime := if_pos hmarker
    simp [htime] at hf
  rw [time_entryTransition_of_ne (hplace d hd), time_entryTransition_of_ne (hplace e he)]
  exact hlt

/-- **The transitions of a block are in order** exactly if nothing but duplicates of the first one
comes before the beginning of time. -/
theorem removeDuplicates_timeline_inOrder_iff (hmarker : marker < beginningOfTime)
    (htypes : c.types ≠ []) (hsorted : c.entries.Pairwise fun d e => d.1 < e.1) :
    (((removeDuplicates (c.timeline marker)).Pairwise fun u v => u.time < v.time) ∧
        BeginsOnce (removeDuplicates (c.timeline marker))) ↔
      ∀ e ∈ c.entries, e.1 < beginningOfTime → e.1 ≠ marker →
        (removeDuplicates (c.timeline marker)).head? =
          some ((c.typeOf e).transition beginningOfTime) := by
  obtain ⟨t, es, htimeline, hentries⟩ := exists_timeline_eq_cons marker htypes
  have hes : es.Pairwise fun d e => d.1 < e.1 := by
    rcases hentries with rfl | ⟨e, heq, -⟩
    · exact hsorted
    · rw [heq] at hsorted
      exact (List.pairwise_cons.1 hsorted).2
  have hduplicates : (∀ e ∈ c.entries, e.1 < beginningOfTime → e.1 ≠ marker →
        (c.typeOf e).transition beginningOfTime = t.transition beginningOfTime) ↔
      ∀ e ∈ es, e.1 < beginningOfTime → e.1 ≠ marker →
        (c.typeOf e).transition beginningOfTime = t.transition beginningOfTime := by
    rcases hentries with rfl | ⟨e, heq, hmarker⟩
    · exact Iff.rfl
    · rw [heq, List.forall_mem_cons]
      exact and_iff_right fun _ hne => absurd hmarker hne
  rw [htimeline, removeDuplicates, List.pairwise_cons, List.head?_cons]
  simp only [Option.some.injEq, eq_comm (a := t.transition beginningOfTime)]
  rw [hduplicates, ← forall_mem_dropRepeats_iff hmarker hes]
  refine ⟨fun h => h.1.1, fun hlate => ⟨⟨hlate, ?_⟩, t.transition beginningOfTime, _, rfl, rfl,
    fun u hu => (hlate u hu).ne'⟩⟩
  exact pairwise_of_sublist hes (dropRepeats_sublist _ _) hlate

end Content

/-- **A later version in order gives transitions in order** exactly if nothing but duplicates comes
before the beginning of time: each entry there, other than at the one time that stands for the
beginning, is to a type that looks as the first transition does. -/
theorem decode_later_inOrder_iff {hidden : Content 4} {content : Content 8} {footer : Bytes}
    {hversion : version ≠ 0} (h : (File.later version hversion hidden content footer).IsWellFormed)
    (hsorted : content.entries.Pairwise fun d e => d.1 < e.1) (zone : Option String) :
    ∃ ts, decode zone (File.later version hversion hidden content footer).bytes =
        .ok (.ofTransitions zone ts) ∧
      ((ts.Pairwise fun u v => u.time < v.time) ∧ BeginsOnce ts ↔
        ∀ e ∈ content.entries, e.1 < beginningOfTime → e.1 ≠ laterMarker →
          ts.head? = some ((content.typeOf e).transition beginningOfTime)) :=
  ⟨_, h.decode_eq zone,
    Content.removeDuplicates_timeline_inOrder_iff (by decide) h.2.types_ne_nil hsorted⟩

/-- A block that goes from one of two types to another at the given times. -/
def twoTypes (times : List (Int × Fin 2)) : Content 8 where
  reserved := .replicate 15 0
  types := [⟨⟨0, false, 0⟩, "A"⟩, ⟨⟨3600, false, 2⟩, "B"⟩]
  names := "A".toUTF8.data.toList ++ 0 :: "B".toUTF8.data.toList ++ [0]
  entries := times
  leaps := []
  standardIndicators := []
  utcIndicators := []

/-- A file of version 2 of such a block. -/
def twoTypesFile (times : List (Int × Fin 2)) : File :=
  .later 0x32 versionTwo_ne_zero .minimal (twoTypes times) []

/-- A transition before the beginning of time that changes nothing does no harm. -/
theorem decode_later_inOrder_unchanged :
    ∃ ts, decode none (twoTypesFile [(2 * laterMarker, 0), (0, 1)]).bytes =
        .ok (.ofTransitions none ts) ∧
      (ts.Pairwise fun u v => u.time < v.time) ∧ BeginsOnce ts := by
  have hformed : (twoTypesFile [(2 * laterMarker, 0), (0, 1)]).IsWellFormed := by decide
  obtain ⟨ts, hdecode, hiff⟩ := decode_later_inOrder_iff hformed (by decide) none
  have hts := Except.ok.inj (hdecode.symm.trans (hformed.decode_eq none))
  rw [Timeline.ofTransitions, Timeline.ofTransitions, Timeline.mk.injEq] at hts
  obtain rfl := hts.2.1
  exact ⟨_, hdecode, hiff.2 (by decide)⟩

/-- **A time below the one that stands for the beginning** is left where it is, after the
beginning. -/
theorem decode_outOfOrder :
    (twoTypesFile [(2 * laterMarker, 1), (0, 0)]).IsWellFormed ∧
      ∃ ts, decode none (twoTypesFile [(2 * laterMarker, 1), (0, 0)]).bytes =
          .ok (.ofTransitions none ts) ∧
        ts.map (·.time) = [beginningOfTime, 2 * laterMarker, 0] ∧
        ¬ts.Pairwise fun u v => u.time < v.time := by
  have hformed : (twoTypesFile [(2 * laterMarker, 1), (0, 0)]).IsWellFormed := by decide
  exact ⟨hformed, _, hformed.decode_eq none, by decide, by decide⟩

end ZoneTables.Tzif
