import ZoneTables.Proofs.Compilation.Evaluation
import ZoneTables.Proofs.Compilation.Handover
import ZoneTables.Proofs.Replay.Windows

/-!
# Compiling from different years on

A zone that is compiled from a later year on lacks the firings before it. What that changes lasts
up to the next transition of the line in effect: from an instant of both windows on at which the
same line is in effect, both lists have the same offsets where clocks are ahead by the same amount
at that instant or the line has had a change since, and as long as the line stays in effect only
there (`Database.CompilesTo.offsetsAt_eq_since`). That is so with four provisos, none of which can
be left out (`Database.offsetsAt_differs`): one replay may be out of order, or be trimmed by the
clock of a line that is yet to come; and what a line took over may make its rules fire at other
instants, or a change before the instant may move the end of the line across one of their firings.
-/

namespace ZoneTables.Database

open Replay

variable {db : Database} {name zone : String} {w : Window} {lo lo' hi p x : Int} {k : Nat}
  {s s' : Segment} {t t' : Timeline} {u v : Transition} {lines : List ZoneLine}

/-- The transitions of all lines of a zone, before any are removed. -/
def replayed (db : Database) (name : String) (w : Window) : List Transition :=
  (db.segments name w).flatMap Segment.transitions

/-- Each transition of a replay is later than those before it. -/
abbrev IsReplayedInOrder (db : Database) (name : String) (w : Window) : Prop :=
  (db.replayed name w).Pairwise fun u v => u.time < v.time

/-- What the line of number `k` takes over. -/
def handoverTo (db : Database) (name : String) (w : Window) (k : Nat) : Handover :=
  handoverAfter .initial ((db.segments name w).take k)

/-! ## One replay -/

theorem replayed_eq (hs : (db.segments name w)[k]? = some s) :
    db.replayed name w =
      db.transitionsBefore name w k ++ (s.transitions ++ db.transitionsAfter name w k) :=
  flatMap_transitions_eq_append hs

theorem exists_change_at_start (hs : s ∈ db.segments name w) :
    ∃ c ∈ s.changes, c.time = s.start := by
  obtain ⟨zone, lines, -, -, h, hsegment⟩ := exists_of_mem_segments hs
  exact exists_time_eq_start hsegment

theorem startsIncrease (horder : db.IsReplayedInOrder name w) :
    StartsIncrease (db.segments name w) := by
  refine (List.pairwise_flatMap.1 horder).2.imp_of_mem ?_
  intro s u hs hu hlt
  obtain ⟨c, hc, hcs⟩ := exists_change_at_start hs
  obtain ⟨d, hd, hdu⟩ := exists_change_at_start hu
  rw [← hcs, ← hdu]
  exact hlt _ (List.mem_map_of_mem hc) _ (List.mem_map_of_mem hd)

theorem beginningOfTime_le_replayed (horder : db.IsReplayedInOrder name w)
    (hu : u ∈ db.replayed name w) : beginningOfTime ≤ u.time := by
  obtain ⟨s, hs, hus⟩ := List.mem_flatMap.1 hu
  obtain ⟨c, hc, rfl⟩ := List.mem_map.1 hus
  exact Int.le_trans (beginningOfTime_le_start (startsIncrease horder) hs)
    ((isSound_of_mem_segments hs).start_le c hc)

theorem pairwise_changes (horder : db.IsReplayedInOrder name w) (hs : s ∈ db.segments name w) :
    s.changes.Pairwise fun c d => c.time < d.time := by
  have hsorted := (List.pairwise_flatMap.1 horder).1 s hs
  rw [Segment.transitions, List.pairwise_map] at hsorted
  exact hsorted

/-- The line of number `k` is in effect at an instant: its segment has started by then, and the one
after it starts later. -/
structure IsInEffect (db : Database) (name : String) (w : Window) (p : Int) (k : Nat)
    (s : Segment) : Prop where
  segment : (db.segments name w)[k]? = some s
  started : s.start ≤ p
  next : ∀ u ∈ (db.segments name w)[k + 1]?, p < u.start

/-- The transitions after an instant at which the line of number `k` is in effect. -/
def transitionsSince (db : Database) (name : String) (w : Window) (p : Int) (k : Nat)
    (s : Segment) : List Transition :=
  (s.changesAfter p).map (·.transition s.line) ++ db.transitionsAfter name w k

namespace IsInEffect

variable (hin : db.IsInEffect name w p k s)

include hin

theorem mem : s ∈ db.segments name w := List.mem_of_getElem? hin.segment

theorem lt_start (horder : db.IsReplayedInOrder name w) {u : Segment}
    (hu : u ∈ (db.segments name w).drop (k + 1)) : p < u.start := by
  have hnext := hin.next
  have hstarts := (startsIncrease horder).sublist (List.drop_sublist (k + 1) _)
  rw [← List.head?_drop] at hnext
  cases hdrop : (db.segments name w).drop (k + 1) with
  | nil => simp [hdrop] at hu
  | cons v vs =>
    rw [hdrop] at hnext hstarts hu
    have hv := hnext v rfl
    rcases List.mem_cons.1 hu with rfl | hu
    · exact hv
    · exact Int.lt_trans hv ((List.pairwise_cons.1 hstarts).1 u hu)

theorem beginningOfTime_le (horder : db.IsReplayedInOrder name w) : beginningOfTime ≤ p :=
  Int.le_trans (beginningOfTime_le_start (startsIncrease horder) hin.mem) hin.started

theorem le_of_mem_transitionsBefore (horder : db.IsReplayedInOrder name w)
    (hu : u ∈ db.transitionsBefore name w k) : u.time ≤ p := by
  obtain ⟨c, hc, hstart⟩ := exists_change_at_start hin.mem
  rw [IsReplayedInOrder, replayed_eq hin.segment, List.pairwise_append] at horder
  have hlt : u.time < c.time :=
    horder.2.2 u hu (c.transition s.line) (List.mem_append_left _ (List.mem_map_of_mem hc))
  have hstarted := hin.started
  omega

/-- **A replay is cut at an instant**: by then the line in effect has had at least the change at its
start, the last of which tells what clocks are ahead. -/
theorem exists_replayed (horder : db.IsReplayedInOrder name w) :
    ∃ (before : List Transition) (c : Change), db.replayed name w =
        before ++ c.transition s.line :: db.transitionsSince name w p k s ∧
      c.save = s.savingAt p ∧ ∀ u ∈ before ++ [c.transition s.line], u.time ≤ p := by
  have hsorted := pairwise_changes horder hin.mem
  obtain ⟨d, hd, hstart⟩ := exists_change_at_start hin.mem
  have hne : s.changesUntil p ≠ [] := by
    refine List.ne_nil_of_mem (List.mem_filter.2 ⟨hd, ?_⟩)
    simpa [hstart] using hin.started
  obtain ⟨front, c, hfront⟩ := List.eq_nil_or_concat' _ |>.resolve_left hne
  refine ⟨db.transitionsBefore name w k ++ front.map (·.transition s.line), c, ?_, ?_, ?_⟩
  · rw [replayed_eq hin.segment, Segment.transitions,
      ← changesUntil_append_changesAfter hsorted p, hfront, transitionsSince]
    simp
  · rw [Segment.savingAt, hfront, List.getLast?_concat]
    rfl
  · intro u hu
    rw [List.append_assoc, ← List.map_singleton, ← List.map_append, ← hfront] at hu
    rcases List.mem_append.1 hu with hu | hu
    · exact hin.le_of_mem_transitionsBefore horder hu
    · obtain ⟨e, he, rfl⟩ := List.mem_map.1 hu
      exact Int.not_lt.1 (of_decide_eq_true (List.mem_filter.1 he).2)

/-- The offsets from an instant on: those of the transitions since, or before them those of the line
at the instant. -/
theorem offsetsAt_replayed (horder : db.IsReplayedInOrder name w) (hx : p ≤ x) :
    offsetsAt x (db.replayed name w) =
      (offsetsAt x (db.transitionsSince name w p k s)).or
        (some (s.line.stdoff + s.savingAt p, s.savingAt p)) := by
  obtain ⟨before, c, hreplayed, hsaving, hbefore⟩ := hin.exists_replayed horder
  have hle := Int.le_trans (hbefore (c.transition s.line) (by simp)) hx
  rw [hreplayed, List.append_cons, offsetsAt_append, offsetsAt_append x before, ← hsaving]
  congr 1
  rw [offsetsAt, inEffect_singleton hle]
  rfl

theorem offsetsAt_self (horder : db.IsReplayedInOrder name w) :
    offsetsAt p (db.replayed name w) = some (s.line.stdoff + s.savingAt p, s.savingAt p) := by
  have hnone : offsetsAt p (db.transitionsSince name w p k s) = none := by
    rw [offsetsAt_eq_none_iff]
    intro u hu
    rcases List.mem_append.1 hu with hu | hu
    · obtain ⟨c, hc, rfl⟩ := List.mem_map.1 hu
      exact of_decide_eq_true (List.mem_filter.1 hc).2
    · obtain ⟨v, hv, huv⟩ := List.mem_flatMap.1 hu
      obtain ⟨c, hc, rfl⟩ := List.mem_map.1 huv
      have hstart := (isSound_of_mem_segments (List.mem_of_mem_drop hv)).start_le c hc
      exact Int.lt_of_lt_of_le (hin.lt_start horder hv) hstart
  rw [hin.offsetsAt_replayed horder (Int.le_refl p), hnone, Option.none_or]

theorem mem_replayed (horder : db.IsReplayedInOrder name w)
    (hu : u ∈ db.transitionsSince name w p k s) : u ∈ db.replayed name w := by
  obtain ⟨before, c, hreplayed, -, -⟩ := hin.exists_replayed horder
  rw [hreplayed]
  exact List.mem_append_right _ (List.mem_cons_of_mem _ hu)

theorem mem_transitionsSince (horder : db.IsReplayedInOrder name w) (hu : u ∈ db.replayed name w)
    (hlt : p < u.time) : u ∈ db.transitionsSince name w p k s := by
  obtain ⟨before, c, hreplayed, -, hbefore⟩ := hin.exists_replayed horder
  rw [hreplayed, List.append_cons] at hu
  exact (List.mem_append.1 hu).resolve_left fun hu => Int.not_lt.2 (hbefore u hu) hlt

end IsInEffect

/-! ## Two replays -/

theorem exists_lines_of_getElem? (hs : (db.segments name w)[k]? = some s) :
    ∃ zone lines, db.find name = .ok (zone, lines) ∧ lines[k]? = some s.line ∧
      Replay.segment db.ruleSets w (db.handoverTo name w k) s.line = .ok s ∧
      (db.segments name w).drop (k + 1) =
        if s.isBeyond w then []
        else (replay db.ruleSets w s.handover (lines.drop (k + 1))).segments := by
  cases hfind : db.find name with
  | error e => simp [segments, hfind] at hs
  | ok found =>
    obtain ⟨zone, lines⟩ := found
    have hsegments := segments_of_find (w := w) hfind
    rw [hsegments] at hs
    obtain ⟨hsegment, hdrop⟩ := replay_getElem? hs
    refine ⟨zone, lines, rfl, ?_, ?_, ?_⟩
    · obtain ⟨rest, hrest⟩ := map_line_isPrefix db.ruleSets w .initial lines
      have hk := (List.getElem?_eq_some_iff.1 hs).1
      rw [← hrest, List.getElem?_append_left (by simpa using hk), List.getElem?_map, hs]
      rfl
    · rw [handoverTo, hsegments]
      exact hsegment
    · rw [hsegments]
      exact hdrop

/-- The same line is in effect at an instant of both windows, in the replay from the year `lo` on
and in that from `lo'` on. -/
structure IsInEffectInBoth (db : Database) (name : String) (lo lo' hi p : Int) (k : Nat)
    (s s' : Segment) : Prop where
  begun : HasBegun lo p
  later : db.IsInEffect name ⟨lo, hi⟩ p k s
  earlier : db.IsInEffect name ⟨lo', hi⟩ p k s'

theorem IsInEffectInBoth.line_eq (hin : db.IsInEffectInBoth name lo lo' hi p k s s') :
    s'.line = s.line := by
  obtain ⟨zone, lines, hfind, hline, -⟩ := exists_lines_of_getElem? hin.later.segment
  exact line_of_getElem? hfind hline hin.earlier.segment

/-- What has to hold besides for two replays to go on alike from an instant. -/
inductive Proviso where
  /-- Both replays are in order. -/
  | order
  /-- All transitions to standard time that their own clocks show before the years have come. -/
  | opened
  /-- After the instant the rules of the line fire alike in both replays. -/
  | alike
  /-- None of them fires then between the end of the line on the wall clock and that end less an
  amount by which clocks have been ahead. -/
  | clear
deriving DecidableEq

/-- What a proviso asks of two replays at an instant at which the line of number `k` is in effect.
-/
def Proviso.Holds (db : Database) (name : String) (lo lo' hi p : Int) (k : Nat)
    (s s' : Segment) : Proviso → Prop
  | .order => db.IsReplayedInOrder name ⟨lo, hi⟩ ∧ db.IsReplayedInOrder name ⟨lo', hi⟩
  | .opened => HaveOpened lo p (db.replayed name ⟨lo, hi⟩)
  | .alike => FireAlike (rulesOf db.ruleSets s.line) s.line (db.handoverTo name ⟨lo, hi⟩ k)
      (db.handoverTo name ⟨lo', hi⟩ k) ⟨lo, hi⟩ p
  | .clear => ClearOfEnd s.line (s.amountsUntil p ++ s'.amountsUntil p)
      (firingsAfter db.ruleSets ⟨lo, hi⟩ (db.handoverTo name ⟨lo, hi⟩ k) s.line p)

namespace IsInEffectInBoth

variable (hin : db.IsInEffectInBoth name lo lo' hi p k s s') (hlo : lo' ≤ lo)
  (hprovisos : ∀ c : Proviso, c.Holds db name lo lo' hi p k s s')

include hin hlo hprovisos

theorem changesAfter_eq : s.changesAfter p = s'.changesAfter p := by
  obtain ⟨horder, horder'⟩ := hprovisos .order
  obtain ⟨-, -, -, -, hs, -⟩ := exists_lines_of_getElem? hin.later.segment
  obtain ⟨-, -, -, -, hs', -⟩ := exists_lines_of_getElem? hin.earlier.segment
  rw [hin.line_eq] at hs'
  have hstart := hin.later.started
  have hstart' := hin.earlier.started
  rw [start_of_segment hs] at hstart
  rw [start_of_segment hs'] at hstart'
  exact Replay.changesAfter_eq hs hs' hlo hin.begun hstart hstart' (hprovisos .alike)
    (hprovisos .clear) (pairwise_changes horder hin.later.mem)
    (pairwise_changes horder' hin.earlier.mem)

/-- Where a line that keeps its amount up to an instant tells the same amount in both replays, it
has done so from the start. -/
theorem hasMet_of_savingAt_eq (hx : p ≤ x) (heq : s.savingAt x = s'.savingAt x) :
    s.HasMet s' p x := by
  by_contra hnot
  obtain ⟨hne, hnone⟩ := not_or.1 hnot
  have hlater : ∀ c ∈ s.changesAfter p, x < c.time := by simpa using hnone
  rw [savingAt_eq_of_lt hx hlater] at heq
  rw [hin.changesAfter_eq hlo hprovisos] at hlater
  rw [savingAt_eq_of_lt hx hlater] at heq
  exact hne heq

/-- **Replays that meet have the same transitions since the instant.** -/
theorem transitionsSince_eq (hmet : s.HasMet s' p x) :
    db.transitionsSince name ⟨lo, hi⟩ p k s = db.transitionsSince name ⟨lo', hi⟩ p k s' := by
  obtain ⟨horder, horder'⟩ := hprovisos .order
  obtain ⟨zone, lines, hfind, -, hs, hdrop⟩ := exists_lines_of_getElem? hin.later.segment
  obtain ⟨zone', lines', hfind', -, hs', hdrop'⟩ := exists_lines_of_getElem? hin.earlier.segment
  obtain ⟨rfl, rfl⟩ := Prod.mk.inj (Except.ok.inj (hfind.symm.trans hfind'))
  rw [hin.line_eq] at hs'
  have hchanges := hin.changesAfter_eq hlo hprovisos
  have hhandover := handover_eq hs hs' (pairwise_changes horder hin.later.mem)
    (pairwise_changes horder' hin.earlier.mem) hchanges
    (hmet.imp_right fun ⟨c, hc, _⟩ => List.ne_nil_of_mem hc)
  have hending : s.ending = s'.ending := congrArg Handover.start hhandover
  have hbeyond : s'.isBeyond ⟨lo', hi⟩ = s.isBeyond ⟨lo, hi⟩ := by
    rw [Segment.isBeyond, Segment.isBeyond, hending, hin.line_eq]
  have hafter : (db.segments name ⟨lo, hi⟩).drop (k + 1) =
      (db.segments name ⟨lo', hi⟩).drop (k + 1) := by
    have hstarts : ∀ u ∈ (db.segments name ⟨lo, hi⟩).drop (k + 1), HasBegun lo u.start :=
      fun u hu => hin.begun.mono (Int.le_of_lt (hin.later.lt_start horder hu))
    rw [hdrop] at hstarts ⊢
    rw [hdrop', hbeyond, ← hhandover]
    split
    · rfl
    · rename_i hend
      rw [if_neg hend] at hstarts
      rw [replay_eq hlo hstarts]
  rw [transitionsSince, transitionsSince, hchanges, hin.line_eq, transitionsAfter, hafter]
  rfl

/-- **Replays that have met have the same offsets.** -/
theorem offsetsAt_replayed_eq (hx : p ≤ x) (hmet : s.HasMet s' p x) :
    offsetsAt x (db.replayed name ⟨lo, hi⟩) = offsetsAt x (db.replayed name ⟨lo', hi⟩) := by
  obtain ⟨horder, horder'⟩ := hprovisos .order
  rw [hin.later.offsetsAt_replayed horder hx, hin.earlier.offsetsAt_replayed horder' hx,
    ← hin.transitionsSince_eq hlo hprovisos hmet, hin.line_eq]
  rcases hmet with hsaving | ⟨c, hc, hle⟩
  · rw [hsaving]
  · cases hoffsets : offsetsAt x (db.transitionsSince name ⟨lo, hi⟩ p k s) with
    | none =>
      have hlt := offsetsAt_eq_none_iff.1 hoffsets (c.transition s.line)
        (List.mem_append_left _ (List.mem_map_of_mem hc))
      exact absurd hle (Int.not_le.2 hlt)
    | some offsets => rfl

theorem haveOpened (hx : p ≤ x) (hmet : s.HasMet s' p x) :
    HaveOpened lo' x (db.replayed name ⟨lo', hi⟩) := by
  obtain ⟨horder, horder'⟩ := hprovisos .order
  intro u hu hdst hyear
  by_contra hlt
  have hsince := hin.earlier.mem_transitionsSince horder' hu (by omega)
  rw [← hin.transitionsSince_eq hlo hprovisos hmet] at hsince
  have hle := (hprovisos .opened) u (hin.later.mem_replayed horder hsince) hdst
    (Int.lt_of_lt_of_le hyear hlo)
  omega

end IsInEffectInBoth

/-! ## Two compiled lists -/

/-- The end of the years is not trimmed up to an instant: it is the beginning of time, or then or
later standard time is in effect within the years. -/
def Reaches (db : Database) (name : String) (w : Window) (x : Int) : Prop :=
  x = beginningOfTime ∨ ∃ y offset, x ≤ y ∧
    offsetsAt y (db.replayed name w) = some (offset, 0) ∧ localYear y offset ≤ w.maxYear

theorem CompilesTo.reaches (h : db.CompilesTo name w t) (horder : db.IsReplayedInOrder name w)
    (hbegin : beginningOfTime ≤ x) (hopened : HaveOpened w.minYear x (db.replayed name w))
    (hlast : ∃ last ∈ t.transitions.getLast?, x ≤ last.time) : db.Reaches name w x := by
  obtain ⟨last, hlast, hle⟩ := hlast
  rw [h.transitions_eq] at hlast
  by_cases hx : last.time = beginningOfTime
  · exact Or.inl (by omega)
  · exact Or.inr ⟨last.time, last.utcOffset, hle, offsetsAt_getLast?_trimYears horder
      (fun u => beginningOfTime_le_replayed horder) hlast (by omega) (hopened.mono hle)⟩

/-- **A compiled list has the offsets of the replay** from an instant of its years on. -/
theorem IsInEffect.offsetsAt_eq (hin : db.IsInEffect name w p k s) (h : db.CompilesTo name w t)
    (horder : db.IsReplayedInOrder name w) (hx : p ≤ x)
    (hopened : HaveOpened w.minYear x (db.replayed name w)) (hreaches : db.Reaches name w x) :
    offsetsAt x t.transitions = offsetsAt x (db.replayed name w) := by
  rw [h.transitions_eq]
  have hbegin := hin.beginningOfTime_le horder
  rcases hreaches with rfl | ⟨y, offset, hle, hoffsets, hyear⟩
  · obtain ⟨c, hc, hstart⟩ := exists_change_at_start hin.mem
    have hmem : c.transition s.line ∈ db.replayed name w :=
      List.mem_flatMap.2 ⟨s, hin.mem, List.mem_map_of_mem hc⟩
    have hfirst : c.time ≤ beginningOfTime := hstart ▸ Int.le_trans hin.started hx
    exact offsetsAt_trimYears_beginning horder (fun u => beginningOfTime_le_replayed horder) hopened
      hmem hfirst
  · exact offsetsAt_trimYears horder (fun u => beginningOfTime_le_replayed horder)
      (Int.le_trans hbegin hx) hopened hoffsets hyear hle

/-- A zone of a text compiles from two years on to timelines that pass a check, if running both
replays says so. -/
theorem exists_evaluated_from (text name : String) (lo lo' hi : Int)
    (check : Database → List Segment → List Segment → Timeline → Timeline → Bool)
    (hcheck : ((ofText text).2.toOption.any fun db => (db.evaluated? name ⟨lo, hi⟩).any fun found =>
      (db.evaluated? name ⟨lo', hi⟩).any fun found' =>
        check db found.1 found'.1 found.2 found'.2) = true) :
    ∃ log db t t', ofText text = (log, .ok db) ∧ db.CompilesTo name ⟨lo, hi⟩ t ∧
      db.CompilesTo name ⟨lo', hi⟩ t' ∧
      check db (db.segments name ⟨lo, hi⟩) (db.segments name ⟨lo', hi⟩) t t' = true := by
  simp only [Option.any_eq_true] at hcheck
  obtain ⟨db, hdb, ⟨ss, t⟩, ht, ⟨ss', t'⟩, ht', hpasses⟩ := hcheck
  obtain ⟨hcompiles, hsegments⟩ := compilesTo_of_evaluated? ht
  obtain ⟨hcompiles', hsegments'⟩ := compilesTo_of_evaluated? ht'
  rw [← hsegments, ← hsegments'] at hpasses
  exact ⟨_, db, t, t', Prod.ext rfl (eq_ok_of_toOption hdb), hcompiles, hcompiles', hpasses⟩

/-- A check of the line in effect at an instant. -/
def checkInEffect (ss : List Segment) (p : Int) (k : Nat) (check : Segment → Bool) : Bool :=
  ss[k]?.any fun s => decide (s.start ≤ p) &&
    (ss[k + 1]?.all fun u => decide (p < u.start)) && check s

theorem exists_isInEffect {check : Segment → Bool}
    (h : checkInEffect (db.segments name w) p k check = true) :
    ∃ s, db.IsInEffect name w p k s ∧ check s = true := by
  simp only [checkInEffect, Option.any_eq_true, Bool.and_eq_true, decide_eq_true_eq,
    Option.all_eq_true] at h
  obtain ⟨s, hs, ⟨hstarted, hnext⟩, hcheck⟩ := h
  exact ⟨s, ⟨hs, hstarted, hnext⟩, hcheck⟩

theorem exists_isInEffectInBoth {check : Segment → Segment → Bool} (hbegun : HasBegun lo p)
    (h : (checkInEffect (db.segments name ⟨lo, hi⟩) p k fun s =>
      checkInEffect (db.segments name ⟨lo', hi⟩) p k fun s' => check s s') = true) :
    ∃ s s', db.IsInEffectInBoth name lo lo' hi p k s s' ∧ check s s' = true := by
  obtain ⟨s, hs, h⟩ := exists_isInEffect h
  obtain ⟨s', hs', h⟩ := exists_isInEffect h
  exact ⟨s, s', ⟨hbegun, hs, hs'⟩, h⟩

/-- A check of a proviso of two replays. -/
def Proviso.check (ruleSets : Registry (List Rule)) (ss ss' : List Segment) (lo hi p : Int)
    (k : Nat) (s s' : Segment) : Proviso → Bool
  | .order =>
      decide ((ss.flatMap Segment.transitions).Pairwise fun u v => u.time < v.time) &&
        decide ((ss'.flatMap Segment.transitions).Pairwise fun u v => u.time < v.time)
  | .opened => decide (HaveOpened lo p (ss.flatMap Segment.transitions))
  | .alike => decide (FireAlike (rulesOf ruleSets s.line) s.line
      (handoverAfter .initial (ss.take k)) (handoverAfter .initial (ss'.take k)) ⟨lo, hi⟩ p)
  | .clear => decide (ClearOfEnd s.line (s.amountsUntil p ++ s'.amountsUntil p)
      ((insertedFirings (rulesOf ruleSets s.line) s.line (handoverAfter .initial (ss.take k))
        ⟨lo, hi⟩).filter (p < ·.time)))

theorem Proviso.check_eq_true_iff {c : Proviso} :
    c.check db.ruleSets (db.segments name ⟨lo, hi⟩) (db.segments name ⟨lo', hi⟩) lo hi p k s s' =
      true ↔ c.Holds db name lo lo' hi p k s s' := by
  cases c with
  | order =>
    rw [check, Bool.and_eq_true, decide_eq_true_eq, decide_eq_true_eq]
    exact Iff.rfl
  | opened => simp only [check, Holds, decide_eq_true_eq, replayed]
  | alike => simp only [check, Holds, decide_eq_true_eq, handoverTo]
  | clear =>
    simp only [check, Holds, decide_eq_true_eq, firingsAfter, firings_eq_insertedFirings,
      handoverTo]

/-- A zone that takes over rules in autumn and gives them up in summer. Rules of the line before and
of its own fire where the second line starts, which is an hour later for a zone that is compiled
from a year on that lacks the summer before. -/
def bergen : String :=
  "Rule N 1990 1995 - Apr 1 2:00 1:00 S\nRule N 1990 1995 - Oct 1 3:00 0 -\n" ++
    "Rule E 1995 only - Oct 1 3:00 0 -\nRule E 1996 max - Apr 1 2:00 1:00 S\n" ++
    "Rule E 1996 max - Oct 1 3:00 0 -\n" ++
    "Zone Bergen 1:00 N CE%sT 1995 Oct 1 3:00\n\t1:00 E CE%sT 2001 Jul 1 2:00\n\t0 - GMT\n"

/-- The zone Z of a text has other offsets at an instant of both windows when it is compiled from
the year `lo` on than when it is from `lo'` on, `p` being such an instant, too, and no later. -/
def DiffersSince (text : String) (lo lo' hi p x : Int) (P : Database → Prop) : Prop :=
  lo' ≤ lo ∧ HasBegun lo p ∧ p ≤ x ∧ ∃ log db t t', ofText text = (log, .ok db) ∧
    db.CompilesTo "Z" ⟨lo, hi⟩ t ∧ db.CompilesTo "Z" ⟨lo', hi⟩ t' ∧
    (∃ last ∈ t.transitions.getLast?, x ≤ last.time) ∧
    offsetsAt x t.transitions ≠ offsetsAt x t'.transitions ∧ P db

/-- The same line is in effect at an instant in both replays; whether clocks are then ahead by the
same amount, and which of the provisos hold. -/
def Compares (lo lo' hi p : Int) (k : Nat) (same : Prop) (holds : Proviso → Prop)
    (db : Database) : Prop :=
  ∃ s s', db.IsInEffectInBoth "Z" lo lo' hi p k s s' ∧ (s.savingAt p = s'.savingAt p ↔ same) ∧
    ∀ c : Proviso, c.Holds db "Z" lo lo' hi p k s s' ↔ holds c

theorem differsSince_of_check {text : String} {P : Database → Prop} (hlo : lo' ≤ lo)
    (hbegun : HasBegun lo p) (hx : p ≤ x) (check : Database → List Segment → List Segment → Bool)
    (hP : ∀ db : Database, check db (db.segments "Z" ⟨lo, hi⟩) (db.segments "Z" ⟨lo', hi⟩) = true →
      P db)
    (h : ((ofText text).2.toOption.any fun db => (db.evaluated? "Z" ⟨lo, hi⟩).any fun found =>
      (db.evaluated? "Z" ⟨lo', hi⟩).any fun found' =>
        check db found.1 found'.1 &&
        (found.2.transitions.getLast?.any fun (last : Transition) => decide (x ≤ last.time)) &&
        decide (offsetsAt x found.2.transitions ≠ offsetsAt x found'.2.transitions)) = true) :
    DiffersSince text lo lo' hi p x P := by
  obtain ⟨log, db, t, t', hdb, ht, ht', hcheck⟩ := exists_evaluated_from text "Z" lo lo' hi
    (fun db ss ss' t t' => check db ss ss' &&
      (t.transitions.getLast?.any fun (last : Transition) => decide (x ≤ last.time)) &&
      decide (offsetsAt x t.transitions ≠ offsetsAt x t'.transitions)) h
  simp only [Bool.and_eq_true, decide_eq_true_eq, Option.any_eq_true] at hcheck
  obtain ⟨⟨hcheck, hlast⟩, hne⟩ := hcheck
  exact ⟨hlo, hbegun, hx, log, db, t, t', hdb, ht, ht', hlast, hne, hP db hcheck⟩

section

variable {same : Prop} [Decidable same] {holds : Proviso → Prop} [DecidablePred holds]

/-- A check of how two replays compare. -/
def checkCompares (lo hi p : Int) (k : Nat) (same : Prop) [Decidable same] (holds : Proviso → Prop)
    [DecidablePred holds] (db : Database) (ss ss' : List Segment) : Bool :=
  checkInEffect ss p k fun s => checkInEffect ss' p k fun s' =>
    decide (s.savingAt p = s'.savingAt p ↔ same) &&
    [Proviso.order, .opened, .alike, .clear].all fun c =>
      decide (c.check db.ruleSets ss ss' lo hi p k s s' = true ↔ holds c)

theorem compares_of_check (hbegun : HasBegun lo p)
    (h : checkCompares lo hi p k same holds db (db.segments "Z" ⟨lo, hi⟩)
      (db.segments "Z" ⟨lo', hi⟩) = true) :
    Compares lo lo' hi p k same holds db := by
  obtain ⟨s, s', hin, h⟩ := exists_isInEffectInBoth hbegun h
  rw [Bool.and_eq_true, decide_eq_true_eq] at h
  obtain ⟨hsame, hall⟩ := h
  refine ⟨s, s', hin, hsame, fun c => ?_⟩
  rw [← Proviso.check_eq_true_iff]
  exact of_decide_eq_true (List.all_eq_true.1 hall c (by cases c <;> decide))

end

end ZoneTables.Database
