import ZoneTables.Proofs.Calendar.Date
import ZoneTables.Proofs.Replay.Basic

/-!
# Replays over two windows

Two windows have the same last year, and one begins later. From a line on that starts within both
years the replays are the same (`replay_eq`). Before that they may differ, since the later one lacks
the firings before its years.

For a line that is in effect at an instant of both windows the two replays can still differ in what
the line took over. After the instant its rules fire alike unless what it took over moves one of
them past it, or past another (`FireAlike.filter_firings_eq`). If none of them is about the end of
the line either, both replays have the same changes after the instant (`changesAfter_eq`). They then
go on alike if the line has such a change, or clocks are ahead by the same amount at the instant
(`handover_eq`).
-/

namespace ZoneTables

/-- The year has begun, in UTC. -/
def HasBegun (year instant : Int) : Prop := year ≤ localYear instant 0

instance (year instant : Int) : Decidable (HasBegun year instant) :=
  inferInstanceAs (Decidable (year ≤ localYear instant 0))

theorem HasBegun.mono {year a b : Int} (h : HasBegun year a) (hab : a ≤ b) : HasBegun year b :=
  Int.le_trans h (localYear_mono hab 0)

/-- A list in which a property lasts is its elements without it and then those with it. -/
theorem filter_not_append_filter {α : Type} {p : α → Prop} [DecidablePred p] {xs : List α}
    (h : xs.Pairwise fun a b => p a → p b) :
    (xs.filter fun a => ¬ p a) ++ xs.filter (fun a => p a) = xs := by
  induction xs with
  | nil => rfl
  | cons a xs ih =>
    obtain ⟨hhead, htail⟩ := List.pairwise_cons.1 h
    by_cases ha : p a
    · have hnone : (xs.filter fun a => ¬ p a) = [] := by
        rw [List.filter_eq_nil_iff]
        intro b hb
        simpa using hhead b hb ha
      have hall : xs.filter (fun a => p a) = xs := by
        rw [List.filter_eq_self]
        intro b hb
        simpa using hhead b hb ha
      rw [List.filter_cons_of_neg (by simpa using ha), List.filter_cons_of_pos (by simpa using ha),
        hnone, hall, List.nil_append]
    · rw [List.filter_cons_of_pos (by simpa using ha), List.filter_cons_of_neg (by simpa using ha),
        List.cons_append, ih htail]

namespace Replay

variable {ruleSets : Registry (List Rule)} {rules : List Rule} {line : ZoneLine}
  {lines : List ZoneLine} {h h' : Handover} {w : Window} {lo lo' hi p : Int} {s s' : Segment}
  {f g : Firing} {fs : List Firing} {prev prev' : Option Firing} {amounts : List Int}

/-! ## Lines that start within both windows -/

/-- What a firing within a segment takes off an end on the wall clock. -/
def aheadAfter (line : ZoneLine) (prev : Option Firing) : Int :=
  prev.elim 0 fun p => if line.endingClock = .wall then p.rule.save else 0

theorem isWithin_iff :
    isWithin line h w prev f = true ↔ h.start ≤ f.time ∧
      f.time < line.ending - aheadAfter line prev ∧ HasBegun w.minYear f.time ∧
      localYear f.time 0 ≤ w.maxYear := by
  cases prev <;>
    simp only [isWithin, aheadAfter, HasBegun, Option.elim, Bool.and_eq_true, decide_eq_true_eq,
      and_assoc]

theorem isWithin_eq (hlo : lo' ≤ lo) (hstart : HasBegun lo h.start) :
    isWithin line h ⟨lo, hi⟩ prev f = isWithin line h ⟨lo', hi⟩ prev f := by
  rw [Bool.eq_iff_iff, isWithin_iff, isWithin_iff]
  refine and_congr_right fun hle => and_congr_right fun _ => and_congr_left fun _ => ?_
  have hbegun := hstart.mono hle
  exact iff_of_true hbegun (Int.le_trans hlo hbegun)

theorem split_eq (hlo : lo' ≤ lo) (hstart : HasBegun lo h.start) :
    split line h ⟨lo, hi⟩ prev fs = split line h ⟨lo', hi⟩ prev fs := by
  induction fs generalizing prev with
  | nil => rfl
  | cons f fs ih => rw [split, split, isWithin_eq hlo hstart, ih, ih]

theorem segment_eq (hlo : lo' ≤ lo) (hstart : HasBegun lo h.start) :
    segment ruleSets ⟨lo, hi⟩ h line = segment ruleSets ⟨lo', hi⟩ h line := by
  have hruled (rules : List Rule) :
      ruledSegment rules line h ⟨lo, hi⟩ = ruledSegment rules line h ⟨lo', hi⟩ := by
    have hfirings : firings rules line h ⟨lo, hi⟩ = firings rules line h ⟨lo', hi⟩ := rfl
    simp only [ruledSegment, ruledChanges, hfirings, split_eq hlo hstart]
  simp only [segment, hruled]

/-- Whether the rules of a line are missing does not depend on the years. -/
theorem segment_eq_error {name : String} (hs : segment ruleSets w h line = .error name)
    (w' : Window) (h' : Handover) : segment ruleSets w' h' line = .error name := by
  unfold segment at hs ⊢
  split at hs
  · cases hs
  · split at hs
    · cases hs
    · exact hs

/-- **Replays from a line on that starts within both windows are the same.** -/
theorem replay_eq (hlo : lo' ≤ lo)
    (hstarts : ∀ s ∈ (replay ruleSets ⟨lo, hi⟩ h lines).segments, HasBegun lo s.start) :
    replay ruleSets ⟨lo, hi⟩ h lines = replay ruleSets ⟨lo', hi⟩ h lines := by
  induction lines generalizing h with
  | nil => rfl
  | cons line rest ih =>
    cases hs : segment ruleSets ⟨lo, hi⟩ h line with
    | error name => simp only [replay, hs, segment_eq_error hs ⟨lo', hi⟩ h]
    | ok s =>
      simp only [replay, hs] at hstarts
      have hstart : HasBegun lo s.start := by
        split at hstarts
        · exact hstarts s List.mem_cons_self
        · exact hstarts s List.mem_cons_self
      rw [start_of_segment hs] at hstart
      have hs' := (segment_eq hlo hstart).symm.trans hs
      have hbeyond : s.isBeyond ⟨lo', hi⟩ = s.isBeyond ⟨lo, hi⟩ := rfl
      simp only [replay, hs, hs', hbeyond]
      split at hstarts
      · rename_i hend
        simp only [hend, if_true]
      · rename_i hend
        rw [ih (List.forall_mem_cons.1 hstarts).2]

/-! ## Firings after an instant -/

/-- None of the firings is between the end of a line on the wall clock and that end less one of the
amounts. -/
def ClearOfEnd (line : ZoneLine) (amounts : List Int) (fs : List Firing) : Prop :=
  line.endingClock = .wall → ∀ amount ∈ amounts, ∀ f ∈ fs,
    (f.time < line.ending - amount ↔ f.time < line.ending)

instance (line : ZoneLine) (amounts : List Int) (fs : List Firing) :
    Decidable (ClearOfEnd line amounts fs) :=
  inferInstanceAs (Decidable (line.endingClock = .wall → ∀ amount ∈ amounts, ∀ f ∈ fs,
    (f.time < line.ending - amount ↔ f.time < line.ending)))

theorem ClearOfEnd.mono {more : List Int} (h : ClearOfEnd line more fs) (hsub : amounts ⊆ more) :
    ClearOfEnd line amounts fs :=
  fun hwall amount hamount => h hwall amount (hsub hamount)

/-- The last firings within a line that two searches know of, the first among those after an instant
only: both the same one, or the second at most one with one of the amounts. -/
inductive Recalls (p : Int) (amounts : List Int) : Option Firing → Option Firing → Prop
  | same (g : Firing) (later : p < g.time) : Recalls p amounts (some g) (some g)
  | earlier (prev' : Option Firing) (mem : ∀ f ∈ prev', f.rule.save ∈ amounts) :
    Recalls p amounts none prev'

theorem isWithin_eq_of_recalls (hclear : ClearOfEnd line amounts fs)
    (hrecalls : Recalls p amounts prev prev') (hf : f ∈ fs) :
    isWithin line h w prev f = isWithin line h w prev' f := by
  have hend : f.time < line.ending - aheadAfter line prev ↔
      f.time < line.ending - aheadAfter line prev' := by
    cases hrecalls with
    | same g later => exact Iff.rfl
    | earlier prev' mem =>
      cases prev' with
      | none => exact Iff.rfl
      | some g =>
        by_cases hwall : line.endingClock = .wall
        · simpa [aheadAfter, hwall] using (hclear hwall _ (mem g rfl) f hf).symm
        · simp [aheadAfter, hwall]
  rw [Bool.eq_iff_iff, isWithin_iff, isWithin_iff, hend]

theorem split_cons_fst : (split line h w prev (f :: fs)).1 =
    if isWithin line h w prev f then f :: (split line h w (some f) fs).1
    else (split line h w prev fs).1 := by
  rw [split]
  split <;> rfl

/-- **Firings up to an instant make no difference to those after it**, where those within the line
are in order. -/
theorem split_filter_eq (hclear : ClearOfEnd line amounts (fs.filter (p < ·.time)))
    (hrecalls : Recalls p amounts prev prev')
    (hamounts : ∀ f ∈ (split line h w prev' fs).1, f.time ≤ p → f.rule.save ∈ amounts)
    (hsorted : (split line h w prev' fs).1.Pairwise fun f g => f.time < g.time)
    (hlater : ∀ g ∈ prev, ∀ f ∈ (split line h w prev' fs).1, g.time < f.time) :
    (split line h w prev (fs.filter (p < ·.time))).1 =
      (split line h w prev' fs).1.filter (p < ·.time) := by
  induction fs generalizing prev prev' with
  | nil => rfl
  | cons f fs ih =>
    rw [split_cons_fst] at hamounts hsorted hlater ⊢
    by_cases hp : p < f.time
    · rw [List.filter_cons_of_pos (by simpa using hp)] at hclear ⊢
      have hrest : ClearOfEnd line amounts (fs.filter (p < ·.time)) :=
        fun hwall amount hamount g hg =>
          hclear hwall amount hamount g (List.mem_cons_of_mem _ hg)
      rw [split_cons_fst, isWithin_eq_of_recalls hclear hrecalls List.mem_cons_self]
      split
      · rename_i hwithin
        rw [if_pos hwithin] at hamounts hsorted
        rw [List.pairwise_cons] at hsorted
        rw [List.filter_cons_of_pos (by simpa using hp)]
        refine congrArg (f :: ·) (ih hrest (.same f hp)
          (List.forall_mem_cons.1 hamounts).2 hsorted.2 ?_)
        rintro g ⟨⟩
        exact hsorted.1
      · rename_i hwithin
        rw [if_neg hwithin] at hamounts hsorted hlater
        exact ih hrest hrecalls hamounts hsorted hlater
    · rw [List.filter_cons_of_neg (by simpa using hp)] at hclear ⊢
      split
      · rename_i hwithin
        rw [if_pos hwithin] at hamounts hsorted hlater
        obtain ⟨hf, hamounts⟩ := List.forall_mem_cons.1 hamounts
        rw [List.filter_cons_of_neg (by simpa using hp)]
        cases hrecalls with
        | same g later =>
          -- what follows a firing after the instant is after it, too
          have hlt := hlater g rfl f List.mem_cons_self
          omega
        | earlier prev' mem =>
          refine ih hclear (.earlier (some f) ?_) hamounts (List.pairwise_cons.1 hsorted).2 (by simp)
          rintro g ⟨⟩
          exact hf (Int.not_lt.1 hp)
      · rename_i hwithin
        rw [if_neg hwithin] at hamounts hsorted hlater
        exact ih hclear hrecalls hamounts hsorted hlater

theorem split_eq_of_lt (hlo : lo' ≤ lo) (hbegun : HasBegun lo p) (hstart : h.start ≤ p)
    (hstart' : h'.start ≤ p) (hfs : ∀ f ∈ fs, p < f.time) :
    split line h ⟨lo, hi⟩ prev fs = split line h' ⟨lo', hi⟩ prev fs := by
  induction fs generalizing prev with
  | nil => rfl
  | cons f fs ih =>
    obtain ⟨hf, hfs⟩ := List.forall_mem_cons.1 hfs
    have hwithin : isWithin line h ⟨lo, hi⟩ prev f = isWithin line h' ⟨lo', hi⟩ prev f := by
      have hle : h.start ≤ f.time := by omega
      have hle' : h'.start ≤ f.time := by omega
      have hlo₁ : HasBegun lo f.time := hbegun.mono (Int.le_of_lt hf)
      have hlo₂ : HasBegun lo' f.time := Int.le_trans hlo hlo₁
      rw [Bool.eq_iff_iff, isWithin_iff, isWithin_iff]
      simp only [hle, hle', hlo₁, hlo₂, true_and]
    rw [split, split, hwithin, ih hfs, ih hfs]

/-! ## Firings of a line that took over from another -/

/-- Two firings that are the same unless both come by an instant. -/
def Firing.SameAfter (p : Int) (f g : Firing) : Prop := f = g ∨ f.time ≤ p ∧ g.time ≤ p

theorem filter_eq_of_sameAfter {gs : List Firing}
    (hsame : List.Forall₂ (Firing.SameAfter p) fs gs) :
    fs.filter (p < ·.time) = gs.filter (p < ·.time) := by
  induction hsame with
  | nil => rfl
  | @cons f g fs gs hfg _ ih =>
    rcases hfg with rfl | ⟨hf, hg⟩
    · rw [List.filter_cons, List.filter_cons, ih]
    · rw [List.filter_cons_of_neg (by simpa using hf), List.filter_cons_of_neg (by simpa using hg),
        ih]

/-- The firing comes by an instant after whichever of the rules it is taken. -/
def Firing.ComesBy (rules : List Rule) (p : Int) (f : Firing) : Prop :=
  ∀ amount ∈ 0 :: rules.map (·.save), f.time - amount ≤ p

instance (rules : List Rule) (p : Int) (f : Firing) : Decidable (f.ComesBy rules p) :=
  inferInstanceAs (Decidable (∀ amount ∈ 0 :: rules.map (·.save), f.time - amount ≤ p))

theorem Firing.ComesBy.time_le (hf : f.ComesBy rules p) : f.time ≤ p := by
  have := hf 0 List.mem_cons_self
  omega

theorem Firing.ComesBy.time_after_le (hf : f.ComesBy rules p) (hg : g.rule ∈ rules) :
    (g.after f).time ≤ p := by
  unfold Firing.after
  split
  · exact hf _ (List.mem_cons_of_mem _ (List.mem_map_of_mem hg))
  · exact hf.time_le

/-- Whatever of two a line took over, its rules fire in the same order, and at the same instants but
for those that come by an instant either way. -/
structure FireAlike (rules : List Rule) (line : ZoneLine) (h h' : Handover) (w : Window)
    (p : Int) : Prop where
  order : ∀ a ∈ occurrences rules line w, ∀ b ∈ occurrences rules line w,
    ((firing line h a.1 a.2).time ≤ (firing line h b.1 b.2).time ↔
      (firing line h' a.1 a.2).time ≤ (firing line h' b.1 b.2).time)
  same : ∀ a ∈ occurrences rules line w, firing line h a.1 a.2 = firing line h' a.1 a.2 ∨
    (firing line h a.1 a.2).ComesBy rules p ∧ (firing line h' a.1 a.2).ComesBy rules p

instance (rules : List Rule) (line : ZoneLine) (h h' : Handover) (w : Window) (p : Int) :
    Decidable (FireAlike rules line h h' w p) :=
  decidable_of_iff
    ((∀ a ∈ occurrences rules line w, ∀ b ∈ occurrences rules line w,
      ((firing line h a.1 a.2).time ≤ (firing line h b.1 b.2).time ↔
        (firing line h' a.1 a.2).time ≤ (firing line h' b.1 b.2).time)) ∧
      ∀ a ∈ occurrences rules line w, firing line h a.1 a.2 = firing line h' a.1 a.2 ∨
        (firing line h a.1 a.2).ComesBy rules p ∧ (firing line h' a.1 a.2).ComesBy rules p)
    ⟨fun ⟨h1, h2⟩ => ⟨h1, h2⟩, fun ⟨h1, h2⟩ => ⟨h1, h2⟩⟩

theorem forall₂_sameAfter_chain {as : List (Rule × Int)}
    (hsame : ∀ a ∈ as, a.1 ∈ rules ∧ (firing line h a.1 a.2 = firing line h' a.1 a.2 ∨
      (firing line h a.1 a.2).ComesBy rules p ∧ (firing line h' a.1 a.2).ComesBy rules p)) :
    List.Forall₂ (Firing.SameAfter p) (chain (as.map fun a => firing line h a.1 a.2))
      (chain (as.map fun a => firing line h' a.1 a.2)) := by
  cases as with
  | nil => exact .nil
  | cons a as =>
    obtain ⟨ha, hrest⟩ := List.forall_mem_cons.1 hsame
    rw [List.map_cons, List.map_cons, chain, chain]
    refine .cons (ha.2.imp_right fun ⟨hf, hg⟩ => ⟨hf.time_le, hg.time_le⟩) ?_
    have hmem := ha.1
    clear ha hsame
    induction as generalizing a with
    | nil => exact .nil
    | cons b as ih =>
      obtain ⟨hb, hrest⟩ := List.forall_mem_cons.1 hrest
      rw [List.map_cons, List.map_cons, List.zipWith_cons_cons, List.zipWith_cons_cons]
      refine .cons ?_ (ih b hrest hb.1)
      -- what a firing is taken after tells by its rule only, which is the same
      have hafter (f : Firing) : (firing line h a.1 a.2).after f =
          (firing line h' a.1 a.2).after f := rfl
      rcases hb.2 with heq | ⟨hf, hg⟩
      · exact Or.inl (by rw [hafter, heq])
      · exact Or.inr ⟨hf.time_after_le hmem, hg.time_after_le hmem⟩

/-- Occurrences in the order of what they are at after one line are so after another, too, if that
makes no difference to their order. -/
theorem sortedCandidates_eq_map (horder : ∀ a ∈ occurrences rules line w,
    ∀ b ∈ occurrences rules line w,
      ((firing line h a.1 a.2).time ≤ (firing line h b.1 b.2).time ↔
        (firing line h' a.1 a.2).time ≤ (firing line h' b.1 b.2).time)) :
    sortedCandidates rules line h' w = ((occurrences rules line w).mergeSort fun a b =>
      (firing line h a.1 a.2).time ≤ (firing line h b.1 b.2).time).map fun a =>
        firing line h' a.1 a.2 := by
  rw [sortedCandidates, candidates_eq_map_occurrences, List.map_mergeSort]
  intro a ha b hb
  exact decide_eq_decide.2 (horder a ha b hb)

/-- **Rules that fire alike have the same firings after the instant.** -/
theorem FireAlike.filter_firings_eq (halike : FireAlike rules line h h' w p) :
    (firings rules line h w).filter (p < ·.time) =
      (firings rules line h' w).filter (p < ·.time) := by
  show (chain (sortedCandidates rules line h w)).filter _ =
    (chain (sortedCandidates rules line h' w)).filter _
  rw [sortedCandidates_eq_map fun _ _ _ _ => Iff.rfl, sortedCandidates_eq_map halike.order]
  apply filter_eq_of_sameAfter
  apply forall₂_sameAfter_chain
  intro a ha
  have ha := List.mem_mergeSort.1 ha
  exact ⟨rule_mem_of_mem_occurrences ha, halike.same a ha⟩

/-! ## Changes after an instant -/

/-- The rules of a line; none if its daylight saving is fixed. -/
def rulesOf (ruleSets : Registry (List Rule)) (line : ZoneLine) : List Rule :=
  match line.saving with
  | .fixed _ => []
  | .ruled name => (ruleSets.get? name).getD []

/-- The firings of the rules of a line after an instant. -/
def firingsAfter (ruleSets : Registry (List Rule)) (w : Window) (h : Handover) (line : ZoneLine)
    (p : Int) : List Firing :=
  (firings (rulesOf ruleSets line) line h w).filter (p < ·.time)

/-- The changes of a segment after an instant. -/
def Segment.changesAfter (s : Segment) (p : Int) : List Change := s.changes.filter (p < ·.time)

/-- The changes of a segment up to an instant. -/
def Segment.changesUntil (s : Segment) (p : Int) : List Change := s.changes.filter (¬ p < ·.time)

/-- The amounts by which clocks have been ahead of standard time in a segment up to an instant. -/
def Segment.amountsUntil (s : Segment) (p : Int) : List Int := (s.changesUntil p).map (·.save)

/-- What clocks are ahead of standard time in a segment at an instant. -/
def Segment.savingAt (s : Segment) (p : Int) : Int := (s.changesUntil p).getLast?.elim 0 (·.save)

theorem changesAfter_ruledSegment (hstart : h.start ≤ p) :
    (ruledSegment rules line h w).changesAfter p =
      ((insideFirings rules line h w).filter (p < ·.time)).map Firing.change := by
  have hopening : (opening rules line h w).filter (p < ·.time) = [] := by
    rw [List.filter_eq_nil_iff]
    intro c hc
    rw [time_of_mem_opening hc]
    simpa using hstart
  show (ruledChanges rules line h w).filter _ = _
  rw [ruledChanges_eq, List.filter_append, hopening, List.nil_append, List.filter_map]
  rfl

/-- The firings within a line after an instant are those within of the ones after it. -/
theorem split_firings_eq (hclear : ClearOfEnd line ((ruledSegment rules line h w).amountsUntil p)
      ((firings rules line h w).filter (p < ·.time)))
    (hsorted : (ruledSegment rules line h w).changes.Pairwise fun c d => c.time < d.time) :
    (split line h w none ((firings rules line h w).filter (p < ·.time))).1 =
      (insideFirings rules line h w).filter (p < ·.time) := by
  have hchanges : (ruledSegment rules line h w).changes = ruledChanges rules line h w := rfl
  rw [hchanges, ruledChanges_eq, List.pairwise_append, List.pairwise_map] at hsorted
  refine split_filter_eq hclear (.earlier none (by simp)) ?_ hsorted.2.1 (by simp)
  intro f hf hle
  have hchange : f.change ∈ (ruledSegment rules line h w).changes := by
    rw [hchanges, ruledChanges_eq]
    exact List.mem_append_right _ (List.mem_map_of_mem hf)
  exact List.mem_map.2
    ⟨f.change, List.mem_filter.2 ⟨hchange, decide_eq_true (Int.not_lt.2 hle)⟩, rfl⟩

/-- **Both replays have the same changes of a line** after an instant of both windows at which the
line is in effect. -/
theorem changesAfter_eq (hs : segment ruleSets ⟨lo, hi⟩ h line = .ok s)
    (hs' : segment ruleSets ⟨lo', hi⟩ h' line = .ok s') (hlo : lo' ≤ lo) (hbegun : HasBegun lo p)
    (hstart : h.start ≤ p) (hstart' : h'.start ≤ p)
    (halike : FireAlike (rulesOf ruleSets line) line h h' ⟨lo, hi⟩ p)
    (hclear : ClearOfEnd line (s.amountsUntil p ++ s'.amountsUntil p)
      (firingsAfter ruleSets ⟨lo, hi⟩ h line p))
    (hsorted : s.changes.Pairwise fun c d => c.time < d.time)
    (hsorted' : s'.changes.Pairwise fun c d => c.time < d.time) :
    s.changesAfter p = s'.changesAfter p := by
  rcases segment_cases hs with ⟨amount, hsaving, rfl⟩ | ⟨name, rules, hsaving, hrules, rfl⟩
  · rcases segment_cases hs' with ⟨amount', -, rfl⟩ | ⟨name, rules, hsaving', -, -⟩
    · simp [Segment.changesAfter, fixedSegment, Int.not_lt.2 hstart, Int.not_lt.2 hstart']
    · cases hsaving.symm.trans hsaving'
  · rcases segment_cases hs' with ⟨amount, hsaving', -⟩ | ⟨name', rules', hsaving', hrules', rfl⟩
    · cases hsaving.symm.trans hsaving'
    · obtain rfl := Saving.ruled.inj (hsaving.symm.trans hsaving')
      obtain rfl := Option.some.inj (hrules.symm.trans hrules')
      have hrulesOf : rulesOf ruleSets line = rules := by
        simp only [rulesOf, hsaving, hrules, Option.getD_some]
      rw [hrulesOf] at halike
      rw [firingsAfter, hrulesOf] at hclear
      have hfirings : (firings rules line h ⟨lo, hi⟩).filter (p < ·.time) =
          (firings rules line h' ⟨lo', hi⟩).filter (p < ·.time) := halike.filter_firings_eq
      have hclear₁ := hclear.mono (List.subset_append_left _ _)
      have hclear₂ := hclear.mono (List.subset_append_right _ _)
      rw [hfirings] at hclear₂
      have hlater : ∀ f ∈ (firings rules line h ⟨lo, hi⟩).filter (p < ·.time), p < f.time :=
        fun f hf => of_decide_eq_true (List.mem_filter.1 hf).2
      rw [changesAfter_ruledSegment hstart, changesAfter_ruledSegment hstart',
        ← split_firings_eq hclear₁ hsorted, ← split_firings_eq hclear₂ hsorted',
        split_eq_of_lt hlo hbegun hstart hstart' hlater, hfirings]

/-! ## How lines end -/

/-- **A segment ends** on the clock that its last change left. -/
theorem ending_of_segment (hs : segment ruleSets w h line = .ok s) :
    s.ending = endingAt line s.handover.dst := by
  rcases segment_cases hs with ⟨amount, -, rfl⟩ | ⟨name, rules, -, -, rfl⟩
  · rfl
  · have hahead : ((ruledChanges rules line h w).getLast?.bind (·.rule)).elim 0 (·.save) =
        (ruledChanges rules line h w).getLast?.elim 0 (·.save) := by
      cases hlast : (ruledChanges rules line h w).getLast? with
      | none => rfl
      | some c =>
        have hmem := List.mem_of_getLast? hlast
        cases hr : c.rule with
        | none => simp [hr, save_of_mem_ruledChanges hmem hr]
        | some r => simp [hr, (rule_of_mem_ruledChanges hmem hr).2]
    exact congrArg (endingAt line) hahead

theorem changesUntil_append_changesAfter (hsorted : s.changes.Pairwise fun c d => c.time < d.time)
    (p : Int) : s.changesUntil p ++ s.changesAfter p = s.changes :=
  filter_not_append_filter (hsorted.imp fun hlt hp => Int.lt_trans hp hlt)

theorem dst_handover_eq (hsorted : s.changes.Pairwise fun c d => c.time < d.time) (p : Int) :
    s.handover.dst = (s.changesAfter p).getLast?.elim (s.savingAt p) (·.save) := by
  have hdst : s.handover.dst = s.changes.getLast?.elim 0 (·.save) := rfl
  rw [hdst, ← changesUntil_append_changesAfter hsorted p, List.getLast?_append]
  cases (s.changesAfter p).getLast? with
  | none => rfl
  | some c => rfl

/-- **Both replays go on alike** after a line with the same changes after an instant, if there are
any or clocks are ahead by the same amount at the instant. -/
theorem handover_eq (hs : segment ruleSets ⟨lo, hi⟩ h line = .ok s)
    (hs' : segment ruleSets ⟨lo', hi⟩ h' line = .ok s')
    (hsorted : s.changes.Pairwise fun c d => c.time < d.time)
    (hsorted' : s'.changes.Pairwise fun c d => c.time < d.time)
    (hchanges : s.changesAfter p = s'.changesAfter p)
    (hmeet : s.savingAt p = s'.savingAt p ∨ s.changesAfter p ≠ []) :
    s.handover = s'.handover := by
  have hdst : s.handover.dst = s'.handover.dst := by
    rw [dst_handover_eq hsorted p, dst_handover_eq hsorted' p, ← hchanges]
    rcases hmeet with hsaving | hne
    · rw [hsaving]
    · rw [List.getLast?_eq_some_getLast hne]
      rfl
  have hending : s.ending = s'.ending := by
    rw [ending_of_segment hs, ending_of_segment hs', hdst]
  have hline : s.line = s'.line := (line_of_segment hs).trans (line_of_segment hs').symm
  have heq (u : Segment) : u.handover = ⟨u.ending, u.line.stdoff, u.handover.dst⟩ := rfl
  rw [heq s, heq s', hending, hline, hdst]

/-- Two segments of a line have met by an instant: clocks have been ahead by the same amount before
it, or the line has had a change since. -/
def Segment.HasMet (s s' : Segment) (p x : Int) : Prop :=
  s.savingAt p = s'.savingAt p ∨ ∃ c ∈ s.changesAfter p, c.time ≤ x

theorem Segment.HasMet.mono {x y : Int} (h : s.HasMet s' p x) (hxy : x ≤ y) : s.HasMet s' p y :=
  h.imp_right fun ⟨c, hc, hle⟩ => ⟨c, hc, Int.le_trans hle hxy⟩

theorem savingAt_eq_of_lt {x : Int} (hx : p ≤ x) (hlater : ∀ c ∈ s.changesAfter p, x < c.time) :
    s.savingAt x = s.savingAt p := by
  have huntil : s.changesUntil x = s.changesUntil p := by
    refine List.filter_congr fun c hc => decide_eq_decide.2 (not_congr ⟨?_, fun hlt => ?_⟩)
    · exact Int.lt_of_le_of_lt hx
    · exact hlater c (List.mem_filter.2 ⟨hc, decide_eq_true hlt⟩)
  rw [Segment.savingAt, Segment.savingAt, huntil]

theorem exists_time_eq_start (hs : segment ruleSets w h line = .ok s) :
    ∃ c ∈ s.changes, c.time = s.start := by
  rcases segment_cases hs with ⟨amount, -, rfl⟩ | ⟨name, rules, -, -, rfl⟩
  · exact ⟨_, List.mem_singleton_self _, rfl⟩
  · show ∃ c ∈ ruledChanges rules line h w, c.time = h.start
    rw [ruledChanges_eq]
    by_cases hany : (insideFirings rules line h w).any (·.time == h.start) = true
    · obtain ⟨f, hf, htime⟩ := List.any_eq_true.1 hany
      exact ⟨f.change, List.mem_append_right _ (List.mem_map_of_mem hf), eq_of_beq htime⟩
    · rw [opening, if_neg hany]
      exact ⟨_, List.mem_cons_self, openingChange_time _ _ _⟩

/-! ## The lines before and after one -/

/-- What the segments of the first lines hand over. -/
def handoverAfter (h : Handover) (ss : List Segment) : Handover :=
  ss.getLast?.elim h Segment.handover

theorem handoverAfter_cons (h : Handover) (s : Segment) (ss : List Segment) :
    handoverAfter h (s :: ss) = handoverAfter s.handover ss := by
  rw [handoverAfter, handoverAfter, List.getLast?_cons]
  cases ss.getLast? with
  | none => rfl
  | some u => rfl

theorem segments_replay_cons (hs : segment ruleSets w h line = .ok s) :
    (replay ruleSets w h (line :: lines)).segments =
      s :: if s.isBeyond w then [] else (replay ruleSets w s.handover lines).segments := by
  simp only [replay, hs]
  split <;> rfl

/-- A replay goes on from what the lines so far hand over. -/
theorem replay_getElem? {k : Nat} (hs : (replay ruleSets w h lines).segments[k]? = some s) :
    segment ruleSets w (handoverAfter h ((replay ruleSets w h lines).segments.take k)) s.line =
        .ok s ∧
      (replay ruleSets w h lines).segments.drop (k + 1) =
        if s.isBeyond w then []
        else (replay ruleSets w s.handover (lines.drop (k + 1))).segments := by
  induction lines generalizing h k with
  | nil => simp [replay] at hs
  | cons line rest ih =>
    cases hu : segment ruleSets w h line with
    | error name => simp [replay, hu] at hs
    | ok u =>
      rw [segments_replay_cons hu] at hs ⊢
      cases k with
      | zero =>
        obtain rfl := Option.some.inj hs
        rw [line_of_segment hu]
        exact ⟨hu, rfl⟩
      | succ k =>
        rw [List.getElem?_cons_succ] at hs
        split at hs
        · cases hs
        · rename_i hnot
          obtain ⟨hline, hdrop⟩ := ih hs
          rw [if_neg hnot, List.take_succ_cons, handoverAfter_cons]
          exact ⟨hline, hdrop⟩

end Replay
end ZoneTables
