import Mathlib.Data.List.Forall2
import ZoneTables.Proofs.Timeline.Basic
import ZoneTables.Timeline.Matching

/-!
# How timelines are compared

Lists match exactly if they agree at every index (`matchesExactly_eq_true_iff`). A comparison with
another source goes through both lists and passes over what lags behind. Which transitions it lines
up depends on their times alone (`aligned`), and it looks for the first two of those that differ
(`map_firstMismatch`). So it matches exactly if all that it lines up agree
(`closelyMatches_eq_true_iff`).

Transitions that are lined up are near each other, and two of which each has no other near it are
lined up if both lists are in order (`mem_aligned_of_isIsolated`): a comparison detects differences,
and only those (`closelyMatches_detects`). Lining up does not depend on which list comes first
(`aligned_swap`), nor on how closely transitions are compared, and lists that match exactly are
lined up index by index: the comparison is a relation with the laws of `closelyMatches_relation`.
-/

namespace ZoneTables

open Text

variable {ts us : List Transition} {t u : Transition} {c c' : Closeness}

/-! ## Exact comparison -/

/-- **Lists match exactly if they agree at every index.** -/
theorem matchesExactly_eq_true_iff (zone : Option String) {names : Bool}
    {ts us : List Transition} :
    (matchesExactly zone names ts us).2 = .ok true ↔
      List.Forall₂ (fun t u => t.equals names u = true) ts us := by
  rw [List.forall₂_iff_zip, matchesExactly]
  by_cases hlen : ts.length = us.length
  · have hmem (x : Transition × Transition) :
        x ∈ ts.zip us ↔ ∃ i, (x, i) ∈ (ts.zip us).zipIdx := by
      conv_lhs => rw [← List.zipIdx_map_fst 0 (ts.zip us)]
      rw [List.mem_map]
      simp
    rw [if_neg (by simpa using hlen)]
    split
    · rename_i hnone
      simp only [true_iff]
      refine ⟨hlen, ?_⟩
      intro a b hab
      obtain ⟨i, hi⟩ := (hmem (a, b)).1 hab
      simpa using List.find?_eq_none.1 hnone _ hi
    · rename_i t u i hsome
      have hne : t.equals names u = false := by simpa using List.find?_some hsome
      have htu : (t, u) ∈ ts.zip us := (hmem _).2 ⟨i, List.mem_of_find?_eq_some hsome⟩
      apply iff_of_false
      · simp only [reportMismatch]
        split <;> simp
      · intro hall
        rw [hall.2 htu] at hne
        cases hne
  · rw [if_pos hlen]
    simp [hlen]

theorem Transition.equals_iff {names : Bool} : t.equals names u = true ↔
    t.time = u.time ∧ t.utcOffset = u.utcOffset ∧ t.dstOffset = u.dstOffset ∧
      (names = true → t.name = u.name) := by
  cases names <;> simp [equals, and_assoc]

/-! ## Reports -/

/-- The numbers in a report about two transitions that differ. -/
def reportNumbers (t u : Transition) : List Int :=
  [t.time, t.utcOffset, t.dstOffset, u.time, u.utcOffset, u.dstOffset, u.time - t.time]

/-- No number is too long in the report about the first difference of two lists, if there is one. -/
def Closeness.CanReport (c : Closeness) (ts us : List Transition) : Prop :=
  ∀ index t u, c.mismatch? ts us = some (index, t, u) →
    ∀ x ∈ reportNumbers t u, Numeral.isWritable x = true

instance (c : Closeness) (ts us : List Transition) : Decidable (c.CanReport ts us) :=
  decidable_of_iff (((c.mismatch? ts us).all fun found =>
      (reportNumbers found.2.1 found.2.2).all Numeral.isWritable) = true) <| by
    simp [Closeness.CanReport, Option.all_eq_true]

/-- **A report ends with the verdict that the transitions differ**, or breaks off at a number that
is too long. -/
theorem reportMismatch_eq (zone : Option String) (index : Nat) (t u : Transition) :
    (reportMismatch zone index t u).2 =
      if (reportNumbers t u).all Numeral.isWritable then .ok false else .error .unwritable := by
  have hlines : ((mismatchLines zone index t u).all fun line => line.2.all Numeral.isWritable) =
      (reportNumbers t u).all Numeral.isWritable := by
    simp [mismatchLines, reportNumbers, Bool.and_assoc]
  rw [reportMismatch, ← hlines]

theorem all_reportNumbers_swap (t u : Transition) :
    (reportNumbers u t).all Numeral.isWritable = (reportNumbers t u).all Numeral.isWritable := by
  have hback : Numeral.isWritable (t.time - u.time) = Numeral.isWritable (u.time - t.time) := by
    rw [Numeral.isWritable, Numeral.isWritable, ← Int.neg_sub, Int.natAbs_neg]
  simp only [reportNumbers, List.all_cons, List.all_nil, hback, Bool.and_comm, Bool.and_left_comm]

theorem closelyMatches_isOk_iff (zone : Option String) {c : Closeness} {ts us : List Transition} :
    (∃ agree, (closelyMatches zone c ts us).2 = .ok agree) ↔ c.CanReport ts us := by
  unfold closelyMatches Closeness.CanReport
  cases c.mismatch? ts us with
  | none => simp
  | some found =>
    obtain ⟨index, t, u⟩ := found
    simp only [reportMismatch_eq, Option.some.injEq, Prod.mk.injEq, ← List.all_eq_true]
    constructor
    · rintro ⟨agree, h⟩ _ _ _ ⟨-, rfl, rfl⟩
      by_contra hnot
      rw [if_neg hnot] at h
      cases h
    · intro h
      exact ⟨false, if_pos (h index t u ⟨rfl, rfl, rfl⟩)⟩

theorem closelyMatches_cases (zone : Option String) (c : Closeness) (ts us : List Transition) :
    (closelyMatches zone c ts us).2 = .error .unwritable ∨
      ∃ agree, (closelyMatches zone c ts us).2 = .ok agree := by
  unfold closelyMatches
  split
  · exact .inr ⟨_, rfl⟩
  · rw [reportMismatch_eq]
    split
    · exact .inr ⟨_, rfl⟩
    · exact .inl rfl

/-! ## Transitions that are lined up -/

/-- Two transitions are at most `alignmentWindow` apart. -/
def Transition.IsNear (t u : Transition) : Prop :=
  (t.time - u.time).natAbs ≤ alignmentWindow

instance (t u : Transition) : Decidable (t.IsNear u) :=
  inferInstanceAs (Decidable (_ ≤ _))

theorem Transition.isNear_iff : t.IsNear u ↔
    ¬t.time + alignmentWindow < u.time ∧ ¬u.time + alignmentWindow < t.time := by
  unfold IsNear
  omega

/-- The pairs of transitions that a comparison lines up where it finds no difference. What is too
early for the other list is passed over. -/
def aligned : List Transition → List Transition → List (Transition × Transition)
  | t :: ts, u :: us =>
    if t.time + alignmentWindow < u.time then aligned ts (u :: us)
    else if u.time + alignmentWindow < t.time then aligned (t :: ts) us
    else (t, u) :: aligned ts us
  | _, _ => []
termination_by ts us => ts.length + us.length

@[simp] theorem aligned_nil_left (us : List Transition) : aligned [] us = [] := by
  rw [aligned]
  intro _ _ _ _ h
  cases h

@[simp] theorem aligned_nil_right (ts : List Transition) : aligned ts [] = [] := by
  rw [aligned]
  intro _ _ _ _ _ h
  cases h

theorem aligned_of_early (h : t.time + alignmentWindow < u.time) :
    aligned (t :: ts) (u :: us) = aligned ts (u :: us) := by
  rw [aligned, if_pos h]

theorem aligned_of_late (h : u.time + alignmentWindow < t.time) :
    aligned (t :: ts) (u :: us) = aligned (t :: ts) us := by
  have hlate : ¬t.time + alignmentWindow < u.time := by
    unfold alignmentWindow secondsPerDay at *
    omega
  rw [aligned, if_neg hlate, if_pos h]

theorem aligned_of_isNear (h : t.IsNear u) :
    aligned (t :: ts) (u :: us) = (t, u) :: aligned ts us := by
  obtain ⟨hearly, hlate⟩ := Transition.isNear_iff.1 h
  rw [aligned, if_neg hearly, if_neg hlate]

theorem eq_nil_or_eq_nil (h : ∀ t ts' u us', ts = t :: ts' → us = u :: us' → False) :
    ts = [] ∨ us = [] := by
  cases ts with
  | nil => exact .inl rfl
  | cons t ts =>
    cases us with
    | nil => exact .inr rfl
    | cons u us => exact (h t ts u us rfl rfl).elim

theorem mem_aligned {p : Transition × Transition} (h : p ∈ aligned ts us) :
    p.1 ∈ ts ∧ p.2 ∈ us ∧ p.1.IsNear p.2 := by
  fun_induction aligned ts us with
  | case1 t ts u us hearly ih =>
    obtain ⟨hts, hus, hnear⟩ := ih h
    exact ⟨List.mem_cons_of_mem t hts, hus, hnear⟩
  | case2 t ts u us _ hlate ih =>
    obtain ⟨hts, hus, hnear⟩ := ih h
    exact ⟨hts, List.mem_cons_of_mem u hus, hnear⟩
  | case3 t ts u us hearly hlate ih =>
    rcases List.mem_cons.1 h with rfl | h
    · exact ⟨List.mem_cons_self, List.mem_cons_self, Transition.isNear_iff.2 ⟨hearly, hlate⟩⟩
    · obtain ⟨hts, hus, hnear⟩ := ih h
      exact ⟨List.mem_cons_of_mem t hts, List.mem_cons_of_mem u hus, hnear⟩
  | case4 => cases h

/-- **It makes no difference which list comes first.** -/
theorem aligned_swap (ts us : List Transition) : aligned us ts = (aligned ts us).map Prod.swap := by
  fun_induction aligned ts us with
  | case1 t ts u us hearly ih => rw [aligned_of_late hearly, ih]
  | case2 t ts u us _ hlate ih => rw [aligned_of_early hlate, ih]
  | case3 t ts u us hearly hlate ih =>
    rw [aligned_of_isNear (Transition.isNear_iff.2 ⟨hlate, hearly⟩), ih]
    rfl
  | case4 ts us hend =>
    rcases eq_nil_or_eq_nil hend with rfl | rfl
    · exact aligned_nil_right us
    · exact aligned_nil_left ts

/-- Two transitions of two lists that are near each other, and have no other of the lists near
them. -/
structure IsIsolated (ts us : List Transition) (t u : Transition) : Prop where
  left : t ∈ ts
  right : u ∈ us
  near : t.IsNear u
  eq_left : ∀ v ∈ ts, v.IsNear u → v = t
  eq_right : ∀ v ∈ us, t.IsNear v → v = u

theorem IsIsolated.of_cons_left {p q : Transition} (h : IsIsolated (t :: ts) us p q)
    (hne : p ≠ t) : IsIsolated ts us p q :=
  { h with
    left := (List.mem_cons.1 h.left).resolve_left hne
    eq_left := fun v hv => h.eq_left v (List.mem_cons_of_mem t hv) }

theorem IsIsolated.of_cons_right {p q : Transition} (h : IsIsolated ts (u :: us) p q)
    (hne : q ≠ u) : IsIsolated ts us p q :=
  { h with
    right := (List.mem_cons.1 h.right).resolve_left hne
    eq_right := fun v hv => h.eq_right v (List.mem_cons_of_mem u hv) }

/-- **Isolated transitions are lined up**: what comes before one of them in its list is passed
over, or lined up, while the other is waiting. -/
theorem mem_aligned_of_isIsolated {p q : Transition} (hts : ts.Pairwise fun u v => u.time < v.time)
    (hus : us.Pairwise fun u v => u.time < v.time) (h : IsIsolated ts us p q) :
    (p, q) ∈ aligned ts us := by
  fun_induction aligned ts us with
  | case1 t ts u us hearly ih =>
    -- what is too early for the first of the other list is too early for all of it
    have hne : p ≠ t := by
      rintro rfl
      have := time_le_of_mem_cons hus h.right
      exact (Transition.isNear_iff.1 h.near).1 (by omega)
    exact ih hts.tail hus (h.of_cons_left hne)
  | case2 t ts u us _ hlate ih =>
    have hne : q ≠ u := by
      rintro rfl
      have := time_le_of_mem_cons hts h.left
      exact (Transition.isNear_iff.1 h.near).2 (by omega)
    exact ih hts hus.tail (h.of_cons_right hne)
  | case3 t ts u us hearly hlate ih =>
    -- both are lined up now, or neither is
    have hnear := Transition.isNear_iff.2 ⟨hearly, hlate⟩
    by_cases hp : p = t
    · subst hp
      rw [h.eq_right u List.mem_cons_self hnear]
      exact List.mem_cons_self
    by_cases hq : q = u
    · subst hq
      exact absurd (h.eq_left t List.mem_cons_self hnear).symm hp
    · exact List.mem_cons_of_mem _ (ih hts.tail hus.tail ((h.of_cons_left hp).of_cons_right hq))
  | case4 ts us hend =>
    rcases eq_nil_or_eq_nil hend with rfl | rfl
    · cases h.left
    · cases h.right

theorem equals_of_mem_aligned {names : Bool} {p : Transition × Transition}
    (h : List.Forall₂ (fun t u => t.equals names u = true) ts us) (hp : p ∈ aligned ts us) :
    p.1.equals names p.2 = true := by
  induction h with
  | nil => simp at hp
  | @cons t u ts us htu hrest ih =>
    have htime := (Transition.equals_iff.1 htu).1
    have hnear : t.IsNear u := by
      unfold Transition.IsNear alignmentWindow secondsPerDay
      omega
    rw [aligned_of_isNear hnear] at hp
    rcases List.mem_cons.1 hp with rfl | hp
    · exact htu
    · exact ih hp

/-! ## Renamings -/

/-- Lists that match exactly do so without what changes nothing but the name. -/
theorem forall₂_dropRenamings {names : Bool} {p q : Transition}
    (hpq : p.equals names q = true) (h : List.Forall₂ (fun t u => t.equals names u = true) ts us) :
    List.Forall₂ (fun t u => t.equals names u = true) (dropRenamings p ts) (dropRenamings q us) := by
  induction h generalizing p q with
  | nil => exact .nil
  | @cons t u ts us htu hrest ih =>
    obtain ⟨-, hoffset, hdst, -⟩ := Transition.equals_iff.1 htu
    obtain ⟨-, hoffset', hdst', -⟩ := Transition.equals_iff.1 hpq
    rw [dropRenamings, dropRenamings, hoffset, hdst, hoffset', hdst']
    split
    · exact ih hpq
    · exact .cons htu (ih htu)

theorem forall₂_removeRenamings {names : Bool}
    (h : List.Forall₂ (fun t u => t.equals names u = true) ts us) :
    List.Forall₂ (fun t u => t.equals names u = true) (removeRenamings ts) (removeRenamings us) := by
  cases h with
  | nil => exact .nil
  | cons htu hrest => exact .cons htu (forall₂_dropRenamings htu hrest)

/-! ## What is compared -/

namespace Closeness

/-- The transitions of a list that a comparison goes through. -/
def compared (c : Closeness) (ts : List Transition) : List Transition :=
  ((if c.ignoreRenaming then removeRenamings else id) ts).drop 1

theorem compared_of_ignoreRenaming (h : c.ignoreRenaming = false) (ts : List Transition) :
    c.compared ts = ts.drop 1 := by
  rw [compared, h]
  rfl

theorem forall₂_compared {names : Bool} (c : Closeness)
    (h : List.Forall₂ (fun t u => t.equals names u = true) ts us) :
    List.Forall₂ (fun t u => t.equals names u = true) (c.compared ts) (c.compared us) := by
  refine List.forall₂_drop 1 ?_
  split
  · exact forall₂_removeRenamings h
  · exact h

/-- Two transitions do not differ in what is compared. -/
structure Agree (c : Closeness) (t u : Transition) : Prop where
  time : (t.time - u.time).natAbs ≤ c.tolerance
  utcOffset : (t.utcOffset - u.utcOffset).natAbs ≤ c.tolerance
  saving : t.dstOffset = 0 ↔ u.dstOffset = 0
  dstAmount : c.dstAmount = true → t.dstOffset = u.dstOffset
  name : c.names = true → t.name = u.name

theorem accepts_iff : c.accepts t u = true ↔ c.Agree t u := by
  have hsaving : ((t.dstOffset == 0) == (u.dstOffset == 0)) = true ↔
      (t.dstOffset = 0 ↔ u.dstOffset = 0) := by
    rw [beq_iff_eq, Bool.eq_iff_iff, beq_iff_eq, beq_iff_eq]
  have hdst : (!c.dstAmount || t.dstOffset == u.dstOffset) = true ↔
      (c.dstAmount = true → t.dstOffset = u.dstOffset) := by
    cases c.dstAmount <;> simp
  have hname : (!c.names || t.name == u.name) = true ↔ (c.names = true → t.name = u.name) := by
    cases c.names <;> simp
  simp only [accepts, Bool.and_eq_true, decide_eq_true_eq, hsaving, hdst, hname]
  exact ⟨fun ⟨⟨⟨⟨htime, hoffset⟩, hsaving⟩, hdst⟩, hname⟩ => ⟨htime, hoffset, hsaving, hdst, hname⟩,
    fun h => ⟨⟨⟨⟨h.time, h.utcOffset⟩, h.saving⟩, h.dstAmount⟩, h.name⟩⟩

theorem Agree.symm (h : c.Agree t u) : c.Agree u t where
  time := by rw [← Int.neg_sub, Int.natAbs_neg]; exact h.time
  utcOffset := by rw [← Int.neg_sub, Int.natAbs_neg]; exact h.utcOffset
  saving := h.saving.symm
  dstAmount hc := (h.dstAmount hc).symm
  name hc := (h.name hc).symm

theorem accepts_swap (c : Closeness) (t u : Transition) : c.accepts u t = c.accepts t u := by
  rw [Bool.eq_iff_iff, accepts_iff, accepts_iff]
  exact ⟨Agree.symm, Agree.symm⟩

theorem agree_of_equals {names : Bool} (hc : 0 ≤ c.tolerance) (hnames : c.names = true → names = true)
    (h : t.equals names u = true) : c.Agree t u := by
  obtain ⟨htime, hoffset, hdst, hname⟩ := Transition.equals_iff.1 h
  exact
    { time := by rw [htime, Int.sub_self]; exact hc
      utcOffset := by rw [hoffset, Int.sub_self]; exact hc
      saving := by rw [hdst]
      dstAmount := fun _ => hdst
      name := fun hflag => hname (hnames hflag) }

/-- Times and offsets may differ by no less, and no more is compared. -/
structure IsLooser (c' c : Closeness) : Prop where
  tolerance : c.tolerance ≤ c'.tolerance
  names : c'.names = true → c.names = true
  dstAmount : c'.dstAmount = true → c.dstAmount = true
  ignoreRenaming : c'.ignoreRenaming = c.ignoreRenaming

theorem Agree.of_isLooser (h : c.Agree t u) (hc : c'.IsLooser c) : c'.Agree t u where
  time := Int.le_trans h.time hc.tolerance
  utcOffset := Int.le_trans h.utcOffset hc.tolerance
  saving := h.saving
  dstAmount hflag := h.dstAmount (hc.dstAmount hflag)
  name hflag := h.name (hc.names hflag)

theorem compared_of_isLooser (hc : c'.IsLooser c) (ts : List Transition) :
    c'.compared ts = c.compared ts := by
  rw [compared, compared, hc.ignoreRenaming]

end Closeness

/-! ## A comparison -/

theorem map_firstMismatch (c : Closeness) (index : Nat) (ts us : List Transition) :
    (firstMismatch c index ts us).map (·.2) =
      (aligned ts us).find? fun p => !c.accepts p.1 p.2 := by
  fun_induction firstMismatch c index ts us with
  | case1 index t ts u us hearly ih => rw [aligned_of_early hearly, ih]
  | case2 index t ts u us _ hlate ih => rw [aligned_of_late hlate, ih]
  | case3 index t ts u us hearly hlate haccepts ih =>
    rw [aligned_of_isNear (Transition.isNear_iff.2 ⟨hearly, hlate⟩), List.find?_cons_of_neg, ih]
    simpa using haccepts
  | case4 index t ts u us hearly hlate haccepts =>
    rw [aligned_of_isNear (Transition.isNear_iff.2 ⟨hearly, hlate⟩), List.find?_cons_of_pos]
    · rfl
    · simpa using haccepts
  | case5 index ts us hend =>
    rcases eq_nil_or_eq_nil hend with rfl | rfl
    · rw [aligned_nil_left]
      rfl
    · rw [aligned_nil_right]
      rfl

/-- **A comparison reports the first two transitions that it lines up and that differ**, if there
are such. -/
theorem closelyMatches_eq (zone : Option String) (c : Closeness) (ts us : List Transition) :
    (closelyMatches zone c ts us).2 =
      match (aligned (c.compared ts) (c.compared us)).find? fun p => !c.accepts p.1 p.2 with
      | none => .ok true
      | some (t, u) =>
        if (reportNumbers t u).all Numeral.isWritable then .ok false else .error .unwritable := by
  have hfirst : c.mismatch? ts us = firstMismatch c 1 (c.compared ts) (c.compared us) := rfl
  rw [closelyMatches, hfirst, ← map_firstMismatch c 1]
  cases firstMismatch c 1 (c.compared ts) (c.compared us) with
  | none => rfl
  | some found => exact reportMismatch_eq zone found.1 found.2.1 found.2.2

/-- **Lists match closely exactly if all that is lined up agrees.** -/
theorem closelyMatches_eq_true_iff {zone : Option String} :
    (closelyMatches zone c ts us).2 = .ok true ↔
      ∀ p ∈ aligned (c.compared ts) (c.compared us), c.Agree p.1 p.2 := by
  have hnone : ((aligned (c.compared ts) (c.compared us)).find? fun p => !c.accepts p.1 p.2) = none ↔
      ∀ p ∈ aligned (c.compared ts) (c.compared us), c.Agree p.1 p.2 := by
    rw [List.find?_eq_none]
    exact forall₂_congr fun p _ => by rw [← Closeness.accepts_iff]; simp
  rw [← hnone, closelyMatches_eq]
  split
  · rename_i heq
    simp [heq]
  · rename_i heq
    rw [heq]
    split <;> simp

/-- **A comparison detects differences, and only those.** Unless lists match, they have two
transitions near each other that differ; and if they match, isolated transitions do not. -/
theorem closelyMatches_detects (zone : Option String) (hc : c.ignoreRenaming = false)
    (hts : ts.Pairwise fun u v => u.time < v.time) (hus : us.Pairwise fun u v => u.time < v.time) :
    ((closelyMatches zone c ts us).2 ≠ .ok true →
      ∃ t ∈ ts.drop 1, ∃ u ∈ us.drop 1, t.IsNear u ∧ ¬c.Agree t u) ∧
    ((closelyMatches zone c ts us).2 = .ok true →
      ∀ t u, IsIsolated (ts.drop 1) (us.drop 1) t u → c.Agree t u) := by
  rw [Ne, closelyMatches_eq_true_iff, Closeness.compared_of_ignoreRenaming hc,
    Closeness.compared_of_ignoreRenaming hc]
  constructor
  · intro hdiffer
    simp only [not_forall] at hdiffer
    obtain ⟨p, hp, hnot⟩ := hdiffer
    obtain ⟨ht, hu, hnear⟩ := mem_aligned hp
    exact ⟨p.1, ht, p.2, hu, hnear, hnot⟩
  · intro hall t u hisolated
    exact hall (t, u) (mem_aligned_of_isIsolated hts.drop hus.drop hisolated)

/-- Half a year of summer time, begun by a transition of the previous year that only renames. -/
def halfYear : List Transition :=
  [⟨beginningOfTime, 0, 0, some "LMT", none⟩, ⟨-15552000, 0, 0, some "GMT", none⟩,
    ⟨0, 3600, 3600, some "BST", none⟩, ⟨15552000, 0, 0, some "GMT", none⟩]

/-- The same from a source that does not know of the renaming, and knows of another year. -/
def halfYearAgain : List Transition :=
  [⟨beginningOfTime, 0, 0, some "GMT", none⟩, ⟨30, 3600, 3600, some "BST", none⟩,
    ⟨15552000, 0, 0, some "GMT", none⟩, ⟨31104000, 3600, 3600, some "BST", none⟩]

theorem closelyMatches_detects_halfYear :
    halfYear.Pairwise (fun (u v : Transition) => u.time < v.time) ∧
      halfYearAgain.Pairwise (fun (u v : Transition) => u.time < v.time) ∧
      (closelyMatches none (.zoneinfo 60) halfYear halfYearAgain).2 = .ok true ∧
      (∃ t u, IsIsolated (halfYear.drop 1) (halfYearAgain.drop 1) t u ∧
        (Closeness.zoneinfo 60).Agree t u) ∧
      (closelyMatches none (.zoneinfo 0) halfYear halfYearAgain).2 = .ok false ∧
      ∃ t ∈ halfYear.drop 1, ∃ u ∈ halfYearAgain.drop 1,
        t.IsNear u ∧ ¬(Closeness.zoneinfo 0).Agree t u := by
  have hts : halfYear.Pairwise (fun (u v : Transition) => u.time < v.time) := by decide
  have hus : halfYearAgain.Pairwise (fun (u v : Transition) => u.time < v.time) := by decide
  have htrue : (closelyMatches none (.zoneinfo 60) halfYear halfYearAgain).2 = .ok true := by
    decide +kernel
  have hfalse : (closelyMatches none (.zoneinfo 0) halfYear halfYearAgain).2 = .ok false := by
    decide +kernel
  have hisolated : IsIsolated (halfYear.drop 1) (halfYearAgain.drop 1)
      ⟨0, 3600, 3600, some "BST", none⟩ ⟨30, 3600, 3600, some "BST", none⟩ :=
    ⟨by decide, by decide, by decide, by decide, by decide⟩
  refine ⟨hts, hus, htrue, ⟨_, _, hisolated, ?_⟩, hfalse, ?_⟩
  · exact (closelyMatches_detects none rfl hts hus).2 htrue _ _ hisolated
  · exact (closelyMatches_detects none rfl hts hus).1 (by rw [hfalse]; decide)

/-- **It makes no difference to a comparison which list comes first.** -/
theorem closelyMatches_swap (zone zone' : Option String) (c : Closeness)
    (ts us : List Transition) :
    (closelyMatches zone' c us ts).2 = (closelyMatches zone c ts us).2 := by
  have hswap : (fun p : Transition × Transition => !c.accepts p.1 p.2) ∘ Prod.swap =
      fun p => !c.accepts p.1 p.2 := by
    funext p
    exact congrArg (! ·) (c.accepts_swap p.1 p.2)
  rw [closelyMatches_eq, closelyMatches_eq, aligned_swap (c.compared ts), List.find?_map, hswap]
  cases (aligned (c.compared ts) (c.compared us)).find? fun p => !c.accepts p.1 p.2 with
  | none => rfl
  | some p =>
    show (if (reportNumbers p.2 p.1).all Numeral.isWritable then _ else _) = _
    rw [all_reportNumbers_swap]

/-- **Lists that match exactly match closely**, if names were compared where they count. -/
theorem closelyMatches_of_equals {zone : Option String} {names : Bool} (hc : 0 ≤ c.tolerance)
    (hnames : c.names = true → names = true)
    (h : List.Forall₂ (fun t u => t.equals names u = true) ts us) :
    (closelyMatches zone c ts us).2 = .ok true := by
  rw [closelyMatches_eq_true_iff]
  exact fun p hp => Closeness.agree_of_equals hc hnames
    (equals_of_mem_aligned (c.forall₂_compared h) hp)

/-- **Laws of comparison**: it does not matter which list comes first; lists that match exactly
match closely, and so does every list itself; and lists that match closely do so still if more is
tolerated or less is compared. -/
theorem closelyMatches_relation (zone zone' : Option String) (c : Closeness)
    (ts us : List Transition) :
    (closelyMatches zone c ts us).2 = (closelyMatches zone' c us ts).2 ∧
    (0 ≤ c.tolerance →
      (∀ names, (c.names = true → names = true) → (matchesExactly zone names ts us).2 = .ok true →
        (closelyMatches zone c ts us).2 = .ok true) ∧
      (closelyMatches zone c ts ts).2 = .ok true) ∧
    ∀ c' : Closeness, c'.IsLooser c → (closelyMatches zone c ts us).2 = .ok true →
      (closelyMatches zone c' ts us).2 = .ok true := by
  refine ⟨closelyMatches_swap zone' zone c us ts, fun hc => ⟨fun names hnames hmatch => ?_, ?_⟩,
    fun c' hlooser hmatch => ?_⟩
  · exact closelyMatches_of_equals hc hnames ((matchesExactly_eq_true_iff zone).1 hmatch)
  · refine closelyMatches_of_equals hc (fun _ => rfl) (List.forall₂_same.2 fun t _ => ?_)
    exact Transition.equals_iff.2 ⟨rfl, rfl, rfl, fun _ => rfl⟩
  · rw [closelyMatches_eq_true_iff] at hmatch ⊢
    rw [Closeness.compared_of_isLooser hlooser, Closeness.compared_of_isLooser hlooser]
    exact fun p hp => (hmatch p hp).of_isLooser hlooser

theorem closelyMatches_relation_halfYear :
    let nameless := halfYear.map fun t => { t with name := none }
    let looser : Closeness := ⟨90, false, false, true⟩
    (closelyMatches none (.host 60) halfYear halfYearAgain).2 = .ok true ∧
      (closelyMatches none (.host 60) halfYearAgain halfYear).2 = .ok true ∧
      (matchesExactly none false halfYear nameless).2 = .ok true ∧
      (closelyMatches none (.host 60) halfYear nameless).2 = .ok true ∧
      (closelyMatches none (.host 60) halfYear halfYear).2 = .ok true ∧
      looser.IsLooser (.host 60) ∧
      (closelyMatches none looser halfYear halfYearAgain).2 = .ok true := by
  intro nameless looser
  have hmatch : (closelyMatches none (.host 60) halfYear halfYearAgain).2 = .ok true := by
    decide +kernel
  have hexact : (matchesExactly none false halfYear nameless).2 = .ok true := by
    decide +kernel
  have hlooser : looser.IsLooser (.host 60) := ⟨by decide, by decide, by decide, rfl⟩
  have hlaws := closelyMatches_relation none none (.host 60) halfYear halfYearAgain
  have hself := (closelyMatches_relation none none (.host 60) halfYear nameless).2.1 (by decide)
  exact ⟨hmatch, hlaws.1 ▸ hmatch, hexact, hself.1 false nofun hexact, hself.2, hlooser,
    hlaws.2.2 looser hlooser hmatch⟩

end ZoneTables
