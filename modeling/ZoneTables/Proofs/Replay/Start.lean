import Mathlib.Data.List.Nodup
import ZoneTables.Proofs.Replay.Windows

/-!
# Rules that fire where a line takes over

A firing that falls on the start of a line, read on the clocks of the line before, is put there
(`firing`). On the wall clock it is then taken after the firing before it like any other
(`chain_append`), and is not at the start any more if clocks are ahead of standard time by then, or
behind it. Where firings are far apart, all others stay on their side of the start
(`FireFarApart.exists_firings`), and that decides how the line starts
(`FireFarApart.amountsAtStart_eq`): if clocks are ahead, the rule fires before the start, and the
line starts with what it saves all the same; if they are behind, it fires after the start, and until
then clocks stay as the firing before left them.
-/

namespace ZoneTables.Replay

variable {rules : List Rule} {line : ZoneLine} {h : Handover} {w : Window} {f g x : Firing}
  {fs before after : List Firing} {prev : Option Firing} {start amount : Int} {bound : Nat}
  {r : Rule} {year : Int} {s : Segment}

/-! ## Occurrences at the start -/

/-- The occurrences of the rules that fall on the start of the line when read on the clocks of the
line before. -/
def occurrencesAtStart (rules : List Rule) (line : ZoneLine) (h : Handover) (w : Window) :
    List (Rule × Int) :=
  (occurrences rules line w).filter fun o => o.1.instant o.2 h.stdoff h.dst = h.start

theorem mem_candidates_of_mem_atStart (hr : (r, year) ∈ occurrencesAtStart rules line h w) :
    ⟨h.start, r⟩ ∈ candidates rules line h w := by
  obtain ⟨hmem, hstart⟩ := List.mem_filter.1 hr
  have hfiring : firing line h r year = ⟨h.start, r⟩ := by
    rw [firing, if_pos (of_decide_eq_true hstart)]
  rw [candidates_eq_map_occurrences, ← hfiring]
  exact List.mem_map_of_mem (f := fun o => firing line h o.1 o.2) hmem

/-! ## The firing before another -/

/-- A firing after the one before it, if there is one. -/
def Firing.afterLast (prev : Option Firing) (f : Firing) : Firing := prev.elim f (·.after f)

theorem Firing.movesTo_afterLast (prev : Option Firing) (f : Firing) :
    f.MovesTo (f.afterLast prev) := by
  cases prev with
  | none => exact f.movesTo_self
  | some p => exact p.movesTo_after f

/-- **What comes before a firing bears on it by its last firing only.** -/
theorem chain_append (before : List Firing) (f : Firing) (after : List Firing) :
    chain (before ++ f :: after) = chain before ++
      f.afterLast before.getLast? :: List.zipWith Firing.after (f :: after) after := by
  cases before with
  | nil => rfl
  | cons g before =>
    rw [List.cons_append, chain, chain, List.cons_append, List.cons_inj_right]
    induction before generalizing g with
    | nil => rfl
    | cons k before ih =>
      rw [List.cons_append, List.zipWith_cons_cons, List.zipWith_cons_cons, ih k,
        List.getLast?_cons_cons]
      rfl

theorem latestBefore_concat (start : Int) (fs : List Firing) (f : Firing) :
    latestBefore start (fs ++ [f]) =
      if f.time < start && (latestBefore start fs).all (·.time < f.time) then some f
      else latestBefore start fs := by
  simp [latestBefore]

theorem latestBefore_concat_of_lt (hlt : f.time < start) (hearlier : ∀ g ∈ fs, g.time < f.time) :
    latestBefore start (fs ++ [f]) = some f := by
  rw [latestBefore_concat, if_pos]
  rw [Bool.and_eq_true, decide_eq_true_eq, Option.all_eq_true]
  exact ⟨hlt, fun g hg => decide_eq_true (hearlier g (mem_of_latestBefore hg))⟩

/-- One of the firings before an instant that none of them is later than; none if there are none. -/
def IsLatestBefore (start : Int) (fs : List Firing) : Option Firing → Prop
  | none => ∀ g ∈ fs, start ≤ g.time
  | some f => f ∈ fs ∧ f.time < start ∧ ∀ g ∈ fs, g.time < start → g.time ≤ f.time

theorem isLatestBefore_latestBefore (start : Int) (fs : List Firing) :
    IsLatestBefore start fs (latestBefore start fs) := by
  induction fs using List.reverseRecOn with
  | nil => simp [latestBefore, IsLatestBefore]
  | append_singleton fs k ih =>
    rw [latestBefore_concat]
    have hmem (P : Firing → Prop) : (∀ g ∈ fs ++ [k], P g) ↔ (∀ g ∈ fs, P g) ∧ P k := by
      simp [or_imp, forall_and]
    cases hlatest : latestBefore start fs with
    | none =>
      rw [hlatest] at ih
      by_cases hk : k.time < start
      · rw [if_pos (by simpa using hk)]
        refine ⟨by simp, hk, (hmem _).2 ⟨?_, fun _ => Int.le_refl _⟩⟩
        intro g hg hlt
        exact absurd (ih g hg) (Int.not_le.2 hlt)
      · rw [if_neg (by simpa using hk)]
        exact (hmem _).2 ⟨ih, Int.not_lt.1 hk⟩
    | some f =>
      rw [hlatest] at ih
      obtain ⟨hf, hlt, hmax⟩ := ih
      by_cases hk : k.time < start ∧ f.time < k.time
      · rw [if_pos (by simpa using hk)]
        refine ⟨by simp, hk.1, (hmem _).2 ⟨?_, fun _ => Int.le_refl _⟩⟩
        intro g hg hgstart
        exact Int.le_trans (hmax g hg hgstart) (Int.le_of_lt hk.2)
      · rw [if_neg (by simpa using hk)]
        refine ⟨List.mem_append_left _ hf, hlt, (hmem _).2 ⟨hmax, ?_⟩⟩
        omega

/-- **The latest firing before an instant** is one that is later than all others before it. -/
theorem latestBefore_eq_some (hf : f ∈ fs) (hlt : f.time < start)
    (hmax : ∀ g ∈ fs, g.time < start → g = f ∨ g.time < f.time) :
    latestBefore start fs = some f := by
  have hlatest := isLatestBefore_latestBefore start fs
  cases hfound : latestBefore start fs with
  | none =>
    rw [hfound] at hlatest
    exact absurd (hlatest f hf) (Int.not_le.2 hlt)
  | some g =>
    rw [hfound] at hlatest
    obtain ⟨hg, hgstart, hgmax⟩ := hlatest
    rcases hmax g hg hgstart with rfl | hearlier
    · rfl
    · exact absurd (hgmax f hf hlt) (Int.not_le.2 hearlier)

theorem latestBefore_eq_none (hall : ∀ g ∈ fs, start ≤ g.time) : latestBefore start fs = none := by
  have hlatest := isLatestBefore_latestBefore start fs
  cases hfound : latestBefore start fs with
  | none => rfl
  | some g =>
    rw [hfound] at hlatest
    exact absurd (hall g hlatest.1) (Int.not_le.2 hlatest.2.1)

theorem latestBefore_append (hafter : ∀ g ∈ after, start ≤ g.time) :
    latestBefore start (before ++ after) = latestBefore start before := by
  induction after using List.reverseRecOn with
  | nil => rw [List.append_nil]
  | append_singleton after k ih =>
    have hk := hafter k (by simp)
    rw [← List.append_assoc, latestBefore_concat, if_neg (by simp [Int.not_lt.2 hk])]
    exact ih fun g hg => hafter g (List.mem_append_left _ hg)

/-- The latest of firings at different instants does not depend on their order. -/
theorem latestBefore_perm {gs : List Firing} (hperm : fs.Perm gs)
    (hnodup : (fs.map Firing.time).Nodup) : latestBefore start fs = latestBefore start gs := by
  have hfs := isLatestBefore_latestBefore start fs
  cases hf : latestBefore start fs with
  | none =>
    rw [hf] at hfs
    exact (latestBefore_eq_none fun g hg => hfs g (hperm.mem_iff.2 hg)).symm
  | some f =>
    rw [hf] at hfs
    obtain ⟨hmem, hlt, hmax⟩ := hfs
    refine (latestBefore_eq_some (hperm.mem_iff.1 hmem) hlt ?_).symm
    intro g hg hgstart
    have hg := hperm.mem_iff.2 hg
    rcases Int.lt_or_eq_of_le (hmax g hg hgstart) with hearlier | htime
    · exact Or.inr hearlier
    · exact Or.inl (List.inj_on_of_nodup_map hnodup hg hmem htime)

/-! ## Firings far apart -/

/-- Any two firings of the rules for a line are further from each other, on its standard clock, than
twice a bound on what each of the rules saves. -/
structure FireFarApart (rules : List Rule) (line : ZoneLine) (h : Handover) (w : Window)
    (bound : Nat) : Prop where
  natAbs_save_le : ∀ r ∈ rules, r.save.natAbs ≤ bound
  far : (candidates rules line h w).Pairwise fun f g => 2 * bound < (f.time - g.time).natAbs

instance (rules : List Rule) (line : ZoneLine) (h : Handover) (w : Window) (bound : Nat) :
    Decidable (FireFarApart rules line h w bound) :=
  decidable_of_iff ((∀ r ∈ rules, r.save.natAbs ≤ bound) ∧
      (candidates rules line h w).Pairwise fun f g => 2 * bound < (f.time - g.time).natAbs)
    ⟨fun ⟨h1, h2⟩ => ⟨h1, h2⟩, fun ⟨h1, h2⟩ => ⟨h1, h2⟩⟩

theorem sortedCandidates_perm :
    (sortedCandidates rules line h w).Perm (candidates rules line h w) := List.mergeSort_perm _ _

theorem FireFarApart.pairwise_sorted (hapart : FireFarApart rules line h w bound) :
    (sortedCandidates rules line h w).Pairwise fun (f g : Firing) =>
      f.time + 2 * bound < g.time := by
  have hfar := (sortedCandidates_perm.pairwise_iff fun {f g} hfg => by omega).2 hapart.far
  refine (pairwise_sortedCandidates.and hfar).imp ?_
  rintro f g ⟨hle, hlt⟩
  omega

theorem FireFarApart.natAbs_save_le_of_mem (hapart : FireFarApart rules line h w bound)
    (hf : f ∈ candidates rules line h w) : f.rule.save.natAbs ≤ bound := by
  obtain ⟨r, hr, year, -, rfl⟩ := exists_of_mem_candidates hf
  exact hapart.natAbs_save_le r hr

theorem time_after_bounds (hsave : g.rule.save.natAbs ≤ bound) :
    f.time - bound ≤ (g.after f).time ∧ (g.after f).time ≤ f.time + bound := by
  unfold Firing.after
  split
  · dsimp only
    omega
  · omega

theorem time_afterLast_bounds (hprev : ∀ g ∈ prev, g.rule.save.natAbs ≤ bound) :
    f.time - bound ≤ (f.afterLast prev).time ∧ (f.afterLast prev).time ≤ f.time + bound := by
  cases prev with
  | none =>
    show f.time - bound ≤ f.time ∧ f.time ≤ f.time + bound
    omega
  | some g => exact time_after_bounds (hprev g rfl)

theorem exists_near_of_mem_chain (hsave : ∀ f ∈ fs, f.rule.save.natAbs ≤ bound)
    (hg : g ∈ chain fs) : ∃ f ∈ fs, f.time - bound ≤ g.time ∧ g.time ≤ f.time + bound := by
  obtain ⟨f, hf, rfl | ⟨prev, hprev, rfl⟩⟩ := exists_after_of_mem_chain hg
  · exact ⟨g, hf, by omega⟩
  · exact ⟨f, hf, time_after_bounds (hsave prev hprev)⟩

/-- The last of firings far apart is the latest of them, and it still is when they are chained. -/
theorem map_latestBefore_chain
    (hfar : fs.Pairwise fun (f g : Firing) => f.time + 2 * bound < g.time)
    (hsave : ∀ f ∈ fs, f.rule.save.natAbs ≤ bound) (hbefore : ∀ f ∈ fs, f.time + bound < start) :
    latestBefore start fs = fs.getLast? ∧
      (latestBefore start (chain fs)).map (·.rule) = fs.getLast?.map (·.rule) := by
  rcases List.eq_nil_or_concat fs with rfl | ⟨fs, p, rfl⟩
  · exact ⟨rfl, rfl⟩
  · rw [List.concat_eq_append] at *
    obtain ⟨hfs, -, hp⟩ := List.pairwise_append.1 hfar
    have hp' : p.time - bound ≤ (p.afterLast fs.getLast?).time ∧
        (p.afterLast fs.getLast?).time ≤ p.time + bound :=
      time_afterLast_bounds fun g hg =>
        hsave g (List.mem_append_left _ (List.mem_of_getLast? hg))
    have hstart := hbefore p (by simp)
    have hlatest : latestBefore start (fs ++ [p]) = some p := by
      refine latestBefore_concat_of_lt (by omega) ?_
      intro g hg
      have := hp g hg p (by simp)
      omega
    have hmoved : latestBefore start (chain (fs ++ [p])) = some (p.afterLast fs.getLast?) := by
      rw [chain_append]
      refine latestBefore_concat_of_lt (by omega) ?_
      intro g hg
      obtain ⟨f, hf, -, hle⟩ := exists_near_of_mem_chain
        (fun f hf => hsave f (List.mem_append_left _ hf)) hg
      have := hp f hf p (by simp)
      omega
    rw [hlatest, hmoved, List.getLast?_append]
    exact ⟨rfl, congrArg some (p.movesTo_afterLast _).rule_eq⟩

/-- **The firings about the start of a line**, if one is put there and all are far apart: it is
taken after the latest before, and all others stay on their side of the start. -/
theorem FireFarApart.exists_firings (hapart : FireFarApart rules line h w bound)
    (hx : x ∈ candidates rules line h w) (hstart : x.time = h.start) :
    ∃ before after, firings rules line h w =
        before ++ x.afterLast (latestBefore h.start (candidates rules line h w)) :: after ∧
      (∀ f ∈ before, f.time < h.start - bound) ∧ (∀ f ∈ after, h.start < f.time) ∧
      (latestBefore h.start before).map (·.rule) =
        (latestBefore h.start (candidates rules line h w)).map (·.rule) := by
  obtain ⟨before, after, hsorted⟩ := List.append_of_mem (sortedCandidates_perm.mem_iff.2 hx)
  have hfar := hapart.pairwise_sorted
  have hsave (f : Firing) (hf : f ∈ before ++ x :: after) : f.rule.save.natAbs ≤ bound :=
    hapart.natAbs_save_le_of_mem (sortedCandidates_perm.subset (hsorted ▸ hf))
  have hnodup : ((sortedCandidates rules line h w).map Firing.time).Nodup :=
    List.pairwise_map.2 (hfar.imp fun hlt => by omega)
  rw [hsorted, List.pairwise_append, List.pairwise_cons] at hfar
  obtain ⟨hbefore, ⟨hafter, -⟩, hcross⟩ := hfar
  have hearlier (f : Firing) (hf : f ∈ before) : f.time + 2 * bound < h.start :=
    hstart ▸ hcross f hf x List.mem_cons_self
  have hbound (f : Firing) (hf : f ∈ before) : f.time + bound < h.start := by
    have := hearlier f hf
    omega
  obtain ⟨hlast, hchained⟩ := map_latestBefore_chain hbefore
    (fun f hf => hsave f (List.mem_append_left _ hf)) hbound
  have hlater (f : Firing) (hf : f ∈ after) : h.start + 2 * bound < f.time :=
    hstart ▸ hafter f hf
  have hlatest : latestBefore h.start (candidates rules line h w) = before.getLast? := by
    rw [← latestBefore_perm sortedCandidates_perm hnodup, hsorted, latestBefore_append, hlast]
    intro g hg
    rcases List.mem_cons.1 hg with rfl | hg
    · exact Int.le_of_eq hstart.symm
    · have := hlater g hg
      omega
  refine ⟨chain before, List.zipWith Firing.after (x :: after) after, ?_, ?_, ?_, ?_⟩
  · rw [hlatest, ← chain_append, ← hsorted]
    rfl
  · intro g hg
    obtain ⟨f, hf, -, hle⟩ := exists_near_of_mem_chain
      (fun f hf => hsave f (List.mem_append_left _ hf)) hg
    have := hearlier f hf
    omega
  · intro g hg
    obtain ⟨prev, hprev, f, hf, rfl⟩ := exists_of_mem_zipWith_after hg
    have := hlater f hf
    have := (time_after_bounds (f := f) (hsave prev (List.mem_append_right _ hprev))).1
    omega
  · rw [hlatest]
    exact hchained

/-! ## Amounts at the start -/

/-- What clocks are ahead of standard time at the start of a line: what the rules save that fire
there within the line, or if none does, the rule that fired latest before. -/
def amountsAtStart (rules : List Rule) (line : ZoneLine) (h : Handover) (w : Window) : List Int :=
  match (insideFirings rules line h w).filter (·.time = h.start) with
  | [] => [(latestBefore h.start (outsideFirings rules line h w)).elim 0 (·.rule.save)]
  | fs => fs.map (·.rule.save)

theorem amountsAtStart_ne_nil : amountsAtStart rules line h w ≠ [] := by
  unfold amountsAtStart
  split
  · exact List.cons_ne_nil _ _
  · rename_i hne
    simpa using hne

/-- All amounts at the start are one if it is what every rule saves that fires there within the
line, or if none does, the rule that fired latest before. -/
theorem forall_amountsAtStart_iff : (∀ a ∈ amountsAtStart rules line h w, a = amount) ↔
    (∀ f ∈ insideFirings rules line h w, f.time = h.start → f.rule.save = amount) ∧
      ((∀ f ∈ insideFirings rules line h w, f.time ≠ h.start) →
        (latestBefore h.start (outsideFirings rules line h w)).elim 0 (·.rule.save) = amount) := by
  unfold amountsAtStart
  split
  · rename_i hnone
    have hstart : ∀ f ∈ insideFirings rules line h w, f.time ≠ h.start := by
      simpa [List.filter_eq_nil_iff] using hnone
    rw [List.forall_mem_singleton, and_iff_right fun f hf heq => absurd heq (hstart f hf),
      forall_prop_of_true hstart]
  · rename_i hne
    have hsome : ¬ ∀ f ∈ insideFirings rules line h w, f.time ≠ h.start := by
      simpa [List.filter_eq_nil_iff] using hne
    rw [and_iff_left fun hall => absurd hall hsome, List.forall_mem_map]
    simp only [List.mem_filter, decide_eq_true_eq, and_imp]

theorem openingChange_save (start : Int) (inside outside : List Firing) :
    (openingChange start inside outside).save =
      (latestBefore start outside).elim 0 (·.rule.save) := by
  unfold openingChange
  split
  · rename_i f hf
    rw [hf]
    rfl
  · rename_i hnone
    rw [hnone]
    rfl

theorem mem_amountsAtStart_iff : amount ∈ amountsAtStart rules line h w ↔
    ∃ c ∈ ruledChanges rules line h w, c.time = h.start ∧ c.save = amount := by
  have hfiring : (∃ c ∈ (insideFirings rules line h w).map Firing.change,
      c.time = h.start ∧ c.save = amount) ↔
      amount ∈ ((insideFirings rules line h w).filter (·.time = h.start)).map (·.rule.save) := by
    simp [Firing.change, and_assoc]
  unfold amountsAtStart
  split
  · rename_i hnone
    rw [hnone] at hfiring
    have hno : ¬ ∃ c ∈ (insideFirings rules line h w).map Firing.change,
        c.time = h.start ∧ c.save = amount := by simpa using hfiring
    have hstart : ∀ f ∈ insideFirings rules line h w, f.time ≠ h.start := by
      simpa [List.filter_eq_nil_iff] using hnone
    rw [ruledChanges_eq_cons hstart]
    simp only [List.mem_cons, List.not_mem_nil, or_false, exists_eq_or_imp, openingChange_time,
      openingChange_save, true_and, or_iff_left hno]
    exact eq_comm
  · rename_i hne
    have hany : (insideFirings rules line h w).any (·.time == h.start) = true := by
      obtain ⟨f, hf⟩ := List.exists_mem_of_ne_nil _ hne
      obtain ⟨hmem, htime⟩ := List.mem_filter.1 hf
      exact List.any_eq_true.2 ⟨f, hmem, beq_iff_eq.2 (of_decide_eq_true htime)⟩
    rw [ruledChanges_eq, opening, if_pos hany, List.nil_append]
    exact hfiring.symm

/-- From the start of a segment clocks are an amount ahead of standard time: it has a transition
there, and none by another amount. -/
structure Segment.StartsAhead (s : Segment) (amount : Int) : Prop where
  exists_start : ∃ u ∈ s.transitions, u.time = s.start ∧ u.dstOffset = amount
  eq_of_start : ∀ u ∈ s.transitions, u.time = s.start → u.dstOffset = amount

instance (s : Segment) (amount : Int) : Decidable (s.StartsAhead amount) :=
  decidable_of_iff ((∃ u ∈ s.transitions, u.time = s.start ∧ u.dstOffset = amount) ∧
      ∀ u ∈ s.transitions, u.time = s.start → u.dstOffset = amount)
    ⟨fun ⟨h1, h2⟩ => ⟨h1, h2⟩, fun ⟨h1, h2⟩ => ⟨h1, h2⟩⟩

theorem startsAhead_ruledSegment_iff : (ruledSegment rules line h w).StartsAhead amount ↔
    ∀ a ∈ amountsAtStart rules line h w, a = amount := by
  have hmem (a : Int) : (∃ u ∈ (ruledSegment rules line h w).transitions,
      u.time = h.start ∧ u.dstOffset = a) ↔ a ∈ amountsAtStart rules line h w := by
    rw [mem_amountsAtStart_iff]
    show (∃ u ∈ (ruledChanges rules line h w).map (·.transition line), _) ↔ _
    simp [Change.transition]
  constructor
  · intro hahead a ha
    obtain ⟨u, hu, htime, rfl⟩ := (hmem a).2 ha
    exact hahead.eq_of_start u hu htime
  · intro hall
    obtain ⟨a, ha⟩ := List.exists_mem_of_ne_nil _ amountsAtStart_ne_nil
    exact ⟨(hmem amount).2 (hall a ha ▸ ha),
      fun u hu htime => hall _ ((hmem u.dstOffset).1 ⟨u, hu, htime, rfl⟩)⟩

theorem split_append (hbefore : ∀ f ∈ before, f.time < h.start) :
    split line h w prev (before ++ after) =
      ((split line h w prev after).1, before ++ (split line h w prev after).2) := by
  induction before with
  | nil => rfl
  | cons f before ih =>
    obtain ⟨hf, hbefore⟩ := List.forall_mem_cons.1 hbefore
    have hnot : isWithin line h w prev f = false := by
      rw [Bool.eq_false_iff, Ne, isWithin_iff]
      omega
    rw [List.cons_append, split, hnot, ih hbefore]
    rfl

theorem mem_split_of_forall (hf : f ∈ fs) (hwithin : ∀ prev, isWithin line h w prev f = true) :
    f ∈ (split line h w prev fs).1 := by
  induction fs generalizing prev with
  | nil => cases hf
  | cons g fs ih =>
    rw [split_cons_fst]
    rcases List.mem_cons.1 hf with rfl | hf
    · rw [if_pos (hwithin prev)]
      exact List.mem_cons_self
    · split
      · exact List.mem_cons_of_mem _ (ih hf)
      · exact ih hf

/-- **A rule that is not on the wall clock fires at the start** if it falls on it. What counts is
then all that fires there, if the line does not end on the wall clock either. -/
theorem forall_amountsAtStart_iff_of_ne_wall (hr : (r, year) ∈ occurrencesAtStart rules line h w)
    (hwall : r.clock ≠ .wall) (hclock : line.endingClock ≠ .wall) (hending : h.start < line.ending)
    (hmin : HasBegun w.minYear h.start) (hmax : localYear h.start 0 ≤ w.maxYear) :
    (∀ a ∈ amountsAtStart rules line h w, a = amount) ↔
      ∀ f ∈ firings rules line h w, f.time = h.start → f.rule.save = amount := by
  have hinside (f : Firing) (hf : f ∈ firings rules line h w) (hstart : f.time = h.start) :
      f ∈ insideFirings rules line h w := by
    refine mem_split_of_forall hf fun prev => ?_
    have hahead : aheadAfter line prev = 0 := by
      cases prev with
      | none => rfl
      | some g => exact if_neg hclock
    rw [isWithin_iff, hahead, hstart, Int.sub_zero]
    exact ⟨Int.le_refl _, hending, hmin, hmax⟩
  obtain ⟨g, hg, hmoves⟩ :=
    exists_mem_chain_of_mem (sortedCandidates_perm.mem_iff.2 (mem_candidates_of_mem_atStart hr))
  have hfires : ¬ ∀ f ∈ insideFirings rules line h w, f.time ≠ h.start :=
    fun hall => hall g (hinside g hg (hmoves.time_eq hwall)) (hmoves.time_eq hwall)
  rw [forall_amountsAtStart_iff, and_iff_left fun hall => absurd hall hfires]
  exact ⟨fun hall f hf hstart => hall f (hinside f hf hstart) hstart,
    fun hall f hf => hall f (insideFirings_sublist.subset hf)⟩

theorem amountsAtStart_of_none (hfirings : firings rules line h w = before ++ after)
    (hbefore : ∀ f ∈ before, f.time < h.start) (hafter : ∀ f ∈ after, h.start < f.time) :
    amountsAtStart rules line h w = [(latestBefore h.start before).elim 0 (·.rule.save)] := by
  have hsublist : (split line h w none after).1.Sublist after ∧
      (split line h w none after).2.Sublist after := split_sublist none after
  have hnone : (insideFirings rules line h w).filter (·.time = h.start) = [] := by
    rw [insideFirings, hfirings, split_append hbefore, List.filter_eq_nil_iff]
    intro f hf
    have := hafter f (hsublist.1.subset hf)
    simp only [decide_eq_true_eq]
    omega
  rw [amountsAtStart, hnone, outsideFirings, hfirings, split_append hbefore, latestBefore_append]
  intro f hf
  exact Int.le_of_lt (hafter f (hsublist.2.subset hf))

theorem amountsAtStart_of_fires (hfirings : firings rules line h w = before ++ x :: after)
    (hbefore : ∀ f ∈ before, f.time < h.start) (hafter : ∀ f ∈ after, h.start < f.time)
    (hx : x.time = h.start) (hending : h.start < line.ending) (hmin : HasBegun w.minYear h.start)
    (hmax : localYear h.start 0 ≤ w.maxYear) :
    amountsAtStart rules line h w = [x.rule.save] := by
  have hwithin : isWithin line h w none x = true := by
    rw [isWithin_iff, hx]
    exact ⟨Int.le_refl _, by simpa [aheadAfter] using hending, hmin, hmax⟩
  have hone : (insideFirings rules line h w).filter (·.time = h.start) = [x] := by
    rw [insideFirings, hfirings, split_append hbefore, split_cons_fst, if_pos hwithin,
      List.filter_cons_of_pos (by simpa using hx), List.cons_inj_right, List.filter_eq_nil_iff]
    intro f hf
    have := hafter f ((split_sublist _ after).1.subset hf)
    simp only [decide_eq_true_eq]
    omega
  rw [amountsAtStart, hone]
  rfl

/-! ## A rule that fires at the start -/

/-- What clocks are ahead at the start of a line at which a rule fires, after a firing before the
start: a rule on the wall clock does not come into effect there if clocks are behind. -/
def amountAfter (prev : Option Firing) (r : Rule) : Int :=
  prev.elim r.save fun f => if r.clock = .wall ∧ f.rule.save < 0 then f.rule.save else r.save

theorem FireFarApart.amountsAtStart_eq (hapart : FireFarApart rules line h w bound)
    (hr : (r, year) ∈ occurrencesAtStart rules line h w) (hending : h.start < line.ending)
    (hmin : HasBegun w.minYear h.start) (hmax : localYear h.start 0 ≤ w.maxYear) :
    amountsAtStart rules line h w =
      [amountAfter (latestBefore h.start (candidates rules line h w)) r] := by
  obtain ⟨before, after, hfirings, hbefore, hafter, hlatest⟩ :=
    hapart.exists_firings (mem_candidates_of_mem_atStart hr) rfl
  have hsave : ∀ f ∈ latestBefore h.start (candidates rules line h w),
      f.rule.save.natAbs ≤ bound :=
    fun f hf => hapart.natAbs_save_le_of_mem (mem_of_latestBefore hf)
  have hearlier (f : Firing) (hf : f ∈ before) : f.time < h.start := by
    have := hbefore f hf
    omega
  generalize latestBefore h.start (candidates rules line h w) = prev at hfirings hlatest hsave ⊢
  have hrule : (Firing.afterLast prev ⟨h.start, r⟩).rule = r :=
    (Firing.movesTo_afterLast prev _).rule_eq
  have hfires (htime : (Firing.afterLast prev ⟨h.start, r⟩).time = h.start) :
      amountsAtStart rules line h w = [r.save] := by
    rw [amountsAtStart_of_fires hfirings hearlier hafter htime hending hmin hmax, hrule]
  cases prev with
  | none => exact hfires rfl
  | some f =>
    by_cases hwall : r.clock = .wall
    · have htime : (Firing.afterLast (some f) ⟨h.start, r⟩).time = h.start - f.rule.save := by
        show (f.after _).time = _
        rw [Firing.after, if_pos hwall]
      rcases Int.lt_trichotomy f.rule.save 0 with hneg | hzero | hpos
      · -- the rule fires after the start
        rw [amountsAtStart_of_none hfirings hearlier
          (List.forall_mem_cons.2 ⟨by omega, hafter⟩)]
        obtain ⟨g, hg, hgrule⟩ := Option.map_eq_some_iff.1 hlatest
        rw [hg]
        simp [amountAfter, hwall, hneg, hgrule]
      · rw [hfires (by omega)]
        simp [amountAfter, hzero]
      · -- the rule fires before the start, and no other after it
        have hbound : f.rule.save.natAbs ≤ bound := hsave f rfl
        rw [List.append_cons] at hfirings
        have hlast : latestBefore h.start (before ++ [Firing.afterLast (some f) ⟨h.start, r⟩]) =
            some (Firing.afterLast (some f) ⟨h.start, r⟩) := by
          refine latestBefore_concat_of_lt (by omega) ?_
          intro g hg
          have := hbefore g hg
          omega
        rw [amountsAtStart_of_none hfirings _ hafter, hlast]
        · simp [amountAfter, hrule, Int.not_lt.2 (Int.le_of_lt hpos)]
        · intro g hg
          rcases List.mem_append.1 hg with hg | hg
          · exact hearlier g hg
          · rw [List.mem_singleton.1 hg]
            omega
    · rw [hfires (by rw [Firing.afterLast, Option.elim, Firing.after, if_neg hwall])]
      simp [amountAfter, hwall]

end ZoneTables.Replay
