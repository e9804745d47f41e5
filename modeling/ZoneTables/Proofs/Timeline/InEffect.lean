import ZoneTables.Proofs.Calendar.Date
import ZoneTables.Proofs.Timeline.Basic

/-!
# What is in effect at an instant

`inEffect` looks up the transition in effect at an instant, `settingAt` how clocks are set by it,
and `offsetsAt` its offsets. Duplicates make no difference if a list is in strict order
(`settingAt_removeDuplicates`). Neither does trimming the start once all transitions to standard
time before the years have come (`offsetsAt_trimStart`), nor trimming the end up to an instant at
which standard time is in effect within the years (`inEffect_trimEnding`).
-/

namespace ZoneTables

variable {ts as bs : List Transition} {t u v prev : Transition} {x minYear maxYear : Int}

/-- The transition in effect at an instant: the last of a list that does not come later. -/
def inEffect (instant : Int) (ts : List Transition) : Option Transition :=
  (ts.filter (·.time ≤ instant)).getLast?

/-- How clocks are set by a transition: the offset from UTC, how much of it is daylight saving, and
the abbreviation. -/
def Transition.setting (t : Transition) : Int × Int × Option String :=
  (t.utcOffset, t.dstOffset, t.name)

/-- How clocks are set at an instant. -/
def settingAt (instant : Int) (ts : List Transition) : Option (Int × Int × Option String) :=
  (inEffect instant ts).map Transition.setting

/-- The offsets in effect at an instant: that from UTC, and how much of it is daylight saving. -/
def offsetsAt (instant : Int) (ts : List Transition) : Option (Int × Int) :=
  (inEffect instant ts).map fun u => (u.utcOffset, u.dstOffset)

theorem inEffect_append (x : Int) (as bs : List Transition) :
    inEffect x (as ++ bs) = (inEffect x bs).or (inEffect x as) := by
  rw [inEffect, List.filter_append, List.getLast?_append]
  rfl

theorem inEffect_eq_none_iff : inEffect x ts = none ↔ ∀ u ∈ ts, x < u.time := by
  rw [inEffect, List.getLast?_eq_none_iff, List.filter_eq_nil_iff]
  simp only [decide_eq_true_eq, Int.not_le]

theorem map_inEffect_append {α : Type} (f : Transition → α) (x : Int) (as bs : List Transition) :
    (inEffect x (as ++ bs)).map f = ((inEffect x bs).map f).or ((inEffect x as).map f) := by
  rw [inEffect_append, Option.map_or]

theorem settingAt_cons (x : Int) (t : Transition) (ts : List Transition) :
    settingAt x (t :: ts) = (settingAt x ts).or (settingAt x [t]) :=
  map_inEffect_append Transition.setting x [t] ts

theorem offsetsAt_append (x : Int) (as bs : List Transition) :
    offsetsAt x (as ++ bs) = (offsetsAt x bs).or (offsetsAt x as) :=
  map_inEffect_append _ x as bs

theorem settingAt_eq_none_iff : settingAt x ts = none ↔ ∀ u ∈ ts, x < u.time := by
  rw [settingAt, Option.map_eq_none_iff, inEffect_eq_none_iff]

theorem offsetsAt_eq_none_iff : offsetsAt x ts = none ↔ ∀ u ∈ ts, x < u.time := by
  rw [offsetsAt, Option.map_eq_none_iff, inEffect_eq_none_iff]

theorem inEffect_append_of_lt (h : ∀ u ∈ bs, x < u.time) :
    inEffect x (as ++ bs) = inEffect x as := by
  rw [inEffect_append, inEffect_eq_none_iff.2 h]
  rfl

theorem inEffect_singleton (h : t.time ≤ x) : inEffect x [t] = some t := by
  simp [inEffect, h]

theorem inEffect_append_cons (hle : u.time ≤ x) (h : ∀ v ∈ bs, x < v.time) :
    inEffect x (as ++ u :: bs) = some u := by
  rw [List.append_cons, inEffect_append_of_lt h, inEffect_append, inEffect_singleton hle]
  rfl

theorem exists_append_of_inEffect (hts : ts.Pairwise fun u v => u.time < v.time)
    (h : inEffect x ts = some u) :
    ∃ as bs, ts = as ++ u :: bs ∧ u.time ≤ x ∧ ∀ v ∈ bs, x < v.time := by
  induction ts with
  | nil => cases h
  | cons t ts ih =>
    obtain ⟨hhead, htail⟩ := List.pairwise_cons.1 hts
    rw [← List.singleton_append, inEffect_append, Option.or_eq_some_iff] at h
    rcases h with h | ⟨hnone, h⟩
    · obtain ⟨as, bs, rfl, hle, hbs⟩ := ih htail h
      exact ⟨t :: as, bs, rfl, hle, hbs⟩
    · have hmem := List.mem_of_getLast? h
      obtain ⟨hut, hle⟩ := List.mem_filter.1 hmem
      obtain rfl := List.mem_singleton.1 hut
      exact ⟨[], ts, rfl, of_decide_eq_true hle, inEffect_eq_none_iff.1 hnone⟩

/-! ## Duplicates -/

theorem Transition.repeats_iff :
    t.repeats prev = true ↔ t.time = prev.time ∨ t.setting = prev.setting := by
  simp [repeats, setting, and_assoc]

theorem settingAt_cons_of_eq (hlt : prev.time < t.time) (heq : t.setting = prev.setting) :
    settingAt x (prev :: t :: ts) = settingAt x (prev :: ts) := by
  have hpair : (settingAt x [t]).or (settingAt x [prev]) = settingAt x [prev] := by
    by_cases hx : t.time ≤ x
    · rw [settingAt, settingAt, inEffect_singleton hx, inEffect_singleton (by omega)]
      simp [heq]
    · rw [settingAt_eq_none_iff.2 (by simpa using hx)]
      rfl
  rw [settingAt_cons, settingAt_cons x t, Option.or_assoc, hpair, ← settingAt_cons]

theorem settingAt_dropRepeats (hts : (prev :: ts).Pairwise fun u v => u.time < v.time) :
    settingAt x (prev :: dropRepeats prev ts) = settingAt x (prev :: ts) := by
  induction ts generalizing prev with
  | nil => rfl
  | cons t ts ih =>
    obtain ⟨hprev, htail⟩ := List.pairwise_cons.1 hts
    have hlt := hprev t List.mem_cons_self
    rw [dropRepeats]
    split
    · rename_i hrepeats
      have hskip : (prev :: ts).Pairwise fun u v => u.time < v.time :=
        hts.sublist ((List.sublist_cons_self t ts).cons_cons prev)
      have heq := (Transition.repeats_iff.1 hrepeats).resolve_left (by omega)
      rw [ih hskip, settingAt_cons_of_eq hlt heq]
    · rw [settingAt_cons, ih htail, ← settingAt_cons]

/-- **Duplicates make no difference** to how clocks are set, in a list in strict order. -/
theorem settingAt_removeDuplicates (hts : ts.Pairwise fun u v => u.time < v.time) :
    settingAt x (removeDuplicates ts) = settingAt x ts := by
  cases ts with
  | nil => rfl
  | cons t ts => exact settingAt_dropRepeats hts

theorem offsetsAt_eq_map (x : Int) (ts : List Transition) :
    offsetsAt x ts = (settingAt x ts).map fun s => (s.1, s.2.1) := by
  rw [settingAt, Option.map_map]
  rfl

theorem offsetsAt_removeDuplicates (hts : ts.Pairwise fun u v => u.time < v.time) :
    offsetsAt x (removeDuplicates ts) = offsetsAt x ts := by
  rw [offsetsAt_eq_map, settingAt_removeDuplicates hts, ← offsetsAt_eq_map]

/-! ## Trimming -/

/-- A transition that has come can be put at the beginning of time, and what comes before it be left
out. -/
theorem settingAt_moved (before after : List Transition) (hbegin : beginningOfTime ≤ x)
    (ht : t.time ≤ x) :
    settingAt x ({ t with time := beginningOfTime } :: after) =
      settingAt x (before ++ t :: after) := by
  have hmoved : settingAt x [{ t with time := beginningOfTime }] = some t.setting := by
    rw [settingAt, inEffect_singleton hbegin]
    rfl
  have hfound : settingAt x (before ++ [t]) = some t.setting := by
    rw [settingAt, inEffect_append_cons ht fun _ hv => absurd hv List.not_mem_nil]
    rfl
  calc settingAt x ({ t with time := beginningOfTime } :: after)
      = (settingAt x after).or (settingAt x (before ++ [t])) := by
        rw [settingAt_cons, hmoved, hfound]
    _ = settingAt x (before ++ [t] ++ after) := (map_inEffect_append _ x _ _).symm
    _ = settingAt x (before ++ t :: after) := by rw [← List.append_cons]

/-- All transitions to standard time that their own clocks show before a year have come. -/
def HaveOpened (minYear x : Int) (ts : List Transition) : Prop :=
  ∀ u ∈ ts, u.dstOffset = 0 → u.yearAfter < minYear → u.time ≤ x

instance (minYear x : Int) (ts : List Transition) : Decidable (HaveOpened minYear x ts) :=
  inferInstanceAs (Decidable (∀ u ∈ ts, u.dstOffset = 0 → u.yearAfter < minYear → u.time ≤ x))

theorem HaveOpened.mono (h : HaveOpened minYear x ts) {y : Int} (hxy : x ≤ y) :
    HaveOpened minYear y ts :=
  fun u hu hdst hyear => Int.le_trans (h u hu hdst hyear) hxy

/-- **Trimming the start makes no difference** once all transitions before the years have come. -/
theorem offsetsAt_trimStart (hbegin : beginningOfTime ≤ x) (hopened : HaveOpened minYear x ts) :
    offsetsAt x (trimStart minYear ts) = offsetsAt x ts := by
  rcases trimStart_cases minYear ts with heq | ⟨before, t, after, rfl, htrim, hdst, hfront⟩
  · rw [heq]
  · have ht : t.time ≤ x := by
      rcases hfront t (by simp) with hbeginning | hyear
      · omega
      · exact hopened t (by simp) hdst hyear
    rw [htrim, offsetsAt_eq_map, offsetsAt_eq_map, settingAt_moved before after hbegin ht]

/-- What is taken off the end of a list comes after a transition that stays, unless it is at the
beginning of time. -/
theorem mem_or_eq_of_mem_after {before after : List Transition}
    (hts : (as ++ u :: bs).Pairwise fun u v => u.time < v.time)
    (hbegin : ∀ v ∈ as, beginningOfTime ≤ v.time) (hsplit : as ++ u :: bs = before ++ after)
    (hafter : ∀ v ∈ after, v.time = beginningOfTime ∨ v.dstOffset ≠ 0 ∨ maxYear < v.year)
    (hstays : u.time = beginningOfTime ∨ u.dstOffset = 0 ∧ u.year ≤ maxYear) (hv : v ∈ after) :
    v ∈ bs ∨ v.time = beginningOfTime := by
  by_cases hne : u.time = beginningOfTime
  · have hmem : v ∈ as ++ u :: bs := by
      rw [hsplit]
      exact List.mem_append_right _ hv
    rcases List.mem_append.1 hmem with has | hmem
    · have hlt := (List.pairwise_append.1 hts).2.2 v has u List.mem_cons_self
      have := hbegin v has
      omega
    · rcases List.mem_cons.1 hmem with rfl | hlater
      · exact Or.inr hne
      · exact Or.inl hlater
  · -- the transition in effect is not taken off
    obtain ⟨ms, -, rfl⟩ := append_cons_of_forall_right hsplit hafter (by omega)
    exact Or.inl (List.mem_append_right _ hv)

/-- **Trimming the end makes no difference** up to an instant at which a transition is in effect
that stays: standard time within the years, or one at the beginning of time. -/
theorem inEffect_trimEnding {last : Int} (hts : ts.Pairwise fun u v => u.time < v.time)
    (hbegin : ∀ u ∈ ts, beginningOfTime ≤ u.time) (hu : inEffect last ts = some u)
    (hstays : u.time = beginningOfTime ∨ u.dstOffset = 0 ∧ u.year ≤ maxYear) (hx : x ≤ last) :
    inEffect x (trimEnding maxYear ts) = inEffect x ts := by
  obtain ⟨before, after, hsplit, htrim, hafter⟩ := trimEnding_cases maxYear ts
  obtain ⟨as, bs, rfl, -, hbs⟩ := exists_append_of_inEffect hts hu
  have hfilter : (after.filter (·.time = beginningOfTime)).filter (·.time ≤ x) =
      after.filter (·.time ≤ x) := by
    rw [List.filter_filter]
    refine List.filter_congr fun v hv => ?_
    rcases mem_or_eq_of_mem_after hts (fun v hv => hbegin v (by simp [hv])) hsplit hafter hstays hv
      with hlater | heq
    · have := hbs v hlater
      simp [show ¬ v.time ≤ x by omega]
    · simp [heq]
  rw [htrim, hsplit, inEffect, inEffect, List.filter_append, hfilter, List.filter_append]

theorem head?_trimLatest (h : (trimLatest maxYear ts).head? = some u) :
    u.time = beginningOfTime ∨ u.dstOffset = 0 ∧ u.year ≤ maxYear := by
  induction ts with
  | nil => cases h
  | cons t ts ih =>
    rw [trimLatest] at h
    split at h
    · rename_i hbegin
      obtain rfl := Option.some.inj h
      exact Or.inl hbegin
    · split at h
      · exact ih h
      · rename_i hkept
        obtain rfl := Option.some.inj h
        exact Or.inr (by omega)

theorem getLast?_trimEnding (h : (trimEnding maxYear ts).getLast? = some u) :
    u.time = beginningOfTime ∨ u.dstOffset = 0 ∧ u.year ≤ maxYear := by
  rw [trimEnding, List.getLast?_reverse] at h
  exact head?_trimLatest h

theorem inEffect_of_getLast?_trimEnding (hts : ts.Pairwise fun u v => u.time < v.time)
    (h : (trimEnding maxYear ts).getLast? = some u) (hne : u.time ≠ beginningOfTime) :
    inEffect u.time ts = some u := by
  obtain ⟨before, after, rfl, htrim, -⟩ := trimEnding_cases maxYear ts
  rw [htrim, List.getLast?_append, Option.or_eq_some_iff] at h
  rcases h with h | ⟨-, h⟩
  · have hmem := (List.mem_filter.1 (List.mem_of_getLast? h)).2
    exact absurd (by simpa using hmem) hne
  · obtain ⟨front, rfl⟩ := List.getLast?_eq_some_iff.1 h
    rw [List.pairwise_append] at hts
    have hlater : ∀ v ∈ after, u.time < v.time := fun v hv => hts.2.2 u (by simp) v hv
    rw [List.append_assoc, List.singleton_append]
    exact inEffect_append_cons (Int.le_refl _) hlater

/-! ## A list within years -/

/-- The start that is left of a list in order, from the beginning of time on, is such a list. -/
theorem trimStart_removeDuplicates (minYear : Int) (hts : ts.Pairwise fun u v => u.time < v.time)
    (hbegin : ∀ u ∈ ts, beginningOfTime ≤ u.time) :
    (trimStart minYear (removeDuplicates ts)).Pairwise (fun u v => u.time < v.time) ∧
      ∀ u ∈ trimStart minYear (removeDuplicates ts), beginningOfTime ≤ u.time := by
  have hsorted := hts.sublist (removeDuplicates_sublist ts)
  have hbegin : ∀ u ∈ removeDuplicates ts, beginningOfTime ≤ u.time :=
    fun u hu => hbegin u ((removeDuplicates_sublist ts).subset hu)
  rcases trimStart_cases minYear (removeDuplicates ts) with heq | ⟨before, t, after, hds, htrim, -⟩
  · rw [heq]
    exact ⟨hsorted, hbegin⟩
  · rw [hds] at hsorted hbegin
    rw [htrim]
    obtain ⟨hhead, htail⟩ := List.pairwise_cons.1 (List.pairwise_append.1 hsorted).2.1
    have ht := hbegin t (by simp)
    refine ⟨List.pairwise_cons.2 ⟨fun u hu => ?_, htail⟩, List.forall_mem_cons.2 ⟨?_, ?_⟩⟩
    · exact Int.lt_of_le_of_lt ht (hhead u hu)
    · exact Int.le_refl _
    · intro u hu
      exact hbegin u (by simp [hu])

theorem offsetsAt_trimStart_removeDuplicates (hts : ts.Pairwise fun u v => u.time < v.time)
    (hx : beginningOfTime ≤ x) (hopened : HaveOpened minYear x ts) :
    offsetsAt x (trimStart minYear (removeDuplicates ts)) = offsetsAt x ts := by
  rw [offsetsAt_trimStart hx fun u hu => hopened u ((removeDuplicates_sublist ts).subset hu),
    offsetsAt_removeDuplicates hts]

/-- **A list within years has the same offsets** from the last transition before them on, up to an
instant at which standard time is in effect within them. -/
theorem offsetsAt_trimYears {last offset : Int} (hts : ts.Pairwise fun u v => u.time < v.time)
    (hbegin : ∀ u ∈ ts, beginningOfTime ≤ u.time) (hx : beginningOfTime ≤ x)
    (hopened : HaveOpened minYear x ts) (hlast : offsetsAt last ts = some (offset, 0))
    (hyear : localYear last offset ≤ maxYear) (hle : x ≤ last) :
    offsetsAt x (trimYears (some minYear) maxYear (removeDuplicates ts)) = offsetsAt x ts := by
  obtain ⟨hsorted, hstart⟩ := trimStart_removeDuplicates minYear hts hbegin
  rw [← offsetsAt_trimStart_removeDuplicates hts (Int.le_trans hx hle) (hopened.mono hle)] at hlast
  obtain ⟨v, hv, hoffsets⟩ := Option.map_eq_some_iff.1 hlast
  obtain ⟨rfl, hdst⟩ := Prod.mk.inj hoffsets
  have hvyear : v.year ≤ maxYear := by
    obtain ⟨-, -, -, hvle, -⟩ := exists_append_of_inEffect hsorted hv
    exact Int.le_trans (localYear_mono hvle _) hyear
  rw [← offsetsAt_trimStart_removeDuplicates hts hx hopened, offsetsAt, offsetsAt, trimYears,
    inEffect_trimEnding hsorted hstart hv (Or.inr ⟨hdst, hvyear⟩) hle]

theorem offsetsAt_trimYears_beginning (hts : ts.Pairwise fun u v => u.time < v.time)
    (hbegin : ∀ u ∈ ts, beginningOfTime ≤ u.time)
    (hopened : HaveOpened minYear beginningOfTime ts) (hu : u ∈ ts)
    (hfirst : u.time ≤ beginningOfTime) :
    offsetsAt beginningOfTime (trimYears (some minYear) maxYear (removeDuplicates ts)) =
      offsetsAt beginningOfTime ts := by
  obtain ⟨hsorted, hstart⟩ := trimStart_removeDuplicates minYear hts hbegin
  have hsame := offsetsAt_trimStart_removeDuplicates hts (Int.le_refl _) hopened
  cases heffect : inEffect beginningOfTime (trimStart minYear (removeDuplicates ts)) with
  | none =>
    rw [offsetsAt, heffect] at hsame
    exact absurd (offsetsAt_eq_none_iff.1 hsame.symm u hu) (Int.not_lt.2 hfirst)
  | some v =>
    have hmem := List.mem_filter.1 (List.mem_of_getLast? heffect)
    have hv := hstart v hmem.1
    have htime : v.time = beginningOfTime := Int.le_antisymm (of_decide_eq_true hmem.2) hv
    rw [← hsame, offsetsAt, offsetsAt, trimYears,
      inEffect_trimEnding hsorted hstart heffect (Or.inl htime) (Int.le_refl _)]

theorem offsetsAt_getLast?_trimYears (hts : ts.Pairwise fun u v => u.time < v.time)
    (hbegin : ∀ u ∈ ts, beginningOfTime ≤ u.time)
    (hlast : (trimYears (some minYear) maxYear (removeDuplicates ts)).getLast? = some u)
    (hlt : beginningOfTime < u.time) (hopened : HaveOpened minYear u.time ts) :
    offsetsAt u.time ts = some (u.utcOffset, 0) ∧ localYear u.time u.utcOffset ≤ maxYear := by
  obtain ⟨hsorted, -⟩ := trimStart_removeDuplicates minYear hts hbegin
  have hne : u.time ≠ beginningOfTime := by omega
  obtain ⟨hdst, hyear⟩ := (getLast?_trimEnding hlast).resolve_left hne
  have hu := inEffect_of_getLast?_trimEnding hsorted hlast hne
  refine ⟨?_, hyear⟩
  rw [← offsetsAt_trimStart_removeDuplicates hts (Int.le_of_lt hlt) hopened, offsetsAt, hu,
    Option.map_some, hdst]

end ZoneTables
