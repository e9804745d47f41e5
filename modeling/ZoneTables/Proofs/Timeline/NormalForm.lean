import ZoneTables.Proofs.Timeline.InEffect

/-!
# Lists in normal form

A list of which the first transition, and no other, is at the beginning of time (`BeginsOnce`) comes
out of the removal of duplicates and of trimming in normal form (`BeginsOnce.isNormal_trimYears`):
doing so again changes nothing. Trimming twice is trimming once whatever the list is
(`trimYears_trimYears`): no transition to standard time is left that could be put at the beginning.
What is put there does not make a duplicate of the transition after it, since duplicates were
removed before (`isChain_trimYears`).
-/

namespace ZoneTables

variable {ts as bs : List Transition} {t u prev : Transition} {minYear maxYear : Int}

/-! ## Duplicates -/

theorem dropRepeats_eq_self (h : (prev :: ts).IsChain fun p q => q.repeats p = false) :
    dropRepeats prev ts = ts := by
  induction ts generalizing prev with
  | nil => rfl
  | cons t ts ih =>
    obtain ⟨hrepeats, hchain⟩ := List.isChain_cons_cons.1 h
    rw [dropRepeats, hrepeats, ih hchain]
    rfl

theorem removeDuplicates_eq_self (h : ts.IsChain fun p q => q.repeats p = false) :
    removeDuplicates ts = ts := by
  cases ts with
  | nil => rfl
  | cons t ts => rw [removeDuplicates, dropRepeats_eq_self h]

/-! ## Trimming twice -/

theorem fromLatestStandard?_cons_eq_none_iff :
    fromLatestStandard? minYear (t :: ts) = none ↔
      (t.time ≠ beginningOfTime ∧ minYear ≤ t.yearAfter) ∨
        ((t.time = beginningOfTime ∨ t.dstOffset ≠ 0) ∧ fromLatestStandard? minYear ts = none) := by
  by_cases hbegin : t.time = beginningOfTime
  · simp [fromLatestStandard?_of_begin hbegin, hbegin]
  · by_cases hyear : minYear ≤ t.yearAfter
    · simp [fromLatestStandard?_of_within hbegin hyear, hbegin, hyear]
    · rw [fromLatestStandard?_of_earlier hbegin (Int.not_le.1 hyear), Option.or_eq_none_iff]
      simp [hbegin, hyear, and_comm]

theorem fromLatestStandard?_eq_none_left (h : fromLatestStandard? minYear (as ++ bs) = none) :
    fromLatestStandard? minYear as = none := by
  induction as with
  | nil => rfl
  | cons a as ih =>
    rw [List.cons_append, fromLatestStandard?_cons_eq_none_iff] at h
    rw [fromLatestStandard?_cons_eq_none_iff]
    exact h.imp_right (And.imp_right ih)

/-- Transitions at the beginning of time are passed over. -/
theorem fromLatestStandard?_append_eq_none (has : fromLatestStandard? minYear as = none)
    (hbs : ∀ u ∈ bs, u.time = beginningOfTime) : fromLatestStandard? minYear (as ++ bs) = none := by
  induction as with
  | nil =>
    induction bs with
    | nil => rfl
    | cons b bs ih =>
      obtain ⟨hb, hbs⟩ := List.forall_mem_cons.1 hbs
      exact fromLatestStandard?_cons_eq_none_iff.2 (.inr ⟨.inl hb, ih hbs⟩)
  | cons a as ih =>
    rw [fromLatestStandard?_cons_eq_none_iff] at has
    rw [List.cons_append, fromLatestStandard?_cons_eq_none_iff]
    exact has.imp_right (And.imp_right ih)

theorem fromLatestStandard?_of_eq_some (h : fromLatestStandard? minYear ts = some (t :: bs)) :
    fromLatestStandard? minYear bs = none ∧
      t.time ≠ beginningOfTime ∧ t.dstOffset = 0 ∧ t.yearAfter < minYear := by
  induction ts with
  | nil => cases h
  | cons u us ih =>
    by_cases hbegin : u.time = beginningOfTime
    · rw [fromLatestStandard?_of_begin hbegin] at h
      exact ih h
    by_cases hyear : minYear ≤ u.yearAfter
    · rw [fromLatestStandard?_of_within hbegin hyear] at h
      cases h
    · have hearlier := Int.not_le.1 hyear
      rw [fromLatestStandard?_of_earlier hbegin hearlier, Option.or_eq_some_iff] at h
      rcases h with hlater | ⟨hnone, hu⟩
      · exact ih hlater
      · split at hu
        · rename_i hdst
          obtain ⟨rfl, rfl⟩ := List.cons.inj (Option.some.inj hu)
          exact ⟨hnone, hbegin, hdst, hearlier⟩
        · cases hu

theorem trimStart_eq_self (h : fromLatestStandard? minYear ts = none) :
    trimStart minYear ts = ts := by
  rw [trimStart, h]

/-- **The start of a trimmed list cannot be trimmed.** -/
theorem fromLatestStandard?_trimStart (minYear : Int) (ts : List Transition) :
    fromLatestStandard? minYear (trimStart minYear ts) = none := by
  unfold trimStart
  split
  · rename_i t rest hsome
    exact fromLatestStandard?_cons_eq_none_iff.2
      (.inr ⟨.inl rfl, (fromLatestStandard?_of_eq_some hsome).1⟩)
  · rename_i hnot
    cases h : fromLatestStandard? minYear ts with
    | none => rfl
    | some rest =>
      obtain ⟨before, t, after, rfl, -⟩ := fromLatestStandard?_cases h
      exact absurd h (hnot t after)

theorem fromLatestStandard?_trimEnding (maxYear : Int) (h : fromLatestStandard? minYear ts = none) :
    fromLatestStandard? minYear (trimEnding maxYear ts) = none := by
  obtain ⟨before, after, rfl, htrim, -⟩ := trimEnding_cases maxYear ts
  rw [htrim]
  refine fromLatestStandard?_append_eq_none (fromLatestStandard?_eq_none_left h) fun u hu => ?_
  simpa using (List.mem_filter.1 hu).2

theorem trimLatest_trimLatest (a b : Int) (ts : List Transition) :
    trimLatest b (trimLatest a ts) = trimLatest (min a b) ts := by
  induction ts with
  | nil => rfl
  | cons t ts ih =>
    simp only [trimLatest]
    by_cases hbegin : t.time = beginningOfTime
    · rw [if_pos hbegin, if_pos hbegin, trimLatest, if_pos hbegin, ih]
    · rw [if_neg hbegin, if_neg hbegin]
      by_cases hfirst : t.dstOffset ≠ 0 ∨ a < t.year
      · rw [if_pos hfirst, if_pos (by omega), ih]
      · rw [if_neg hfirst, trimLatest, if_neg hbegin]
        by_cases hsecond : t.dstOffset ≠ 0 ∨ b < t.year
        · -- the second bound is the earlier one
          rw [if_pos hsecond, if_pos (by omega), show min a b = b by omega]
        · rw [if_neg hsecond, if_neg (by omega)]

theorem trimEnding_trimEnding (a b : Int) (ts : List Transition) :
    trimEnding b (trimEnding a ts) = trimEnding (min a b) ts := by
  rw [trimEnding, trimEnding, List.reverse_reverse, trimLatest_trimLatest, trimEnding]

/-- **Trimming twice is trimming once.** -/
theorem trimYears_trimYears (minYear : Option Int) (maxYear : Int) (ts : List Transition) :
    trimYears minYear maxYear (trimYears minYear maxYear ts) = trimYears minYear maxYear ts := by
  cases minYear with
  | none =>
    simp only [trimYears]
    rw [trimEnding_trimEnding, min_self]
  | some year =>
    have hstart := fromLatestStandard?_trimEnding maxYear (fromLatestStandard?_trimStart year ts)
    simp only [trimYears]
    rw [trimStart_eq_self hstart, trimEnding_trimEnding, min_self]

/-! ## The beginning -/

/-- The first transition, and no other, is at the beginning of time. -/
def BeginsOnce (ts : List Transition) : Prop :=
  ∃ first rest, ts = first :: rest ∧ first.time = beginningOfTime ∧
    ∀ u ∈ rest, u.time ≠ beginningOfTime

theorem BeginsOnce.removeDuplicates (h : BeginsOnce ts) : BeginsOnce (removeDuplicates ts) := by
  obtain ⟨first, rest, rfl, hfirst, hrest⟩ := h
  exact ⟨first, _, rfl, hfirst, fun u hu => hrest u ((dropRepeats_sublist first rest).subset hu)⟩

theorem BeginsOnce.ne_of_mem_after (h : BeginsOnce (as ++ t :: bs)) :
    ∀ u ∈ bs, u.time ≠ beginningOfTime := by
  obtain ⟨first, rest, hts, -, hrest⟩ := h
  cases as with
  | nil =>
    obtain ⟨-, rfl⟩ := List.cons.inj hts
    exact hrest
  | cons a as =>
    obtain ⟨-, rfl⟩ := List.cons.inj hts
    exact fun u hu => hrest u (by simp [hu])

theorem BeginsOnce.trimStart (h : BeginsOnce ts) (minYear : Int) :
    BeginsOnce (trimStart minYear ts) := by
  rcases trimStart_cases minYear ts with heq | ⟨before, t, after, rfl, htrim, -⟩
  · rwa [heq]
  · rw [htrim]
    exact ⟨_, after, rfl, rfl, h.ne_of_mem_after⟩

theorem trimEnding_cons (maxYear : Int) (hfirst : t.time = beginningOfTime)
    (hts : ∀ u ∈ ts, u.time ≠ beginningOfTime) :
    ∃ rest, rest <+: ts ∧ trimEnding maxYear (t :: ts) = t :: rest := by
  obtain ⟨cut, hcut, -⟩ := exists_append_trimEnding maxYear hts
  exact ⟨_, ⟨cut, hcut.symm⟩, trimEnding_cons_of_stays (.inl hfirst)⟩

theorem BeginsOnce.trimEnding (h : BeginsOnce ts) (maxYear : Int) :
    BeginsOnce (trimEnding maxYear ts) := by
  obtain ⟨first, rest, rfl, hfirst, hrest⟩ := h
  obtain ⟨us, hus, htrim⟩ := trimEnding_cons maxYear hfirst hrest
  exact ⟨first, us, htrim, hfirst, fun u hu => hrest u (hus.subset hu)⟩

/-! ## The normal form -/

/-- **Trimming makes no duplicates.** A transition that is put at the beginning of time stays
different from the one after it, which is not there. -/
theorem isChain_trimYears (hbegin : BeginsOnce ts)
    (h : ts.IsChain fun p q => q.repeats p = false) :
    (trimYears (some minYear) maxYear ts).IsChain fun p q => q.repeats p = false := by
  have hstart : (trimStart minYear ts).IsChain fun p q => q.repeats p = false := by
    rcases trimStart_cases minYear ts with heq | ⟨before, t, after, rfl, htrim, -⟩
    · rwa [heq]
    · obtain ⟨-, hafter, -⟩ := List.isChain_append.1 h
      rw [List.isChain_cons] at hafter
      rw [htrim, List.isChain_cons]
      refine ⟨fun u hu => ?_, hafter.2⟩
      have hne := hbegin.ne_of_mem_after u (List.mem_of_mem_head? hu)
      have hrepeats := hafter.1 u hu
      simp only [Transition.repeats, Bool.or_eq_false_iff] at hrepeats ⊢
      exact ⟨by simpa using hne, hrepeats.2⟩
  obtain ⟨first, rest, heq, hfirst, hrest⟩ := hbegin.trimStart minYear
  obtain ⟨us, hus, htrim⟩ := trimEnding_cons maxYear hfirst hrest
  rw [heq] at hstart
  rw [trimYears, heq, htrim]
  exact hstart.prefix ((List.prefix_cons_inj first).2 hus)

/-- A list within years as it is to be: it begins at the beginning of time and is not there again,
ends there or in standard time within the years, and has neither duplicates nor anything to trim. -/
structure IsNormal (minYear maxYear : Int) (ts : List Transition) : Prop where
  begins : BeginsOnce ts
  ends : ∀ u, ts.getLast? = some u →
    u.time = beginningOfTime ∨ u.dstOffset = 0 ∧ u.year ≤ maxYear
  removeDuplicates_eq : removeDuplicates ts = ts
  trimYears_eq : trimYears (some minYear) maxYear ts = ts

/-- **Without duplicates and trimmed, a list is in normal form.** -/
theorem BeginsOnce.isNormal_trimYears (h : BeginsOnce ts) (minYear maxYear : Int) :
    IsNormal minYear maxYear (trimYears (some minYear) maxYear (ZoneTables.removeDuplicates ts)) where
  begins := (h.removeDuplicates.trimStart minYear).trimEnding maxYear
  ends _ hu := getLast?_trimEnding hu
  removeDuplicates_eq :=
    removeDuplicates_eq_self (isChain_trimYears h.removeDuplicates (isChain_removeDuplicates ts))
  trimYears_eq := trimYears_trimYears _ _ _

end ZoneTables
