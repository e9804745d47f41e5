import Mathlib.Data.List.Chain
import Mathlib.Data.List.Infix
import ZoneTables.Timeline.Basic

/-!
# Duplicates and trimming

Removing duplicates keeps a part of a list in which no transition repeats the one before
(`isChain_removeDuplicates`). Trimming keeps a run of a list, with its first transition put at the
beginning of time and those that are there already (`trimStart_cases`, `trimEnding_cases`). Hence
neighbours in a trimmed list are neighbours in the list (`infix_of_infix_trimYears`), and what comes
within the years stays with what follows it (`trimYears_append_cons`).
-/

namespace ZoneTables

variable {ts us as bs : List Transition} {t u p q prev : Transition} {minYear maxYear : Int}

/-! ## Order -/

theorem time_le_of_mem_cons (hts : (t :: ts).Pairwise fun u v => u.time < v.time)
    (hu : u ∈ t :: ts) : t.time ≤ u.time := by
  rcases List.mem_cons.1 hu with rfl | hu
  · exact Int.le_refl _
  · exact Int.le_of_lt ((List.pairwise_cons.1 hts).1 u hu)

theorem forall_lt_of_head? {x : Int} (hts : ts.Pairwise fun u v => u.time < v.time)
    (h : ∀ u ∈ ts.head?, x < u.time) : ∀ u ∈ ts, x < u.time := by
  cases ts with
  | nil => exact fun _ hu => absurd hu List.not_mem_nil
  | cons t ts => exact fun u hu => Int.lt_of_lt_of_le (h t rfl) (time_le_of_mem_cons hts hu)

/-! ## Duplicates -/

theorem dropRepeats_sublist (prev : Transition) (ts : List Transition) :
    (dropRepeats prev ts).Sublist ts := by
  induction ts generalizing prev with
  | nil => exact .slnil
  | cons t ts ih =>
    rw [dropRepeats]
    split
    · exact (ih prev).cons t
    · exact (ih t).cons_cons t

theorem removeDuplicates_sublist (ts : List Transition) : (removeDuplicates ts).Sublist ts := by
  cases ts with
  | nil => exact .slnil
  | cons t ts => exact (dropRepeats_sublist t ts).cons_cons t

theorem isChain_dropRepeats (prev : Transition) (ts : List Transition) :
    (prev :: dropRepeats prev ts).IsChain fun p q => q.repeats p = false := by
  induction ts generalizing prev with
  | nil => exact .singleton prev
  | cons t ts ih =>
    rw [dropRepeats]
    split
    · exact ih prev
    · rename_i hrepeats
      exact .cons_cons (by simpa using hrepeats) (ih t)

/-- **No transition that is kept repeats the one before.** -/
theorem isChain_removeDuplicates (ts : List Transition) :
    (removeDuplicates ts).IsChain fun p q => q.repeats p = false := by
  cases ts with
  | nil => exact .nil
  | cons t ts => exact isChain_dropRepeats t ts

theorem dropRepeats_append (prev : Transition) (as bs : List Transition) :
    dropRepeats prev (as ++ bs) =
      dropRepeats prev as ++ dropRepeats ((dropRepeats prev as).getLast?.getD prev) bs := by
  induction as generalizing prev with
  | nil => rfl
  | cons a as ih =>
    rw [List.cons_append, dropRepeats, dropRepeats]
    split
    · exact ih prev
    · rw [ih a, List.getLast?_cons, Option.getD_some]
      rfl

/-- What follows a list is compared with the last transition kept of it. -/
theorem removeDuplicates_append (hprev : (removeDuplicates as).getLast? = some prev) :
    removeDuplicates (as ++ bs) = removeDuplicates as ++ dropRepeats prev bs := by
  cases as with
  | nil => cases hprev
  | cons a as =>
    simp only [removeDuplicates, List.getLast?_cons, Option.some.injEq] at hprev
    rw [List.cons_append, removeDuplicates, removeDuplicates, dropRepeats_append, hprev]
    rfl

/-! ## Trimming -/

theorem fromLatestStandard?_of_begin (h : t.time = beginningOfTime) :
    fromLatestStandard? minYear (t :: ts) = fromLatestStandard? minYear ts := by
  rw [fromLatestStandard?, if_pos h]

theorem fromLatestStandard?_of_within (hne : t.time ≠ beginningOfTime)
    (hyear : minYear ≤ t.yearAfter) : fromLatestStandard? minYear (t :: ts) = none := by
  rw [fromLatestStandard?, if_neg hne, if_pos hyear]

theorem fromLatestStandard?_of_earlier (hne : t.time ≠ beginningOfTime)
    (hyear : t.yearAfter < minYear) : fromLatestStandard? minYear (t :: ts) =
      (fromLatestStandard? minYear ts).or (if t.dstOffset = 0 then some (t :: ts) else none) := by
  rw [fromLatestStandard?, if_neg hne, if_neg (by omega)]
  cases fromLatestStandard? minYear ts <;> rfl

/-- The start of a list that trimming takes off: up to a transition to standard time, all of it at
the beginning of time or before `minYear`. -/
theorem fromLatestStandard?_cases {rest : List Transition}
    (h : fromLatestStandard? minYear ts = some rest) :
    ∃ before t after, rest = t :: after ∧ ts = before ++ t :: after ∧ t.dstOffset = 0 ∧
      ∀ u ∈ before ++ [t], u.time = beginningOfTime ∨ u.yearAfter < minYear := by
  induction ts generalizing rest with
  | nil => cases h
  | cons u us ih =>
    have hextend (hu : u.time = beginningOfTime ∨ u.yearAfter < minYear)
        (h : fromLatestStandard? minYear us = some rest) :
        ∃ before t after, rest = t :: after ∧ u :: us = before ++ t :: after ∧ t.dstOffset = 0 ∧
          ∀ v ∈ before ++ [t], v.time = beginningOfTime ∨ v.yearAfter < minYear := by
      obtain ⟨before, t, after, hrest, rfl, hdst, hbefore⟩ := ih h
      exact ⟨u :: before, t, after, hrest, rfl, hdst, List.forall_mem_cons.2 ⟨hu, hbefore⟩⟩
    by_cases hbegin : u.time = beginningOfTime
    · rw [fromLatestStandard?_of_begin hbegin] at h
      exact hextend (Or.inl hbegin) h
    by_cases hyear : minYear ≤ u.yearAfter
    · rw [fromLatestStandard?_of_within hbegin hyear] at h
      cases h
    · have hearlier := Int.not_le.1 hyear
      rw [fromLatestStandard?_of_earlier hbegin hearlier, Option.or_eq_some_iff] at h
      rcases h with hlater | ⟨-, hu⟩
      · exact hextend (Or.inr hearlier) hlater
      · split at hu
        · rename_i hdst
          obtain rfl := Option.some.inj hu
          exact ⟨[], u, us, rfl, rfl, hdst, by simpa using Or.inr hearlier⟩
        · cases hu

/-- **Trimming the start** leaves the list alone, or takes off what comes before a transition to
standard time and puts that at the beginning of time. -/
theorem trimStart_cases (minYear : Int) (ts : List Transition) :
    trimStart minYear ts = ts ∨
      ∃ before t after, ts = before ++ t :: after ∧
        trimStart minYear ts = { t with time := beginningOfTime } :: after ∧ t.dstOffset = 0 ∧
        ∀ u ∈ before ++ [t], u.time = beginningOfTime ∨ u.yearAfter < minYear := by
  cases h : fromLatestStandard? minYear ts with
  | none => exact Or.inl (by rw [trimStart, h])
  | some rest =>
    obtain ⟨before, t, after, rfl, hts, hcut⟩ := fromLatestStandard?_cases h
    exact Or.inr ⟨before, t, after, hts, by rw [trimStart, h], hcut⟩

theorem trimLatest_cases (maxYear : Int) (ts : List Transition) :
    ∃ front back, ts = front ++ back ∧
      trimLatest maxYear ts = front.filter (·.time = beginningOfTime) ++ back ∧
      ∀ u ∈ front, u.time = beginningOfTime ∨ u.dstOffset ≠ 0 ∨ maxYear < u.year := by
  induction ts with
  | nil => exact ⟨[], [], rfl, rfl, by simp⟩
  | cons u us ih =>
    obtain ⟨front, back, rfl, htrim, hfront⟩ := ih
    rw [trimLatest]
    split
    · rename_i hu
      exact ⟨u :: front, back, rfl, by simp [hu, htrim], List.forall_mem_cons.2 ⟨Or.inl hu, hfront⟩⟩
    · rename_i hne
      split
      · rename_i hu
        exact ⟨u :: front, back, rfl, by simp [hne, htrim],
          List.forall_mem_cons.2 ⟨Or.inr hu, hfront⟩⟩
      · exact ⟨[], u :: (front ++ back), rfl, rfl, by simp⟩

/-- **Trimming the end** takes off transitions that are daylight saving or too late, but for those
at the beginning of time. -/
theorem trimEnding_cases (maxYear : Int) (ts : List Transition) :
    ∃ before after, ts = before ++ after ∧
      trimEnding maxYear ts = before ++ after.filter (·.time = beginningOfTime) ∧
      ∀ u ∈ after, u.time = beginningOfTime ∨ u.dstOffset ≠ 0 ∨ maxYear < u.year := by
  obtain ⟨front, back, hts, htrim, hfront⟩ := trimLatest_cases maxYear ts.reverse
  refine ⟨back.reverse, front.reverse, ?_, ?_, fun u hu => hfront u (List.mem_reverse.1 hu)⟩
  · rw [← List.reverse_append, ← hts, List.reverse_reverse]
  · rw [trimEnding, htrim, List.reverse_append, List.filter_reverse]

theorem trimLatest_append (maxYear : Int) (as bs : List Transition) :
    trimLatest maxYear (as ++ bs) = trimLatest maxYear as ++ bs ∨
      (∀ u ∈ trimLatest maxYear as, u.time = beginningOfTime) ∧
        trimLatest maxYear (as ++ bs) = trimLatest maxYear as ++ trimLatest maxYear bs := by
  induction as with
  | nil => simp [trimLatest]
  | cons a as ih =>
    rw [List.cons_append, trimLatest, trimLatest]
    by_cases hbegin : a.time = beginningOfTime
    · rw [if_pos hbegin, if_pos hbegin]
      rcases ih with hstops | ⟨hall, happend⟩
      · rw [hstops]
        exact .inl List.cons_append.symm
      · rw [happend]
        exact .inr ⟨List.forall_mem_cons.2 ⟨hbegin, hall⟩, List.cons_append.symm⟩
    · rw [if_neg hbegin, if_neg hbegin]
      split
      · exact ih
      · exact .inl List.cons_append.symm

/-- Trimming the end takes off the first transition of a list only if nothing but transitions at
the beginning of time is left after it. -/
theorem trimEnding_cons_cases (maxYear : Int) (t : Transition) (ts : List Transition) :
    trimEnding maxYear (t :: ts) = t :: trimEnding maxYear ts ∨
      ¬(t.time = beginningOfTime ∨ t.dstOffset = 0 ∧ t.year ≤ maxYear) ∧
        trimEnding maxYear (t :: ts) = trimEnding maxYear ts ∧
        ∀ u ∈ trimEnding maxYear ts, u.time = beginningOfTime := by
  rw [trimEnding, trimEnding, List.reverse_cons]
  rcases trimLatest_append maxYear ts.reverse [t] with hstops | ⟨hall, happend⟩
  · exact .inl (by rw [hstops]; simp)
  · rw [happend]
    by_cases hstays : t.time = beginningOfTime ∨ t.dstOffset = 0 ∧ t.year ≤ maxYear
    · have hlast : trimLatest maxYear [t] = [t] := by
        unfold trimLatest
        split_ifs
        · rfl
        · omega
        · rfl
      exact .inl (by simp [hlast])
    · have hlast : trimLatest maxYear [t] = [] := by
        unfold trimLatest
        split_ifs
        · omega
        · rfl
        · omega
      exact .inr ⟨hstays, by simp [hlast], by simpa using hall⟩

theorem trimEnding_cons_of_stays
    (h : t.time = beginningOfTime ∨ t.dstOffset = 0 ∧ t.year ≤ maxYear) :
    trimEnding maxYear (t :: ts) = t :: trimEnding maxYear ts :=
  (trimEnding_cons_cases maxYear t ts).resolve_right fun htaken => htaken.1 h

theorem exists_append_trimEnding (maxYear : Int) (hts : ∀ u ∈ ts, u.time ≠ beginningOfTime) :
    ∃ cut, ts = trimEnding maxYear ts ++ cut ∧ ∀ u ∈ cut, u.dstOffset ≠ 0 ∨ maxYear < u.year := by
  obtain ⟨before, after, rfl, htrim, hafter⟩ := trimEnding_cases maxYear ts
  have hne : ∀ u ∈ after, u.time ≠ beginningOfTime :=
    fun u hu => hts u (List.mem_append_right _ hu)
  have hfilter : after.filter (·.time = beginningOfTime) = [] :=
    List.filter_eq_nil_iff.2 (by simpa using hne)
  rw [htrim, hfilter, List.append_nil]
  exact ⟨after, rfl, fun u hu => (hafter u hu).resolve_left (hne u hu)⟩

/-- A transition of a trimmed list is in the list, or there at another time. -/
theorem exists_of_mem_trimYears (hu : u ∈ trimYears (some minYear) maxYear ts) :
    ∃ t ∈ ts, u = t ∨ u = { t with time := beginningOfTime } := by
  have hstart : u ∈ trimStart minYear ts := by
    obtain ⟨before, after, hts, htrim, -⟩ := trimEnding_cases maxYear (trimStart minYear ts)
    rw [hts]
    rw [trimYears, htrim] at hu
    exact List.mem_append.2 ((List.mem_append.1 hu).imp_right List.mem_of_mem_filter)
  rcases trimStart_cases minYear ts with heq | ⟨before, t, after, hts, htrim, -⟩
  · rw [heq] at hstart
    exact ⟨u, hstart, Or.inl rfl⟩
  · rw [htrim, List.mem_cons] at hstart
    rcases hstart with rfl | hafter
    · exact ⟨t, by simp [hts], Or.inr rfl⟩
    · exact ⟨u, by simp [hts, hafter], Or.inl rfl⟩

/-! ## Neighbours -/

theorem pair_infix_left {α : Type} {a b : α} {xs ys : List α} (h : [a, b] <:+: xs ++ ys)
    (hb : b ∉ ys) : [a, b] <:+: xs := by
  obtain ⟨l, r, hlr⟩ := h
  rcases List.append_eq_append_iff.1 hlr with ⟨m, rfl, -⟩ | ⟨m, hm, rfl⟩
  · exact ⟨l, m, rfl⟩
  · rcases List.eq_nil_or_concat m with rfl | ⟨m, c, rfl⟩
    · exact ⟨l, [], by simpa using hm⟩
    · have hlast : b = c := by
        have := congrArg List.getLast? hm
        simpa using this
      exact absurd (by simp [hlast]) hb

/-- **Neighbours in a trimmed list are neighbours in the list**, or one of them is at the beginning
of time. -/
theorem infix_of_infix_trimYears (h : [p, q] <:+: trimYears (some minYear) maxYear ts) :
    p.time = beginningOfTime ∨ q.time = beginningOfTime ∨ [p, q] <:+: ts := by
  by_cases hq : q.time = beginningOfTime
  · exact Or.inr (Or.inl hq)
  obtain ⟨before, after, hstart, hending, -⟩ := trimEnding_cases maxYear (trimStart minYear ts)
  rw [trimYears, hending] at h
  have hbefore : [p, q] <:+: before := pair_infix_left h (by simp [hq])
  have hpair : [p, q] <:+: trimStart minYear ts := by
    rw [hstart]
    exact hbefore.trans (List.prefix_append before after).isInfix
  rcases trimStart_cases minYear ts with heq | ⟨front, t, rest, rfl, htrim, -⟩
  · exact Or.inr (Or.inr (heq ▸ hpair))
  · rw [htrim, List.infix_cons_iff] at hpair
    rcases hpair with hprefix | hinfix
    · left
      obtain ⟨rfl, -⟩ := List.cons_prefix_cons.1 hprefix
      rfl
    · right; right
      exact hinfix.trans ⟨front ++ [t], [], by simp⟩

/-! ## What comes within the years -/

/-- The first element that is none of the beginning of a list comes after it. -/
theorem append_cons_of_forall {α : Type} {P : α → Prop} {xs ys zs ws : List α} {a : α}
    (h : xs ++ a :: ys = zs ++ ws) (hzs : ∀ b ∈ zs, P b) (ha : ¬ P a) :
    ∃ ms, xs = zs ++ ms ∧ ws = ms ++ a :: ys := by
  rcases List.append_eq_append_iff.1 h with ⟨m, rfl, hm⟩ | ⟨m, rfl, rfl⟩
  · cases m with
    | nil => exact ⟨[], by simp, by simpa using hm.symm⟩
    | cons b m =>
      obtain ⟨rfl, -⟩ := List.cons.inj hm
      exact absurd (hzs a (by simp)) ha
  · exact ⟨m, rfl, rfl⟩

theorem append_cons_of_forall_right {α : Type} {P : α → Prop} {xs ys zs ws : List α} {a : α}
    (h : xs ++ a :: ys = zs ++ ws) (hws : ∀ b ∈ ws, P b) (ha : ¬ P a) :
    ∃ ms, zs = xs ++ a :: ms ∧ ys = ms ++ ws := by
  rcases List.append_eq_append_iff.1 h with ⟨m, rfl, hm⟩ | ⟨m, rfl, rfl⟩
  · cases m with
    | nil =>
      simp only [List.nil_append] at hm
      exact absurd (hws a (by simp [← hm])) ha
    | cons b m =>
      obtain ⟨rfl, rfl⟩ := List.cons.inj hm
      exact ⟨m, rfl, rfl⟩
  · exact absurd (hws a (by simp)) ha

/-- **A transition to standard time within the years stays**, and nothing is put after it. -/
theorem trimYears_append_cons (as bs : List Transition) (hne : u.time ≠ beginningOfTime)
    (hdst : u.dstOffset = 0) (hmin : minYear ≤ u.yearAfter) (hmax : u.year ≤ maxYear) :
    ∃ as' bs', trimYears (some minYear) maxYear (as ++ u :: bs) = as' ++ u :: bs' ∧
      bs'.Sublist bs := by
  have hstart : ∃ as', trimStart minYear (as ++ u :: bs) = as' ++ u :: bs := by
    rcases trimStart_cases minYear (as ++ u :: bs) with
      heq | ⟨front, t, rest, hts, htrim, -, hfront⟩
    · exact ⟨as, heq⟩
    · have hsplit : as ++ u :: bs = (front ++ [t]) ++ rest := by simp [hts]
      obtain ⟨ms, -, rfl⟩ := append_cons_of_forall hsplit hfront (by omega)
      exact ⟨{ t with time := beginningOfTime } :: ms, htrim⟩
  obtain ⟨as', has'⟩ := hstart
  obtain ⟨before, after, hsplit, hending, hafter⟩ := trimEnding_cases maxYear (as' ++ u :: bs)
  obtain ⟨ms, rfl, rfl⟩ := append_cons_of_forall_right hsplit hafter (by omega)
  refine ⟨as', ms ++ after.filter (·.time = beginningOfTime), ?_,
    List.filter_sublist.append_left ms⟩
  rw [trimYears, has', hending]
  simp

end ZoneTables
