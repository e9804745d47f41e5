import ZoneTables.Proofs.Timeline.NormalForm

/-!
# Trimming in steps, and what it keeps

Of two years to which the start of a list is trimmed the later counts (`trimStart_trimStart`), and
of two years to which its end is trimmed the earlier (`trimEnding_trimEnding`). Start and end do not
disturb each other if the years from the start on reach the end (`trimStart_trimEnding`): what can
be put at the beginning of time is to standard time before the last year, so that it stays at the
end. Hence to trim a list twice is to trim it once, to the years that both have in common
(`trimYears_composes`).

In a list in strict order, with its first transition at the beginning of time, that transition or
the last one to standard time before the years takes its place, and clocks are set as before from
there on up to what is taken off the end (`trimYears_history`).
-/

namespace ZoneTables

variable {ts after : List Transition} {t u first origin : Transition} {x lo lo' hi : Int}

/-! ## The start -/

theorem trimStart_of_eq_some (h : fromLatestStandard? lo ts = some (t :: after)) :
    trimStart lo ts = { t with time := beginningOfTime } :: after := by
  rw [trimStart, h]

theorem fromLatestStandard?_eq_none_of_le (hle : lo' ≤ lo)
    (h : fromLatestStandard? lo ts = none) : fromLatestStandard? lo' ts = none := by
  induction ts with
  | nil => rfl
  | cons t ts ih =>
    rw [fromLatestStandard?_cons_eq_none_iff] at h ⊢
    rcases h with ⟨hne, hyear⟩ | ⟨hpassed, hrest⟩
    · exact .inl ⟨hne, Int.le_trans hle hyear⟩
    · exact .inr ⟨hpassed, ih hrest⟩

/-- Before a later year comes what comes before it in the rest, if anything, and else what came
before the first year. -/
theorem fromLatestStandard?_of_le (hle : lo ≤ lo')
    (h : fromLatestStandard? lo ts = some (t :: after)) :
    fromLatestStandard? lo' ts = (fromLatestStandard? lo' after).or (some (t :: after)) := by
  induction ts with
  | nil => cases h
  | cons u us ih =>
    by_cases hbegin : u.time = beginningOfTime
    · rw [fromLatestStandard?_of_begin hbegin] at h ⊢
      exact ih h
    by_cases hyear : lo ≤ u.yearAfter
    · rw [fromLatestStandard?_of_within hbegin hyear] at h
      cases h
    · have hearlier := Int.not_le.1 hyear
      rw [fromLatestStandard?_of_earlier hbegin hearlier, Option.or_eq_some_iff] at h
      rw [fromLatestStandard?_of_earlier hbegin (by omega)]
      rcases h with hlater | ⟨-, hu⟩
      · rw [ih hlater, Option.or_assoc, Option.some_or]
      · split at hu
        · obtain ⟨rfl, rfl⟩ := List.cons.inj (Option.some.inj hu)
          rw [if_pos ‹_›]
        · cases hu

/-- **Trimming the start twice is trimming it to the later year.** -/
theorem trimStart_trimStart (lo lo' : Int) (ts : List Transition) :
    trimStart lo' (trimStart lo ts) = trimStart (max lo lo') ts := by
  rcases Int.le_total lo' lo with hle | hle
  · rw [Int.max_eq_left hle]
    have hnone := fromLatestStandard?_trimStart lo ts
    exact trimStart_eq_self (fromLatestStandard?_eq_none_of_le hle hnone)
  · rw [Int.max_eq_right hle]
    cases hfound : fromLatestStandard? lo ts with
    | none => rw [trimStart_eq_self hfound]
    | some rest =>
      obtain ⟨-, t, after, rfl, -⟩ := fromLatestStandard?_cases hfound
      have hlater := fromLatestStandard?_of_le hle hfound
      rw [trimStart_of_eq_some hfound]
      -- the transition at the beginning of time is passed over
      cases hrest : fromLatestStandard? lo' after with
      | none =>
        rw [hrest, Option.none_or] at hlater
        rw [trimStart_of_eq_some hlater, trimStart_eq_self]
        rw [fromLatestStandard?_of_begin rfl, hrest]
      | some rest =>
        obtain ⟨-, u, us, rfl, -⟩ := fromLatestStandard?_cases hrest
        rw [hrest, Option.some_or] at hlater
        rw [trimStart_of_eq_some hlater, trimStart_of_eq_some]
        rw [fromLatestStandard?_of_begin rfl, hrest]

/-! ## Start and end -/

theorem Transition.year_le_yearAfter (t : Transition) : t.year ≤ t.yearAfter :=
  localYear_mono (by omega) t.utcOffset

theorem fromLatestStandard?_trimEnding_of_le (hle : lo ≤ hi) (ts : List Transition) :
    fromLatestStandard? lo (trimEnding hi ts) = (fromLatestStandard? lo ts).map (trimEnding hi) := by
  induction ts with
  | nil => rfl
  | cons t ts ih =>
    by_cases hbegin : t.time = beginningOfTime
    · rw [trimEnding_cons_of_stays (.inl hbegin), fromLatestStandard?_of_begin hbegin,
        fromLatestStandard?_of_begin hbegin, ih]
    by_cases hyear : lo ≤ t.yearAfter
    · -- the search ends here, or, if this transition is taken off, at nothing that it could find
      rw [fromLatestStandard?_of_within hbegin hyear]
      rcases trimEnding_cons_cases hi t ts with heq | ⟨-, heq, hall⟩
      · rw [heq, fromLatestStandard?_of_within hbegin hyear]
        rfl
      · rw [heq, ← List.nil_append (trimEnding hi ts)]
        exact fromLatestStandard?_append_eq_none rfl hall
    · have hearlier := Int.not_le.1 hyear
      have hle := t.year_le_yearAfter
      rw [fromLatestStandard?_of_earlier hbegin hearlier, Option.map_or]
      by_cases hdst : t.dstOffset = 0
      · have hstays : trimEnding hi (t :: ts) = t :: trimEnding hi ts :=
          trimEnding_cons_of_stays (.inr ⟨hdst, by omega⟩)
        rw [hstays, fromLatestStandard?_of_earlier hbegin hearlier, ih, if_pos hdst, if_pos hdst,
          Option.map_some, hstays]
      · rw [if_neg hdst, Option.map_none, Option.or_none, ← ih]
        rcases trimEnding_cons_cases hi t ts with heq | ⟨-, heq, -⟩
        · rw [heq, fromLatestStandard?_of_earlier hbegin hearlier, if_neg hdst, Option.or_none]
        · rw [heq]

/-- **Start and end can be trimmed in either order** if the years from the start on reach the
end. -/
theorem trimStart_trimEnding (hle : lo ≤ hi) (ts : List Transition) :
    trimStart lo (trimEnding hi ts) = trimEnding hi (trimStart lo ts) := by
  have hfind := fromLatestStandard?_trimEnding_of_le hle ts
  cases hfound : fromLatestStandard? lo ts with
  | none =>
    rw [hfound] at hfind
    rw [trimStart_eq_self hfind, trimStart_eq_self hfound]
  | some rest =>
    obtain ⟨-, t, after, rfl, -⟩ := fromLatestStandard?_cases hfound
    obtain ⟨-, -, hdst, hyear⟩ := fromLatestStandard?_of_eq_some hfound
    have := t.year_le_yearAfter
    rw [hfound, Option.map_some, trimEnding_cons_of_stays (.inr ⟨hdst, by omega⟩)] at hfind
    rw [trimStart_of_eq_some hfind, trimStart_of_eq_some hfound, trimEnding_cons_of_stays (.inl rfl)]

/-- **Trimming twice is trimming once**, to the years that both have in common, unless the years of
the second time begin after those of the first have ended. To the same years it is so in any
case. -/
theorem trimYears_composes (minYear minYear' : Option Int) (maxYear maxYear' : Int)
    (ts : List Transition) :
    ((∀ year ∈ minYear', year ≤ maxYear) →
      trimYears minYear' maxYear' (trimYears minYear maxYear ts) =
        trimYears (max minYear minYear') (min maxYear maxYear') ts) ∧
    trimYears minYear maxYear (trimYears minYear maxYear ts) = trimYears minYear maxYear ts := by
  refine ⟨fun hle => ?_, trimYears_trimYears minYear maxYear ts⟩
  cases minYear' with
  | none =>
    rw [Option.max_none_right]
    exact trimEnding_trimEnding maxYear maxYear' _
  | some lo' =>
    have hswap := trimStart_trimEnding (hle lo' rfl)
    cases minYear with
    | none =>
      show trimEnding maxYear' (trimStart lo' (trimEnding maxYear ts)) = trimEnding _ (trimStart lo' ts)
      rw [hswap, trimEnding_trimEnding]
    | some lo =>
      show trimEnding maxYear' (trimStart lo' (trimEnding maxYear (trimStart lo ts))) =
        trimEnding _ (trimStart (max lo lo') ts)
      rw [hswap, trimEnding_trimEnding, trimStart_trimStart]

/-- Summer time in two years, with a transition that comes too late in the list. -/
def twoSummers : List Transition :=
  [⟨beginningOfTime, 600, 0, some "LMT", none⟩, ⟨-315619200, 0, 0, some "GMT", none⟩,
    ⟨7776000, 3600, 3600, some "BST", none⟩, ⟨23587200, 0, 0, some "GMT", none⟩,
    ⟨39312000, 3600, 3600, some "BST", none⟩, ⟨-94694400, 0, 0, some "UTC", none⟩]

theorem trimYears_composes_twoSummers :
    (∀ year ∈ some (1971 : Int), year ≤ 1971) ∧
      trimYears (some 1971) 1980 (trimYears (some 1965) 1971 twoSummers) =
        trimYears (some 1971) 1971 twoSummers ∧
      (trimYears (some 1971) 1971 twoSummers).map (·.time) =
        [beginningOfTime, 39312000, -94694400] := by
  have hle : ∀ year ∈ some (1971 : Int), year ≤ 1971 := by decide
  exact ⟨hle, (trimYears_composes (some 1965) (some 1971) 1971 1980 twoSummers).1 hle,
    by decide +kernel⟩

/-! ## What is kept -/

/-- The transitions before the first that reaches a year, if there is such a bound. -/
def beforeYear (minYear : Option Int) (ts : List Transition) : List Transition :=
  match minYear with
  | some year => ts.takeWhile (·.yearAfter < year)
  | none => []

/-- The last transition of a list to standard time. -/
def lastStandard? (ts : List Transition) : Option Transition :=
  (ts.filter (·.dstOffset = 0)).getLast?

theorem lastStandard?_cons (t : Transition) (ts : List Transition) :
    lastStandard? (t :: ts) = (lastStandard? ts).or (if t.dstOffset = 0 then some t else none) := by
  by_cases hdst : t.dstOffset = 0
  · rw [lastStandard?, lastStandard?, List.filter_cons_of_pos (by simpa using hdst), if_pos hdst,
      List.getLast?_cons]
    cases (ts.filter (·.dstOffset = 0)).getLast? <;> rfl
  · rw [lastStandard?, lastStandard?, List.filter_cons_of_neg (by simpa using hdst), if_neg hdst,
      Option.or_none]

theorem head?_fromLatestStandard? (lo : Int) (hts : ∀ u ∈ ts, u.time ≠ beginningOfTime) :
    (fromLatestStandard? lo ts).bind List.head? = lastStandard? (beforeYear (some lo) ts) := by
  induction ts with
  | nil => rfl
  | cons t ts ih =>
    obtain ⟨hne, hts⟩ := List.forall_mem_cons.1 hts
    by_cases hyear : lo ≤ t.yearAfter
    · rw [fromLatestStandard?_of_within hne hyear, beforeYear,
        List.takeWhile_cons_of_neg (by simpa using hyear)]
      rfl
    · have hearlier := Int.not_le.1 hyear
      rw [fromLatestStandard?_of_earlier hne hearlier, beforeYear,
        List.takeWhile_cons_of_pos (by simpa using hearlier), lastStandard?_cons]
      rw [beforeYear] at ih
      rw [← ih hts]
      cases hfound : fromLatestStandard? lo ts with
      | none => split <;> rfl
      | some rest =>
        obtain ⟨-, u, after, rfl, -⟩ := fromLatestStandard?_cases hfound
        rfl

/-- **What the start of a list in order becomes**: the first transition or the last one to standard
time before the years, at the beginning of time, and what follows it. -/
theorem exists_trimStart (minYear : Option Int) (hfirst : first.time = beginningOfTime)
    (hts : ∀ u ∈ ts, u.time ≠ beginningOfTime) :
    ∃ before origin after, first :: ts = before ++ origin :: after ∧
      origin = (lastStandard? (beforeYear minYear ts)).getD first ∧
      ∀ maxYear, trimYears minYear maxYear (first :: ts) =
        { origin with time := beginningOfTime } :: trimEnding maxYear after := by
  have hstays (after : List Transition) (t : Transition) (maxYear : Int) :
      trimEnding maxYear ({ t with time := beginningOfTime } :: after) =
        { t with time := beginningOfTime } :: trimEnding maxYear after :=
    trimEnding_cons_of_stays (.inl rfl)
  have hself : first = { first with time := beginningOfTime } := by rw [← hfirst]
  cases minYear with
  | none =>
    refine ⟨[], first, ts, rfl, rfl, fun maxYear => ?_⟩
    rw [← hstays, ← hself]
    rfl
  | some lo =>
    have hhead := head?_fromLatestStandard? lo hts
    cases hfound : fromLatestStandard? lo ts with
    | none =>
      rw [hfound, Option.bind_none] at hhead
      refine ⟨[], first, ts, rfl, by rw [← hhead]; rfl, fun maxYear => ?_⟩
      rw [← hstays, ← hself, trimYears, trimStart_eq_self]
      rw [fromLatestStandard?_of_begin hfirst, hfound]
    | some rest =>
      obtain ⟨before, origin, after, rfl, hsplit, -⟩ := fromLatestStandard?_cases hfound
      rw [hfound, Option.bind_some, List.head?_cons] at hhead
      refine ⟨first :: before, origin, after, by rw [hsplit]; rfl, by rw [← hhead]; rfl,
        fun maxYear => ?_⟩
      rw [← hstays, trimYears, trimStart_of_eq_some]
      rw [fromLatestStandard?_of_begin hfirst, hfound]

/-- What comes after a transition is cut at its end, and stays in order when that transition is put
at the beginning of time. -/
theorem exists_trimEnding_append (maxYear : Int) (hbegin : beginningOfTime ≤ origin.time)
    (hts : (origin :: after).Pairwise fun u v => u.time < v.time) :
    ∃ cut, after = trimEnding maxYear after ++ cut ∧
      ({ origin with time := beginningOfTime } :: trimEnding maxYear after).Pairwise
        (fun u v => u.time < v.time) ∧
      (∀ u ∈ (trimEnding maxYear after).getLast?, u.dstOffset = 0 ∧ u.year ≤ maxYear) ∧
      ∀ u ∈ cut, u.dstOffset ≠ 0 ∨ maxYear < u.year := by
  obtain ⟨horigin, hafter⟩ := List.pairwise_cons.1 hts
  have hlater : ∀ u ∈ after, beginningOfTime < u.time :=
    fun u hu => Int.lt_of_le_of_lt hbegin (horigin u hu)
  obtain ⟨cut, hcut, htaken⟩ :=
    exists_append_trimEnding maxYear fun u hu => (Int.ne_of_lt (hlater u hu)).symm
  have hkept : (trimEnding maxYear after).Sublist after := by
    conv_rhs => rw [hcut]
    exact List.sublist_append_left _ _
  refine ⟨cut, hcut, List.pairwise_cons.2 ⟨?_, hafter.sublist hkept⟩, fun u hu => ?_, htaken⟩
  · exact fun u hu => hlater u (hkept.subset hu)
  · have hmem := hkept.subset (List.mem_of_getLast? hu)
    exact (getLast?_trimEnding hu).resolve_left (Int.ne_of_lt (hlater u hmem)).symm

/-- **Trimming keeps the history that it does not cut.** A list in strict order from the beginning
of time on falls into what comes before a transition `origin`, that transition, what is kept and
what is cut off. The first transition, which is at the beginning of time already, is in no year. -/
theorem trimYears_history (minYear : Option Int) (maxYear : Int)
    (hfirst : first.time = beginningOfTime)
    (hts : (first :: ts).Pairwise fun u v => u.time < v.time) :
    ∃ before origin kept cut, first :: ts = before ++ origin :: (kept ++ cut) ∧
      trimYears minYear maxYear (first :: ts) =
        { origin with time := beginningOfTime } :: kept ∧
      origin = (lastStandard? (beforeYear minYear ts)).getD first ∧
      (trimYears minYear maxYear (first :: ts)).Pairwise (fun u v => u.time < v.time) ∧
      (∀ u ∈ kept.getLast?, u.dstOffset = 0 ∧ u.year ≤ maxYear) ∧
      (∀ u ∈ cut, u.dstOffset ≠ 0 ∨ maxYear < u.year) ∧
      ∀ x, origin.time ≤ x → (∀ u ∈ cut.head?, x < u.time) →
        settingAt x (trimYears minYear maxYear (first :: ts)) = settingAt x (first :: ts) := by
  have hlater : ∀ u ∈ ts, beginningOfTime < u.time := hfirst ▸ (List.pairwise_cons.1 hts).1
  have hbegin : ∀ u ∈ first :: ts, beginningOfTime ≤ u.time :=
    List.forall_mem_cons.2 ⟨hfirst.ge, fun u hu => Int.le_of_lt (hlater u hu)⟩
  obtain ⟨before, origin, after, hsplit, horigin, htrim⟩ :=
    exists_trimStart minYear hfirst fun u hu => (Int.ne_of_lt (hlater u hu)).symm
  rw [hsplit] at hts hbegin
  have hafter := (List.pairwise_append.1 hts).2.1
  have hmoved : beginningOfTime ≤ origin.time := hbegin origin (by simp)
  obtain ⟨cut, hcut, hkept, hlast, htaken⟩ := exists_trimEnding_append maxYear hmoved hafter
  refine ⟨before, origin, trimEnding maxYear after, cut, hcut ▸ hsplit, htrim maxYear, horigin,
    (htrim maxYear) ▸ hkept, hlast, htaken, fun x hx hhead => ?_⟩
  have hordered : cut.Pairwise fun u v => u.time < v.time := by
    rw [hcut] at hafter
    exact (List.pairwise_append.1 (List.pairwise_cons.1 hafter).2).2.1
  have hlaterCut := forall_lt_of_head? hordered hhead
  calc settingAt x (trimYears minYear maxYear (first :: ts))
      = settingAt x (before ++ origin :: trimEnding maxYear after) := by
        rw [htrim, settingAt_moved before _ (Int.le_trans hmoved hx) hx]
    _ = settingAt x (before ++ origin :: trimEnding maxYear after ++ cut) := by
        rw [settingAt, settingAt, inEffect_append_of_lt hlaterCut]
    _ = settingAt x (first :: ts) := by
        rw [hsplit, List.append_assoc, List.cons_append, ← hcut]

/-- Local mean time, before all changes. -/
def meanTime : Transition := ⟨beginningOfTime, 600, 0, some "LMT", none⟩

/-- Standard time from 1960 on, under another name from 1967 on, and two summers from 1970 on. -/
def fromSixty : List Transition :=
  [⟨-315619200, 0, 0, some "GMT", none⟩, ⟨-94694400, 0, 0, some "UTC", none⟩,
    ⟨7776000, 3600, 3600, some "BST", none⟩, ⟨23587200, 0, 0, some "GMT", none⟩,
    ⟨39312000, 3600, 3600, some "BST", none⟩]

theorem trimYears_history_fromSixty :
    (meanTime :: fromSixty).Pairwise (fun u v => u.time < v.time) ∧
      (trimYears (some 1965) 1969 (meanTime :: fromSixty)).map (·.time) =
        [beginningOfTime, -94694400] ∧
      ∀ x, -315619200 ≤ x → x < 7776000 →
        settingAt x (trimYears (some 1965) 1969 (meanTime :: fromSixty)) =
          settingAt x (meanTime :: fromSixty) := by
  have hfirst : meanTime.time = beginningOfTime := rfl
  have hts : (meanTime :: fromSixty).Pairwise fun u v => u.time < v.time := by decide
  obtain ⟨before, origin, kept, cut, hsplit, -, horigin, -, -, htaken, hsame⟩ :=
    trimYears_history (some 1965) 1969 hfirst hts
  have htime : origin.time = -315619200 := by
    rw [horigin]
    decide +kernel
  have hlate : ∀ u ∈ meanTime :: fromSixty, u.dstOffset ≠ 0 ∨ 1969 < u.year → 7776000 ≤ u.time := by
    decide +kernel
  refine ⟨hts, by decide +kernel, fun x hx hlt => hsame x (htime ▸ hx) fun u hu => ?_⟩
  have hmem := List.mem_of_mem_head? hu
  exact Int.lt_of_lt_of_le hlt (hlate u (by simp [hsplit, hmem]) (htaken u hmem))

end ZoneTables
