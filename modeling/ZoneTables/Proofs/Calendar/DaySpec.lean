import Mathlib.Order.Bounds.Defs
import ZoneTables.Calendar.DaySpec
import ZoneTables.Proofs.Calendar.Date

/-!
# Days that specifications mean

The date that a day specification means in a month has the number of the day that it names there,
which may lie beyond the month (`dayNumber_resolve`), though not by more than a week
(`IsInRange.day_bounds`).

`DaySpec.Names` says which date that is: the remainders by which `dayOnOrAfter` and `dayOnOrBefore`
move a day lead to the first and the last day with a weekday (`isLeast_weekday`,
`isGreatest_weekday`), and days beyond a month count on into the next (`dayNumber_nextMonth`).
-/

namespace ZoneTables

variable {spec : DaySpec} {day month year w : Int}

theorem dayOnOrAfter_bounds (year month target day : Int) :
    day ≤ dayOnOrAfter year month target day ∧ dayOnOrAfter year month target day ≤ day + 6 := by
  unfold dayOnOrAfter
  omega

theorem dayOnOrBefore_bounds (year month target day : Int) :
    day - 6 ≤ dayOnOrBefore year month target day ∧ dayOnOrBefore year month target day ≤ day := by
  unfold dayOnOrBefore
  omega

theorem daysInMonth_bounds (year month : Int) :
    28 ≤ daysInMonth year month ∧ daysInMonth year month ≤ 31 := by
  by_cases hmonth : month = 2
  · subst hmonth
    rw [Date.daysInMonth_february]
    split <;> omega
  · rw [Date.daysInMonth_of_ne hmonth]
    have h0 : 0 ≤ (month - 1) % 12 := Int.emod_nonneg _ (by decide)
    have h1 : (month - 1) % 12 < 12 := Int.emod_lt_of_pos _ (by decide)
    generalize (month - 1) % 12 = m at h0 h1
    interval_cases m <;> decide

namespace DaySpec

/-- The day is one of a month's, and the weekday one of the week. -/
def IsInRange : DaySpec → Prop
  | exact day => 1 ≤ day ∧ day ≤ 31
  | onOrAfter weekday day | onOrBefore weekday day =>
    (1 ≤ weekday ∧ weekday ≤ 7) ∧ 1 ≤ day ∧ day ≤ 31
  | last weekday => 1 ≤ weekday ∧ weekday ≤ 7

theorem IsInRange.day_bounds (h : spec.IsInRange) (year month : Int) :
    -5 ≤ spec.day year month ∧ spec.day year month ≤ 37 := by
  cases spec with
  | exact day =>
    obtain ⟨hpos, hle⟩ := h
    show -5 ≤ day ∧ day ≤ 37
    omega
  | onOrAfter weekday day =>
    obtain ⟨-, hpos, hle⟩ := h
    have hbounds := dayOnOrAfter_bounds year month weekday day
    show -5 ≤ dayOnOrAfter year month weekday day ∧ dayOnOrAfter year month weekday day ≤ 37
    omega
  | onOrBefore weekday day =>
    obtain ⟨-, hpos, hle⟩ := h
    have hbounds := dayOnOrBefore_bounds year month weekday day
    show -5 ≤ dayOnOrBefore year month weekday day ∧ dayOnOrBefore year month weekday day ≤ 37
    omega
  | last weekday =>
    have hbounds := dayOnOrBefore_bounds year month weekday (daysInMonth year month)
    have hlength := daysInMonth_bounds year month
    show -5 ≤ dayOnOrBefore year month weekday (daysInMonth year month) ∧
      dayOnOrBefore year month weekday (daysInMonth year month) ≤ 37
    omega

/-- **The date that is meant has the number of the day that is meant.** -/
theorem dayNumber_resolve (spec : DaySpec) (year month : Int) :
    (spec.resolve year month).dayNumber = Date.dayNumber ⟨year, month, spec.day year month⟩ := by
  unfold resolve
  dsimp only
  split
  · rfl
  · exact Date.dayNumber_ofDayNumber _

theorem IsInRange.le_dayNumber_resolve (h : spec.IsInRange) (hmonth : 1 ≤ month) (year : Int) :
    Date.dayNumber ⟨year, 1, -5⟩ ≤ (spec.resolve year month).dayNumber := by
  have hmonths : Date.daysBeforeMonth (Date.monthNumber ⟨year, 1, -5⟩) ≤
      Date.daysBeforeMonth (Date.monthNumber ⟨year, month, spec.day year month⟩) := by
    apply Date.daysBeforeMonth_mono
    show 12 * year + 1 - 3 ≤ 12 * year + month - 3
    omega
  have hday := (h.day_bounds year month).1
  rw [dayNumber_resolve, Date.dayNumber_eq, Date.dayNumber_eq]
  dsimp only
  omega

end DaySpec

/-! ## The beginning of a year -/

theorem isValid_january (year : Int) : (⟨year, 1, 1⟩ : Date).IsValid where
  one_le_month := Int.le_refl 1
  month_le := (by decide : (1 : Int) ≤ 12)
  one_le_day := Int.le_refl 1
  day_le := Int.le_trans (by decide : (1 : Int) ≤ 28) (daysInMonth_bounds year 1).1

theorem dayNumber_january_lt (year : Int) :
    Date.dayNumber ⟨year - 1, 1, 1⟩ + 3 ≤ Date.dayNumber ⟨year, 1, -5⟩ := by
  have hjanuary : Date.daysBeforeMonth (12 * (year - 1) + 1 - 3) + daysInMonth (year - 1) 1 =
      Date.daysBeforeMonth (12 * (year - 1) + 1 - 2) :=
    Date.daysBeforeMonth_add_daysInMonth (year - 1) (by decide) (by decide)
  have hlength := (daysInMonth_bounds (year - 1) 1).1
  have hmonths : Date.daysBeforeMonth (12 * (year - 1) + 1 - 2) ≤
      Date.daysBeforeMonth (12 * year + 1 - 3) := Date.daysBeforeMonth_mono (by omega)
  rw [Date.dayNumber_eq, Date.dayNumber_eq]
  unfold Date.monthNumber
  dsimp only
  omega

theorem dayNumber_january_mono {y z : Int} (h : y ≤ z) (day : Int) :
    Date.dayNumber ⟨y, 1, day⟩ ≤ Date.dayNumber ⟨z, 1, day⟩ := by
  have hmonths : Date.daysBeforeMonth (Date.monthNumber ⟨y, 1, day⟩) ≤
      Date.daysBeforeMonth (Date.monthNumber ⟨z, 1, day⟩) := by
    apply Date.daysBeforeMonth_mono
    show 12 * y + 1 - 3 ≤ 12 * z + 1 - 3
    omega
  rw [Date.dayNumber_eq, Date.dayNumber_eq]
  dsimp only
  omega

/-! ## Days beyond a month -/

/-- Days count on from one to the next, also beyond their month. -/
theorem dayNumber_add (year month day k : Int) :
    Date.dayNumber ⟨year, month, day + k⟩ = Date.dayNumber ⟨year, month, day⟩ + k := by
  rw [Date.dayNumber_eq, Date.dayNumber_eq]
  unfold Date.monthNumber
  dsimp only
  omega

theorem dayNumber_nextMonth (hpos : 1 ≤ month) (hle : month ≤ 12) (year day : Int) :
    Date.dayNumber ⟨year, month, daysInMonth year month + day⟩ =
      Date.dayNumber ⟨year, month + 1, day⟩ := by
  have hmonth := Date.daysBeforeMonth_add_daysInMonth year hpos hle
  have hnext : Date.monthNumber ⟨year, month + 1, day⟩ = 12 * year + month - 2 := by
    unfold Date.monthNumber
    dsimp only
    omega
  rw [Date.dayNumber_eq, Date.dayNumber_eq, hnext, ← hmonth]
  unfold Date.monthNumber
  dsimp only
  omega

/-! ## Weekdays -/

theorem isLeast_weekday (hpos : 1 ≤ w) (hle : w ≤ 7) (n : Int) :
    IsLeast {k | n ≤ k ∧ weekday k = w} (n + (w - weekday n) % 7) := by
  unfold weekday
  refine ⟨⟨?_, ?_⟩, ?_⟩
  · omega
  · omega
  · rintro k ⟨hk, hweekday⟩
    omega

theorem isGreatest_weekday (hpos : 1 ≤ w) (hle : w ≤ 7) (n : Int) :
    IsGreatest {k | k ≤ n ∧ weekday k = w} (n - (weekday n - w) % 7) := by
  unfold weekday
  refine ⟨⟨?_, ?_⟩, ?_⟩
  · omega
  · omega
  · rintro k ⟨hk, hweekday⟩
    omega

theorem dayNumber_dayOnOrAfter (year month w day : Int) :
    Date.dayNumber ⟨year, month, dayOnOrAfter year month w day⟩ =
      Date.dayNumber ⟨year, month, day⟩ +
        (w - weekday (Date.dayNumber ⟨year, month, day⟩)) % 7 :=
  dayNumber_add year month day _

theorem dayNumber_dayOnOrBefore (year month w day : Int) :
    Date.dayNumber ⟨year, month, dayOnOrBefore year month w day⟩ =
      Date.dayNumber ⟨year, month, day⟩ -
        (weekday (Date.dayNumber ⟨year, month, day⟩) - w) % 7 :=
  dayNumber_add year month day _

/-! ## Days that are named -/

/-- The day is one of the month. -/
def Date.IsIn (year month : Int) (date : Date) : Prop := date.year = year ∧ date.month = month

namespace DaySpec

/-- The date that a specification names in a month. An exact day beyond the month is one of the next
month. A weekday is the first from a day on or the last up to a day, which may be beyond the month
as well, or the last of those in the month. -/
def Names (year month : Int) (date : Date) : DaySpec → Prop
  | exact day => date.dayNumber = Date.dayNumber ⟨year, month, day⟩ ∧
      date = if day ≤ daysInMonth year month then ⟨year, month, day⟩
        else ⟨year, month + 1, day - daysInMonth year month⟩
  | onOrAfter w day => IsLeast {n | Date.dayNumber ⟨year, month, day⟩ ≤ n ∧ weekday n = w}
      date.dayNumber
  | onOrBefore w day => IsGreatest {n | n ≤ Date.dayNumber ⟨year, month, day⟩ ∧ weekday n = w}
      date.dayNumber
  | last w => date.IsIn year month ∧
      IsGreatest {n | (Date.ofDayNumber n).IsIn year month ∧ weekday n = w} date.dayNumber

theorem IsInRange.ofColumns_columns (h : spec.IsInRange) :
    ofColumns spec.columns.1 spec.columns.2 = spec := by
  cases spec with
  | exact day => rfl
  | onOrAfter w day =>
    obtain ⟨⟨hw, -⟩, hday, -⟩ := h
    show ofColumns w day = onOrAfter w day
    unfold ofColumns
    rw [if_neg (by omega), if_pos (by omega)]
  | onOrBefore w day =>
    obtain ⟨⟨hw, -⟩, hday, -⟩ := h
    show ofColumns w (-day) = onOrBefore w day
    unfold ofColumns
    rw [if_neg (by omega), if_neg (by omega), if_pos (by omega), Int.neg_neg]
  | last w =>
    obtain ⟨hw, -⟩ := h
    show ofColumns w 0 = last w
    unfold ofColumns
    rw [if_neg (by omega), if_neg (by omega), if_neg (by omega)]

theorem isValid_resolve (hpos : 1 ≤ month) (hle : month ≤ 12) (spec : DaySpec) (year : Int) :
    (spec.resolve year month).IsValid := by
  unfold resolve
  dsimp only
  split
  · rename_i hday
    exact ⟨hpos, hle, hday.1, hday.2⟩
  · exact Date.isValid_ofDayNumber _

theorem resolve_of_mem
    (h : 1 ≤ spec.day year month ∧ spec.day year month ≤ daysInMonth year month) :
    spec.resolve year month = ⟨year, month, spec.day year month⟩ :=
  if_pos h

theorem names_exact (hpos : 1 ≤ month) (hle : month ≤ 12) (hday : 1 ≤ day ∧ day ≤ 31) (year : Int) :
    (exact day).Names year month ((exact day).resolve year month) := by
  refine ⟨dayNumber_resolve _ _ _, ?_⟩
  by_cases hin : day ≤ daysInMonth year month
  · rw [if_pos hin]
    exact resolve_of_mem ⟨hday.1, hin⟩
  · have hlength := daysInMonth_bounds year month
    have hnext := daysInMonth_bounds year (month + 1)
    have hdecember : month ≠ 12 := by
      rintro rfl
      exact hin hday.2
    have hvalid : (⟨year, month + 1, day - daysInMonth year month⟩ : Date).IsValid := by
      constructor <;> dsimp only <;> omega
    have hnumber := dayNumber_nextMonth hpos hle year (day - daysInMonth year month)
    rw [show daysInMonth year month + (day - daysInMonth year month) = day by omega] at hnumber
    have hresolve : (exact day).resolve year month =
        Date.ofDayNumber (Date.dayNumber ⟨year, month, day⟩) := if_neg fun h => hin h.2
    rw [if_neg hin, hresolve, hnumber, Date.ofDayNumber_dayNumber hvalid]

theorem names_last (hpos : 1 ≤ month) (hle : month ≤ 12) (hw : 1 ≤ w ∧ w ≤ 7) (year : Int) :
    (last w).Names year month ((last w).resolve year month) := by
  have hbounds := dayOnOrBefore_bounds year month w (daysInMonth year month)
  have hlength := daysInMonth_bounds year month
  have hresolve : (last w).resolve year month = ⟨year, month, lastDay year month w⟩ := by
    apply resolve_of_mem
    show 1 ≤ dayOnOrBefore year month w (daysInMonth year month) ∧
      dayOnOrBefore year month w (daysInMonth year month) ≤ daysInMonth year month
    omega
  have hvalid := isValid_resolve hpos hle (last w) year
  have hgreatest := isGreatest_weekday hw.1 hw.2
    (Date.dayNumber ⟨year, month, daysInMonth year month⟩)
  rw [← dayNumber_dayOnOrBefore] at hgreatest
  rw [hresolve] at hvalid ⊢
  refine ⟨⟨rfl, rfl⟩, ⟨?_, hgreatest.1.2⟩, ?_⟩
  · show (Date.ofDayNumber _).IsIn year month
    rw [Date.ofDayNumber_dayNumber hvalid]
    exact ⟨rfl, rfl⟩
  · rintro n ⟨⟨hyear, hmonth⟩, hweekday⟩
    apply hgreatest.2
    refine ⟨?_, hweekday⟩
    -- a day of the month comes no later than its last
    have hday := (Date.isValid_ofDayNumber n).day_le
    have hnumber := Date.dayNumber_ofDayNumber n
    rw [hyear, hmonth] at hday
    rw [← hnumber, Date.dayNumber_eq, Date.dayNumber_eq]
    unfold Date.monthNumber
    dsimp only
    rw [hyear, hmonth]
    omega

/-- **A day specification in range resolves to the date that it names.** -/
theorem IsInRange.names_resolve (h : spec.IsInRange) (hpos : 1 ≤ month) (hle : month ≤ 12)
    (year : Int) : spec.Names year month (spec.resolve year month) := by
  cases spec with
  | exact day => exact names_exact hpos hle h year
  | onOrAfter w day =>
    obtain ⟨hw, -⟩ := h
    show IsLeast _ _
    rw [dayNumber_resolve]
    exact dayNumber_dayOnOrAfter year month w day ▸ isLeast_weekday hw.1 hw.2 _
  | onOrBefore w day =>
    obtain ⟨hw, -⟩ := h
    show IsGreatest _ _
    rw [dayNumber_resolve]
    exact dayNumber_dayOnOrBefore year month w day ▸ isGreatest_weekday hw.1 hw.2 _
  | last w => exact names_last hpos hle h year

end DaySpec

end ZoneTables
