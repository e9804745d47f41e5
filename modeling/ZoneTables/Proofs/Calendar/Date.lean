import Mathlib.Tactic.IntervalCases
import ZoneTables.Calendar.LocalTime

/-!
# Days and dates

A year that starts in March has the days from `daysBeforeYear` of it to that of the next, within its
400 years (`daysBeforeYear_le`, `lt_daysBeforeYear_succ`). The months, counted from a March on,
follow one another without a gap (`daysBeforeMonth_add_daysInMonth`), so that the numbers of valid
dates are in the order of the dates (`before_iff`). The date of a day is valid
(`isValid_ofDayNumber`) and has its number (`dayNumber_ofDayNumber`), and is the only such date.
Hence days and valid dates are the same in their orders, and local time is the instant and the
offset once more (`dayNumber_orderIso`).
-/

namespace ZoneTables
namespace Date

variable {a b d : Date} {day month year m n : Int}

/-- The month is one of the year, and the day one of the month. -/
structure IsValid (d : Date) : Prop where
  one_le_month : 1 ≤ d.month
  month_le : d.month ≤ 12
  one_le_day : 1 ≤ d.day
  day_le : d.day ≤ daysInMonth d.year d.month

instance (d : Date) : Decidable d.IsValid :=
  decidable_of_iff (1 ≤ d.month ∧ d.month ≤ 12 ∧ 1 ≤ d.day ∧ d.day ≤ daysInMonth d.year d.month)
    ⟨fun ⟨h1, h2, h3, h4⟩ => ⟨h1, h2, h3, h4⟩, fun ⟨h1, h2, h3, h4⟩ => ⟨h1, h2, h3, h4⟩⟩

/-! ## Years within 400 years -/

/-- The year, among the 400 that start in March, of a day of them. -/
def yearOfEra (day : Int) : Int := (day - day / 1460 + day / 36524 - day / 146096) / 365

/-- The days of the 400 years before one of them. -/
def daysBeforeYear (year : Int) : Int := 365 * year + year / 4 - year / 100

theorem yearOfEra_le_succ {day : Int} (h0 : 0 ≤ day) (h1 : day < 146096) :
    yearOfEra day ≤ yearOfEra (day + 1) := by
  refine Int.ediv_le_ediv (by omega) ?_
  have h1460 : (day + 1) / 1460 ≤ day / 1460 + 1 := by omega
  have h36524 : day / 36524 ≤ (day + 1) / 36524 := by omega
  by_cases hlast : day = 146095
  · subst hlast
    decide
  · have h146096 : day / 146096 = 0 ∧ (day + 1) / 146096 = 0 := by omega
    omega

theorem yearOfEra_mono {a b : Int} (h0 : 0 ≤ a) (hab : a ≤ b) (h1 : b ≤ 146096) :
    yearOfEra a ≤ yearOfEra b := by
  induction b, hab using Int.leInduction with
  | base => exact Int.le_refl _
  | succ b hb ih => exact Int.le_trans (ih (by omega)) (yearOfEra_le_succ (by omega) (by omega))

theorem yearOfEra_daysBeforeYear : ∀ year < 400,
    yearOfEra (daysBeforeYear (year : Nat)) = year ∧
      yearOfEra (daysBeforeYear ((year : Nat) + 1) - 1) = year := by
  decide +kernel

theorem yearOfEra_bounds {day : Int} (h0 : 0 ≤ day) (h1 : day ≤ 146096) :
    0 ≤ yearOfEra day ∧ yearOfEra day ≤ 399 :=
  ⟨yearOfEra_mono (Int.le_refl 0) h0 h1, yearOfEra_mono h0 h1 (Int.le_refl _)⟩

theorem daysBeforeYear_le {day : Int} (h0 : 0 ≤ day) (h1 : day ≤ 146096) :
    daysBeforeYear (yearOfEra day) ≤ day := by
  obtain ⟨hlow, hhigh⟩ := yearOfEra_bounds h0 h1
  by_contra hlt
  have hpos : yearOfEra day ≠ 0 := by
    intro hzero
    rw [hzero] at hlt
    exact hlt h0
  obtain ⟨year, hyear⟩ : ∃ year : Nat, yearOfEra day = year + 1 :=
    ⟨(yearOfEra day - 1).toNat, by omega⟩
  rw [hyear] at hlt
  have hlast := (yearOfEra_daysBeforeYear year (by omega)).2
  have hbound : daysBeforeYear ((year : Int) + 1) ≤ 146096 := by
    unfold daysBeforeYear
    omega
  have hmono := yearOfEra_mono h0 (Int.le_sub_one_of_lt (Int.not_le.1 hlt)) (by omega)
  omega

/-- Every day comes before the next year, but for the last of the 400 years. -/
theorem lt_daysBeforeYear_succ {day : Int} (h0 : 0 ≤ day) (h1 : day ≤ 146096) :
    day < daysBeforeYear (yearOfEra day + 1) ∨ yearOfEra day = 399 := by
  obtain ⟨hlow, hhigh⟩ := yearOfEra_bounds h0 h1
  by_contra hnot
  obtain ⟨hle, hne⟩ := not_or.1 hnot
  obtain ⟨year, hyear⟩ : ∃ year : Nat, yearOfEra day + 1 = year :=
    ⟨(yearOfEra day + 1).toNat, by omega⟩
  rw [hyear] at hle
  have hfirst := (yearOfEra_daysBeforeYear year (by omega)).1
  have hnonneg : 0 ≤ daysBeforeYear year := by
    unfold daysBeforeYear
    omega
  have hmono := yearOfEra_mono hnonneg (Int.not_lt.1 hle) h1
  omega

theorem sub_daysBeforeYear_bounds {day : Int} (h0 : 0 ≤ day) (h1 : day ≤ 146096) :
    0 ≤ day - daysBeforeYear (yearOfEra day) ∧ day - daysBeforeYear (yearOfEra day) ≤ 365 := by
  have hle := daysBeforeYear_le h0 h1
  rcases lt_daysBeforeYear_succ h0 h1 with hlt | hlast
  · unfold daysBeforeYear at *
    omega
  · rw [hlast] at hle ⊢
    unfold daysBeforeYear at *
    omega

/-! ## Months in order -/

/-- The number of the month of a date. Month zero is March of the year zero. -/
def monthNumber (d : Date) : Int := 12 * d.year + d.month - 3

/-- The days from 0000-03-01 to the first of a month. -/
def daysBeforeMonth (m : Int) : Int :=
  365 * (m / 12) + m / 12 / 4 - m / 12 / 100 + m / 12 / 400 + (153 * (m % 12) + 2) / 5

theorem dayNumber_eq (d : Date) :
    d.dayNumber = daysBeforeMonth d.monthNumber + d.day - 1 - epochShift := by
  have hyear : d.monthNumber / 12 = if (d.month - 1) % 12 + 1 ≤ 2
      then d.year + (d.month - 1) / 12 - 1 else d.year + (d.month - 1) / 12 := by
    unfold monthNumber
    split <;> omega
  have hmonth : d.monthNumber % 12 = ((d.month - 1) % 12 + 1 + 9) % 12 := by
    unfold monthNumber
    omega
  unfold dayNumber daysBeforeMonth daysPer400Years
  rw [hyear, hmonth]
  dsimp only
  generalize (if (d.month - 1) % 12 + 1 ≤ 2 then d.year + (d.month - 1) / 12 - 1
    else d.year + (d.month - 1) / 12) = y
  -- 400 years have 97 leap days
  omega

/-- A leap day ends the year that starts in March. -/
theorem daysInMonth_february (year : Int) :
    daysInMonth year 2 = 28 + if year % 4 = 0 ∧ (year % 100 ≠ 0 ∨ year % 400 = 0) then 1 else 0 := by
  have hleap : isLeapYear year = true ↔
      year % 4 = 0 ∧ (year % 100 ≠ 0 ∨ year % 400 = 0) := by
    simp [isLeapYear]
  simp only [daysInMonth, hleap, true_and]
  split <;> rfl

theorem daysInMonth_of_ne (hmonth : month ≠ 2) :
    daysInMonth year month = monthLengths.getD ((month - 1) % 12).toNat 0 := by
  rw [daysInMonth, if_neg fun h => hmonth h.1]

/-- **A month is followed by the next.** -/
theorem daysBeforeMonth_add_daysInMonth (year : Int) (hpos : 1 ≤ month) (hle : month ≤ 12) :
    daysBeforeMonth (12 * year + month - 3) + daysInMonth year month =
      daysBeforeMonth (12 * year + month - 2) := by
  unfold daysBeforeMonth
  by_cases hmonth : month = 2
  · subst hmonth
    rw [daysInMonth_february]
    split <;> omega
  · -- the next month is of the same year
    have hnext : (12 * year + month - 2) / 12 = (12 * year + month - 3) / 12 ∧
        (12 * year + month - 2) % 12 = (month + 9) % 12 + 1 := by omega
    have hsame : (12 * year + month - 3) % 12 = (month + 9) % 12 := by omega
    have hlength : monthLengths.getD ((month - 1) % 12).toNat 0 =
        (153 * ((month + 9) % 12 + 1) + 2) / 5 - (153 * ((month + 9) % 12) + 2) / 5 := by
      interval_cases month
      all_goals first | rfl | exact absurd rfl hmonth
    rw [daysInMonth_of_ne hmonth, hlength, hnext.1, hnext.2, hsame]
    omega

theorem IsValid.lt_daysBeforeMonth (h : d.IsValid) :
    daysBeforeMonth d.monthNumber + d.day - 1 < daysBeforeMonth (d.monthNumber + 1) := by
  have hmonth := daysBeforeMonth_add_daysInMonth d.year h.one_le_month h.month_le
  have hle := h.day_le
  have hsucc : d.monthNumber + 1 = 12 * d.year + d.month - 2 := by
    unfold monthNumber
    omega
  rw [hsucc, ← hmonth]
  unfold monthNumber
  omega

theorem daysBeforeMonth_mono {k : Int} (h : k ≤ m) : daysBeforeMonth k ≤ daysBeforeMonth m := by
  unfold daysBeforeMonth
  by_cases hyear : k / 12 = m / 12
  · rw [hyear]
    omega
  · have hlt : k / 12 + 1 ≤ m / 12 := by omega
    have hyears : 365 * (k / 12) + k / 12 / 4 - k / 12 / 100 + k / 12 / 400 + 365 ≤
        365 * (m / 12) + m / 12 / 4 - m / 12 / 100 + m / 12 / 400 := by
      generalize k / 12 = y at hlt ⊢
      generalize m / 12 = z at hlt ⊢
      omega
    omega

/-! ## The order of dates -/

theorem before_iff_or : a.before b = true ↔
    a.year < b.year ∨ a.year = b.year ∧
      (a.month < b.month ∨ a.month = b.month ∧ a.day < b.day) := by
  simp [before]

theorem dayNumber_lt_of_before (ha : a.IsValid) (hb : b.IsValid) (h : a.before b = true) :
    a.dayNumber < b.dayNumber := by
  rw [dayNumber_eq, dayNumber_eq]
  have hlt := ha.lt_daysBeforeMonth
  obtain ⟨hpos, hle, -, -⟩ := ha
  obtain ⟨hpos', hle', hday, -⟩ := hb
  rw [before_iff_or] at h
  by_cases hsame : a.monthNumber = b.monthNumber
  · have hdays : a.day < b.day := by
      unfold monthNumber at hsame
      omega
    rw [hsame]
    omega
  · have hnext : a.monthNumber + 1 ≤ b.monthNumber := by
      unfold monthNumber at hsame ⊢
      omega
    have hmonths := daysBeforeMonth_mono hnext
    omega

theorem before_trichotomy (a b : Date) : a.before b = true ∨ a = b ∨ b.before a = true := by
  rw [before_iff_or, before_iff_or]
  have hext : a.year = b.year → a.month = b.month → a.day = b.day → a = b := by
    obtain ⟨year, month, day⟩ := a
    rintro rfl rfl rfl
    rfl
  by_contra! hne
  exact hne.2.1 (hext (by omega) (by omega) (by omega))

/-- **The numbers of valid dates are in the order of the dates.** -/
theorem before_iff (ha : a.IsValid) (hb : b.IsValid) :
    a.before b = true ↔ a.dayNumber < b.dayNumber := by
  refine ⟨dayNumber_lt_of_before ha hb, fun hlt => ?_⟩
  rcases before_trichotomy a b with hbefore | rfl | hafter
  · exact hbefore
  · omega
  · have := dayNumber_lt_of_before hb ha hafter
    omega

theorem eq_of_dayNumber_eq (ha : a.IsValid) (hb : b.IsValid) (h : a.dayNumber = b.dayNumber) :
    a = b := by
  rcases before_trichotomy a b with hbefore | heq | hafter
  · have := dayNumber_lt_of_before ha hb hbefore
    omega
  · exact heq
  · have := dayNumber_lt_of_before hb ha hafter
    omega

/-! ## The date of a day -/

/-- The date of a day of a year that starts in March; the first of March is day zero. -/
def ofDayOfYear (year day : Int) : Date :=
  let month := (5 * day + 2) / 153
  ⟨year + (if 10 ≤ month then 1 else 0), if month < 10 then month + 3 else month - 9,
    day - (153 * month + 2) / 5 + 1⟩

/-- A day is one of a year among 400 that start in March. -/
theorem exists_ofDayOfYear (n : Int) :
    ∃ era year day, ofDayNumber n = ofDayOfYear (400 * era + year) day ∧
      n + epochShift = daysPer400Years * era + daysBeforeYear year + day ∧
      (0 ≤ year ∧ year < 400) ∧ (0 ≤ day ∧ day ≤ 365) ∧
      (daysBeforeYear year + day < daysBeforeYear (year + 1) ∨
        year = 399 ∧ daysBeforeYear year + day < daysPer400Years) := by
  have h0 : 0 ≤ (n + epochShift) % daysPer400Years := Int.emod_nonneg _ (by decide)
  have h1 : (n + epochShift) % daysPer400Years < daysPer400Years := Int.emod_lt_of_pos _ (by decide)
  have hn := Int.mul_ediv_add_emod (n + epochShift) daysPer400Years
  have hmod : n + epochShift - (n + epochShift) / daysPer400Years * daysPer400Years =
      (n + epochShift) % daysPer400Years := by
    rw [Int.emod_def, Int.mul_comm]
  have hdate : ofDayNumber n = ofDayOfYear (400 * ((n + epochShift) / daysPer400Years) +
      yearOfEra ((n + epochShift) % daysPer400Years)) ((n + epochShift) % daysPer400Years -
        daysBeforeYear (yearOfEra ((n + epochShift) % daysPer400Years))) := by
    unfold ofDayNumber ofDayOfYear
    simp only [hmod]
    generalize (n + epochShift) % daysPer400Years = day at h0 h1 ⊢
    obtain ⟨hlow, hhigh⟩ := sub_daysBeforeYear_bounds h0 (Int.le_of_lt_add_one h1)
    unfold yearOfEra daysBeforeYear at *
    simp only [Date.mk.injEq, and_true]
    split_ifs <;> omega
  generalize (n + epochShift) % daysPer400Years = day at h0 h1 hn hdate
  have hlast : day ≤ 146096 := Int.le_of_lt_add_one h1
  refine ⟨_, _, _, hdate, by omega, ?_, sub_daysBeforeYear_bounds h0 hlast, ?_⟩
  · obtain ⟨hlow, hhigh⟩ := yearOfEra_bounds h0 hlast
    omega
  · rcases lt_daysBeforeYear_succ h0 hlast with hlt | hyear
    · left
      omega
    · right
      omega

theorem monthNumber_ofDayOfYear (year day : Int) :
    (ofDayOfYear year day).monthNumber = 12 * year + (5 * day + 2) / 153 := by
  unfold ofDayOfYear monthNumber
  dsimp only
  split_ifs <;> omega

theorem daysBeforeMonth_of_era {era : Int} (hyear : 0 ≤ year ∧ year < 400)
    (hmonth : 0 ≤ month ∧ month < 12) :
    daysBeforeMonth (12 * (400 * era + year) + month) =
      daysPer400Years * era + daysBeforeYear year + (153 * month + 2) / 5 := by
  have hdiv : (12 * (400 * era + year) + month) / 12 = 400 * era + year ∧
      (12 * (400 * era + year) + month) % 12 = month := by omega
  unfold daysBeforeMonth daysBeforeYear daysPer400Years
  rw [hdiv.1, hdiv.2]
  omega

/-- **The date of a day has that day's number.** -/
theorem dayNumber_ofDayNumber (n : Int) : (ofDayNumber n).dayNumber = n := by
  obtain ⟨era, year, day, hdate, hn, hyear, hday, -⟩ := exists_ofDayOfYear n
  rw [dayNumber_eq, hdate, monthNumber_ofDayOfYear, daysBeforeMonth_of_era hyear (by omega)]
  unfold ofDayOfYear
  dsimp only
  omega

theorem lt_daysBeforeMonth_ofDayNumber (n : Int) :
    n + epochShift < daysBeforeMonth ((ofDayNumber n).monthNumber + 1) := by
  obtain ⟨era, year, day, hdate, hn, hyear, hday, hnext⟩ := exists_ofDayOfYear n
  rw [hdate, monthNumber_ofDayOfYear]
  by_cases hmonth : (5 * day + 2) / 153 = 11
  · -- after February comes the first month of the next year
    have hfirst : (12 * (400 * era + year) + 11 + 1) / 12 = 400 * era + year + 1 ∧
        (12 * (400 * era + year) + 11 + 1) % 12 = 0 := by omega
    rw [hmonth, hn, daysBeforeMonth, hfirst.1, hfirst.2]
    unfold daysBeforeYear daysPer400Years at *
    omega
  · rw [Int.add_assoc, daysBeforeMonth_of_era hyear (by omega)]
    omega

/-- **The date of a day is valid.** -/
theorem isValid_ofDayNumber (n : Int) : (ofDayNumber n).IsValid := by
  have hnumber := dayNumber_ofDayNumber n
  have hnext := lt_daysBeforeMonth_ofDayNumber n
  obtain ⟨era, year, day, hdate, -, -, hday, -⟩ := exists_ofDayOfYear n
  have hmonth : 1 ≤ (ofDayNumber n).month ∧ (ofDayNumber n).month ≤ 12 := by
    rw [hdate, ofDayOfYear]
    dsimp only
    split_ifs <;> omega
  have hpos : 1 ≤ (ofDayNumber n).day := by
    rw [hdate, ofDayOfYear]
    dsimp only
    omega
  have hlength := daysBeforeMonth_add_daysInMonth (ofDayNumber n).year hmonth.1 hmonth.2
  refine ⟨hmonth.1, hmonth.2, hpos, ?_⟩
  rw [dayNumber_eq] at hnumber
  unfold monthNumber at hnumber hnext
  rw [show 12 * (ofDayNumber n).year + (ofDayNumber n).month - 3 + 1 =
    12 * (ofDayNumber n).year + (ofDayNumber n).month - 2 by omega] at hnext
  omega

/-- **A valid date is the date of the day with its number.** -/
theorem ofDayNumber_dayNumber (h : d.IsValid) : ofDayNumber d.dayNumber = d :=
  eq_of_dayNumber_eq (isValid_ofDayNumber _) h (dayNumber_ofDayNumber _)

theorem year_le_of_before (h : a.before b = true) : a.year ≤ b.year := by
  rw [before_iff_or] at h
  omega

/-- **Days are in the order of their dates.** -/
theorem before_ofDayNumber_iff : (ofDayNumber m).before (ofDayNumber n) = true ↔ m < n := by
  rw [before_iff (isValid_ofDayNumber m) (isValid_ofDayNumber n), dayNumber_ofDayNumber,
    dayNumber_ofDayNumber]

/-- **The year of a day never goes back.** -/
theorem year_ofDayNumber_mono (h : m ≤ n) : (ofDayNumber m).year ≤ (ofDayNumber n).year := by
  rcases Int.lt_or_eq_of_le h with hlt | rfl
  · exact year_le_of_before (before_ofDayNumber_iff.2 hlt)
  · exact Int.le_refl _

end Date

/-! ## Local time -/

theorem localDate_before_iff {a b p q : Int} :
    (localDate a p).before (localDate b q) = true ↔
      (a + p) / secondsPerDay < (b + q) / secondsPerDay :=
  Date.before_ofDayNumber_iff

/-- **The local year never goes back.** -/
theorem localYear_mono {a b : Int} (h : a ≤ b) (offset : Int) :
    localYear a offset ≤ localYear b offset :=
  Date.year_ofDayNumber_mono (Int.ediv_le_ediv (by decide) (by omega))

/-- The date is valid, and the time one of the day. -/
structure LocalTime.IsValid (t : LocalTime) : Prop where
  date : t.date.IsValid
  hour : 0 ≤ t.hour ∧ t.hour ≤ 23
  minute : 0 ≤ t.minute ∧ t.minute ≤ 59
  second : 0 ≤ t.second ∧ t.second ≤ 59

theorem isValid_localTime (instant offset : Int) : (localTime instant offset).IsValid := by
  have h0 : 0 ≤ (instant + offset) % secondsPerDay := Int.emod_nonneg _ (by decide)
  have h1 : (instant + offset) % secondsPerDay < 86400 := Int.emod_lt_of_pos _ (by decide)
  unfold localTime
  refine ⟨Date.isValid_ofDayNumber _, ?_, ?_, ?_⟩ <;> dsimp only <;> omega

/-- Local time tells the instant and the offset, taken together. -/
theorem seconds_localTime (instant offset : Int) :
    (localTime instant offset).date.seconds (((localTime instant offset).hour * 60 +
      (localTime instant offset).minute) * 60 + (localTime instant offset).second) =
        instant + offset := by
  have hsplit := Int.mul_ediv_add_emod (instant + offset) secondsPerDay
  unfold localTime Date.seconds
  dsimp only
  rw [Date.dayNumber_ofDayNumber]
  rw [Int.mul_comm] at hsplit
  omega

/-- **Days and valid dates are the same in their orders**: each day has a valid date with its
number, each valid date is that of its number, and an earlier date has a smaller number. Local time
is a valid date and a time of day that tell the instant and the offset, taken together. -/
theorem dayNumber_orderIso :
    (∀ n, (Date.ofDayNumber n).IsValid ∧ (Date.ofDayNumber n).dayNumber = n) ∧
    (∀ d : Date, d.IsValid → Date.ofDayNumber d.dayNumber = d) ∧
    (∀ a b : Date, a.IsValid → b.IsValid → (a.before b = true ↔ a.dayNumber < b.dayNumber)) ∧
    ∀ instant offset, (localTime instant offset).IsValid ∧
      (localTime instant offset).date.seconds (((localTime instant offset).hour * 60 +
        (localTime instant offset).minute) * 60 + (localTime instant offset).second) =
          instant + offset :=
  ⟨fun n => ⟨Date.isValid_ofDayNumber n, Date.dayNumber_ofDayNumber n⟩,
    fun _ => Date.ofDayNumber_dayNumber, fun _ _ => Date.before_iff,
    fun instant offset => ⟨isValid_localTime instant offset, seconds_localTime instant offset⟩⟩

/-- A leap day of a century before the year zero, and the day after it. -/
theorem dayNumber_leapDay :
    (⟨-400, 2, 29⟩ : Date).IsValid ∧ (⟨-400, 3, 1⟩ : Date).IsValid ∧
      Date.ofDayNumber (Date.dayNumber ⟨-400, 2, 29⟩) = ⟨-400, 2, 29⟩ ∧
      (Date.before ⟨-400, 2, 29⟩ ⟨-400, 3, 1⟩ = true ↔
        Date.dayNumber ⟨-400, 2, 29⟩ < Date.dayNumber ⟨-400, 3, 1⟩) := by
  have hleap : (⟨-400, 2, 29⟩ : Date).IsValid := by decide
  have hnext : (⟨-400, 3, 1⟩ : Date).IsValid := by decide
  obtain ⟨-, hdate, horder, -⟩ := dayNumber_orderIso
  exact ⟨hleap, hnext, hdate _ hleap, horder _ _ hleap hnext⟩

end ZoneTables
