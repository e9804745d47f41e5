import ZoneTables.Proofs.Calendar.DaySpec
import ZoneTables.Proofs.Source.Contents

/-!
# Dates that are read

Months are read as numbers from 1 to 12, and days as specifications in range, which resolve to the
dates that they name (`isDated_of_ofSources`, `resolve_readDay`). The end of a zone line is not
before the year ahead of the one that is written (`le_localYear_of_readEnding`): its day and its
time may lie outside that year, but not by much. A line with a year from -9999 on is therefore
ordinary (`isOrdinary_of_readZoneLine`).
-/

namespace ZoneTables

/-- The month is one of the year, and the day is in range. -/
structure Rule.IsDated (r : Rule) : Prop where
  one_le_month : 1 ≤ r.month
  month_le : r.month ≤ 12
  on : r.on.IsInRange

/-- The offset and the amount are at most 26 hours, and the line does not end before the year
-10000. -/
structure ZoneLine.IsOrdinary (l : ZoneLine) : Prop where
  stdoff : l.stdoff.natAbs ≤ 93600
  amount : ∀ amount, l.saving = .fixed amount → amount.natAbs ≤ 93600
  ending : -10000 ≤ localYear l.ending l.stdoff

/-- The time of day and the amount are at most 26 hours. -/
structure Rule.IsOrdinary (r : Rule) : Prop where
  time : r.time.natAbs ≤ 93600
  save : r.save.natAbs ≤ 93600

instance (l : ZoneLine) : Decidable l.IsOrdinary :=
  decidable_of_iff (l.stdoff.natAbs ≤ 93600 ∧
      (∀ amount, l.saving = .fixed amount → amount.natAbs ≤ 93600) ∧
      -10000 ≤ localYear l.ending l.stdoff)
    ⟨fun h => ⟨h.1, h.2.1, h.2.2⟩, fun h => ⟨h.stdoff, h.amount, h.ending⟩⟩

instance (r : Rule) : Decidable r.IsOrdinary :=
  decidable_of_iff (r.time.natAbs ≤ 93600 ∧ r.save.natAbs ≤ 93600)
    ⟨fun h => ⟨h.1, h.2⟩, fun h => ⟨h.time, h.save⟩⟩

namespace Source

open Text

variable {text : List Char} {month : Int} {spec : DaySpec} {toMinutes : Bool}

theorem readMonth_bounds (h : readMonth text = .ok month) : 1 ≤ month ∧ month ≤ 12 := by
  unfold readMonth at h
  dsimp only at h
  split at h
  · rename_i i hi
    cases h
    split at hi
    · cases hi
    · obtain ⟨hlt, -⟩ := List.findIdx?_eq_some_iff_getElem.1 hi
      change i < 12 at hlt
      omega
  · cases h

theorem readWeekday_bounds {weekday : Int} (h : readWeekday text = .ok weekday) :
    1 ≤ weekday ∧ weekday ≤ 7 := by
  unfold readWeekday at h
  dsimp only at h
  split at h
  · rename_i i hi
    cases h
    obtain ⟨hlt, -⟩ := List.findIdx?_eq_some_iff_getElem.1 hi
    change i < 7 at hlt
    omega
  · cases h

theorem readDayOfMonth_bounds {digits : List Char} {day : Int}
    (h : readDayOfMonth text digits = .ok day) : 1 ≤ day ∧ day ≤ 31 := by
  obtain ⟨n, -, h⟩ := exists_of_bind_eq_ok h
  split at h
  · rename_i hbounds
    cases h
    exact hbounds
  · cases h

theorem readComparison_bounds {before after : List Char} {weekday day : Int}
    (h : readComparison text before after = .ok (weekday, day)) :
    (1 ≤ weekday ∧ weekday ≤ 7) ∧ 1 ≤ day ∧ day ≤ 31 := by
  obtain ⟨w, hw, h⟩ := exists_of_bind_eq_ok h
  dsimp only at h
  split at h
  · cases h
  · obtain ⟨d, hd, h⟩ := exists_of_bind_eq_ok h
    cases h
    exact ⟨readWeekday_bounds hw, readDayOfMonth_bounds hd⟩

/-- **Days are read in range.** -/
theorem isInRange_of_readDay (h : readDay text = .ok spec) : spec.IsInRange := by
  unfold readDay at h
  split at h
  · obtain ⟨day, hday, rfl⟩ := exists_of_map_eq_ok h
    exact readDayOfMonth_bounds hday
  · split at h
    · obtain ⟨weekday, hweekday, rfl⟩ := exists_of_map_eq_ok h
      exact readWeekday_bounds hweekday
    · split at h
      · obtain ⟨⟨weekday, day⟩, hboth, rfl⟩ := exists_of_map_eq_ok h
        exact readComparison_bounds hboth
      · obtain ⟨⟨weekday, day⟩, hboth, rfl⟩ := exists_of_map_eq_ok h
        exact readComparison_bounds hboth
      · cases h

/-- **A day that is read resolves to the date that it names**, in every month of every year, and is
told by its two columns. -/
theorem resolve_readDay (h : readDay text = .ok spec) (hpos : 1 ≤ month) (hle : month ≤ 12)
    (year : Int) :
    (spec.resolve year month).IsValid ∧ spec.Names year month (spec.resolve year month) ∧
      DaySpec.ofColumns spec.columns.1 spec.columns.2 = spec := by
  have hrange := isInRange_of_readDay h
  exact ⟨DaySpec.isValid_resolve hpos hle spec year, hrange.names_resolve hpos hle year,
    hrange.ofColumns_columns⟩

/-- The Friday on or before the first of a March, which is a leap day. -/
theorem resolve_readDay_leapDay :
    readDay "Fri<=1".toList = .ok (.onOrBefore 6 1) ∧
      (DaySpec.onOrBefore 6 1).resolve (-20) 3 = ⟨-20, 2, 29⟩ ∧
      (⟨-20, 2, 29⟩ : Date).IsValid ∧ (DaySpec.onOrBefore 6 1).Names (-20) 3 ⟨-20, 2, 29⟩ := by
  have hread : readDay "Fri<=1".toList = .ok (.onOrBefore 6 1) := by decide
  have hdate : (DaySpec.onOrBefore 6 1).resolve (-20) 3 = ⟨-20, 2, 29⟩ := by decide
  obtain ⟨hvalid, hnames, -⟩ := resolve_readDay hread (by decide : 1 ≤ (3 : Int)) (by decide) (-20)
  rw [hdate] at hvalid hnames
  exact ⟨hread, hdate, hvalid, hnames⟩

/-- **The rules of a database are dated.** -/
theorem isDated_of_ofSources {options : Options} {sources : Registry String}
    {names : Option (List String)} {log : Log} {db : Database}
    (h : Database.ofSources options sources names = (log, .ok db)) :
    db.Holds (fun _ => True) Rule.IsDated := by
  refine holds_of_ofSources (fun cs line => Line.holds_of_read ?_ ?_) h
  · exact fun _ _ _ _ => trivial
  · intro fields r _ hr
    obtain ⟨⟨month, -, hmonth⟩, ⟨day, -, hday⟩, -⟩ := isReadFrom_of_readRule hr
    obtain ⟨hpos, hle⟩ := readMonth_bounds hmonth
    exact ⟨hpos, hle, isInRange_of_readDay hday⟩

/-! ## The end of a zone line -/

theorem natAbs_roundIf_sub (toMinutes : Bool) (seconds : Int) :
    (roundIf toMinutes seconds - seconds).natAbs ≤ 30 := by
  unfold roundIf
  split
  · unfold roundToMinute
    dsimp only
    split <;> omega
  · simp

theorem le_localYear_of_le_dayNumber {date : Date} {stdoff seconds year : Int}
    (hdate : Date.dayNumber ⟨year, 1, -5⟩ ≤ date.dayNumber) (hstdoff : stdoff.natAbs ≤ 93600)
    (hseconds : seconds.natAbs ≤ 93630) (clock : Clock) :
    year - 1 ≤ localYear (if clock = .universal then date.seconds seconds
      else date.seconds seconds - stdoff) stdoff := by
  have hday : Date.dayNumber ⟨year - 1, 1, 1⟩ ≤ ((if clock = .universal then date.seconds seconds
      else date.seconds seconds - stdoff) + stdoff) / secondsPerDay := by
    have hyears := dayNumber_january_lt year
    unfold Date.seconds secondsPerDay
    split <;> omega
  have hyear := Date.year_ofDayNumber_mono hday
  rwa [Date.ofDayNumber_dayNumber (isValid_january _)] at hyear

/-- **The end of a line** is a time on a date of the year that is written, or shortly before it. The
time is rounded, and zero if none is written. -/
theorem exists_of_readEnding {stdoff ending : Int} {year : List Char} {rest : List (List Char)}
    {clock : Clock} (h : readEnding stdoff toMinutes year rest = .ok (ending, clock)) :
    ∃ (y : Int) (date : Date) (seconds : Int), readYear year = .ok y ∧
      Date.dayNumber ⟨y, 1, -5⟩ ≤ date.dayNumber ∧
      (ending = if clock = .universal then date.seconds seconds
        else date.seconds seconds - stdoff) ∧
      ((rest[2]? = none ∧ seconds = 0) ∨
        ∃ field face suffix time, rest[2]? = some field ∧ splitSuffix field = .ok (face, suffix) ∧
          readTime face = .ok time ∧ roundIf toMinutes time = seconds) := by
  have hfirst (y month : Int) (hpos : 1 ≤ month) :
      Date.dayNumber ⟨y, 1, -5⟩ ≤ Date.dayNumber ⟨y, month, 1⟩ := by
    have hrange : (DaySpec.exact 1).IsInRange := ⟨by decide, by decide⟩
    have hle := hrange.le_dayNumber_resolve hpos y
    rw [DaySpec.dayNumber_resolve] at hle
    exact hle
  unfold readEnding at h
  dsimp only at h
  split at h
  · cases h
  rename_i hlength
  obtain ⟨y, hy, h⟩ := exists_of_bind_eq_ok h
  match rest, hlength with
  | [], _ =>
    cases h
    exact ⟨y, _, 0, hy, hfirst y 1 (by decide), rfl, Or.inl ⟨rfl, rfl⟩⟩
  | [month], _ =>
    obtain ⟨m, hm, h⟩ := exists_of_bind_eq_ok h
    cases h
    exact ⟨y, _, 0, hy, hfirst y m (readMonth_bounds hm).1, rfl, Or.inl ⟨rfl, rfl⟩⟩
  | [month, day], _ =>
    obtain ⟨m, hm, h⟩ := exists_of_bind_eq_ok h
    obtain ⟨date, hdate, h⟩ := exists_of_bind_eq_ok h
    obtain ⟨spec, hspec, rfl⟩ := exists_of_map_eq_ok hdate
    cases h
    have hle := (isInRange_of_readDay hspec).le_dayNumber_resolve (readMonth_bounds hm).1 y
    exact ⟨y, _, 0, hy, hle, rfl, Or.inl ⟨rfl, rfl⟩⟩
  | [month, day, time], _ =>
    obtain ⟨m, hm, h⟩ := exists_of_bind_eq_ok h
    obtain ⟨date, hdate, h⟩ := exists_of_bind_eq_ok h
    obtain ⟨spec, hspec, rfl⟩ := exists_of_map_eq_ok hdate
    obtain ⟨⟨face, suffix⟩, hsplit, h⟩ := exists_of_bind_eq_ok h
    obtain ⟨seconds, hseconds, h⟩ := exists_of_bind_eq_ok h
    cases h
    have hle := (isInRange_of_readDay hspec).le_dayNumber_resolve (readMonth_bounds hm).1 y
    exact ⟨y, _, _, hy, hle, rfl,
      Or.inr ⟨time, face, suffix, seconds, rfl, hsplit, hseconds, rfl⟩⟩
  | _ :: _ :: _ :: _ :: _, hlength => simp at hlength

/-- **A line ends at the earliest in the year before the one that is written**, with a standard
offset and a time of at most 26 hours. -/
theorem le_localYear_of_readEnding {stdoff ending : Int} {year : List Char}
    {rest : List (List Char)} {clock : Clock}
    (h : readEnding stdoff toMinutes year rest = .ok (ending, clock))
    (hstdoff : stdoff.natAbs ≤ 93600)
    (htime : ∀ text ∈ rest[2]?, ∀ face suffix time, splitSuffix text = .ok (face, suffix) →
      readTime face = .ok time → time.natAbs ≤ 93600) :
    ∃ y, readYear year = .ok y ∧ y - 1 ≤ localYear ending stdoff := by
  obtain ⟨y, date, seconds, hy, hdate, rfl, hseconds⟩ := exists_of_readEnding h
  refine ⟨y, hy, le_localYear_of_le_dayNumber hdate hstdoff ?_ clock⟩
  rcases hseconds with ⟨-, rfl⟩ | ⟨field, face, suffix, time, hfield, hsplit, hread, rfl⟩
  · decide
  · have hbound := htime field hfield face suffix time hsplit hread
    have hrounded := natAbs_roundIf_sub toMinutes time
    omega

/-- **A line whose end is written in the year -9999 or later is ordinary**, with an offset, an
amount and a time of at most 26 hours. -/
theorem isOrdinary_of_readZoneLine {line : List Char} {fields : List (List Char)} {l : ZoneLine}
    (h : readZoneLine toMinutes line fields = .ok l) (hstdoff : l.stdoff.natAbs ≤ 93600)
    (hamount : ∀ amount, l.saving = .fixed amount → amount.natAbs ≤ 93600)
    (hyear : ∀ text ∈ fields[3]?, ∀ year, readYear text = .ok year → -9999 ≤ year)
    (htime : ∀ text ∈ fields[6]?, ∀ face suffix time, splitSuffix text = .ok (face, suffix) →
      readTime face = .ok time → time.natAbs ≤ 93600) : l.IsOrdinary := by
  refine ⟨hstdoff, hamount, ?_⟩
  unfold readZoneLine at h
  split at h
  · obtain ⟨stdoff, -, h⟩ := exists_of_bind_eq_ok h
    obtain ⟨amount, -, h⟩ := exists_of_bind_eq_ok h
    dsimp only at h
    split at h
    · -- without an end
      cases h
      have hoffset : (roundIf toMinutes stdoff).natAbs ≤ 93600 := hstdoff
      have hday : 0 ≤ (endOfTime + roundIf toMinutes stdoff) / secondsPerDay := by
        unfold endOfTime secondsPerDay
        omega
      exact Int.le_trans (by decide) (Date.year_ofDayNumber_mono hday)
    · obtain ⟨⟨ending, clock⟩, hending, h⟩ := exists_of_bind_eq_ok h
      cases h
      obtain ⟨y, hy, hle⟩ := le_localYear_of_readEnding (eq_ok_of_liftM hending) hstdoff htime
      have hbound := hyear _ rfl y hy
      exact Int.le_trans (by omega) hle
  · cases h

end Source
end ZoneTables
