import Mathlib.Data.List.Forall2
import ZoneTables.Proofs.Source.Dates
import ZoneTables.Proofs.Text.Numeral

/-!
# Times that are read

A time is a sign and up to three numbers, each of which may have a sign of its own and is bounded
above only. Together they are at most 25:59:59, but nothing keeps them from being far below zero: a
time is in range unless its fields come out so (`isInRange_iff`). The times of a line are those of
its fields (`Line.times_of_read`), and the same holds of them (`times_inRange_iff`).
-/

namespace ZoneTables.Source

open Text

variable {text : List Char} {toMinutes : Bool} {x : Int}

/-! ## The fields of a time -/

/-- The hours, the minutes and the seconds that a text gives between colons. What it leaves out is
zero. -/
inductive IsClockFace (text : List Char) : Int → Int → Int → Prop
  | hours {h : List Char} {hour : Int} (hcut : cut (· == ':') text = [h])
      (hhour : Numeral.read h = .ok hour) : IsClockFace text hour 0 0
  | minutes {h m : List Char} {hour minute : Int} (hcut : cut (· == ':') text = [h, m])
      (hhour : Numeral.read h = .ok hour) (hminute : Numeral.read m = .ok minute) :
      IsClockFace text hour minute 0
  | seconds {h m s : List Char} {hour minute second : Int}
      (hcut : cut (· == ':') text = [h, m, s]) (hhour : Numeral.read h = .ok hour)
      (hminute : Numeral.read m = .ok minute) (hsecond : Numeral.read s = .ok second) :
      IsClockFace text hour minute second

/-- The fields of a text, none of which is too great, make up this many seconds. -/
def Amounts (text : List Char) (total : Int) : Prop :=
  ∃ hour minute second, IsClockFace text hour minute second ∧
    hour ≤ 25 ∧ minute ≤ 59 ∧ second ≤ 59 ∧ total = (hour * 60 + minute) * 60 + second

theorem toOption_eq_some {ε α : Type} {y : Except ε α} {a : α} :
    y.toOption = some a ↔ y = .ok a := by
  cases y <;> simp [Except.toOption]

theorem mapM_eq_some_iff_forall₂ {α β : Type} {f : α → Option β} {as : List α} {bs : List β} :
    as.mapM f = some bs ↔ List.Forall₂ (fun a b => f a = some b) as bs := by
  induction as generalizing bs with
  | nil => simp [List.forall₂_nil_left_iff, eq_comm]
  | cons a as ih =>
    simp only [List.mapM_cons, Option.bind_eq_bind, Option.bind_eq_some_iff, ih,
      List.forall₂_cons_left_iff, Option.pure_def, Option.some.injEq]
    constructor
    · rintro ⟨b, hb, bs, hbs, rfl⟩
      exact ⟨b, bs, hb, hbs, rfl⟩
    · rintro ⟨b, bs, hb, hbs, rfl⟩
      exact ⟨b, hb, bs, hbs, rfl⟩

/-- The numbers that are read between colons are the fields of the text, as far as they go. -/
theorem isClockFace_of_forall₂ {numbers : List Int}
    (h : List.Forall₂ (fun field n => (Numeral.read field).toOption = some n)
      (cut (· == ':') text) numbers)
    (hlength : (cut (· == ':') text).length ≤ 3) :
    IsClockFace text (numbers.getD 0 0) (numbers.getD 1 0) (numbers.getD 2 0) := by
  simp only [toOption_eq_some] at h
  generalize hcut : cut (· == ':') text = fields at h hlength
  cases h with
  | nil => exact absurd hcut (cut_ne_nil _ _)
  | cons hhour h =>
    cases h with
    | nil => exact .hours hcut hhour
    | cons hminute h =>
      cases h with
      | nil => exact .minutes hcut hhour hminute
      | cons hsecond h =>
        cases h with
        | nil => exact .seconds hcut hhour hminute hsecond
        | cons _ _ =>
          simp only [List.length_cons] at hlength
          omega

theorem readClockFace?_eq_some_iff : readClockFace? text = some x ↔ Amounts text x := by
  unfold readClockFace?
  constructor
  · intro h
    simp only [Option.bind_eq_bind] at h
    split at h
    · cases h
    rename_i hlength
    obtain ⟨-, -, h⟩ := Option.bind_eq_some_iff.1 h
    obtain ⟨numbers, hnumbers, h⟩ := Option.bind_eq_some_iff.1 h
    split at h
    · cases h
    rename_i hbounds
    simp only [not_or, Int.not_lt] at hbounds
    exact ⟨_, _, _, isClockFace_of_forall₂ (mapM_eq_some_iff_forall₂.1 hnumbers)
      (Nat.not_lt.1 hlength), hbounds.1, hbounds.2.1, hbounds.2.2, (Option.some.inj h).symm⟩
  · rintro ⟨hour, minute, second, hface, hhour, hminute, hsecond, rfl⟩
    cases hface with
    | hours hcut hh => simp [hcut, hh, Except.toOption, hhour]
    | minutes hcut hh hm => simp [hcut, hh, hm, Except.toOption, hhour, hminute]
    | seconds hcut hh hm hs => simp [hcut, hh, hm, hs, Except.toOption, hhour, hminute, hsecond]

/-- A number of seconds with the sign in front of a text. -/
def signed (text : List Char) (total : Int) : Int :=
  if text.head? = some '-' then -total else total

theorem signed_of_head?_ne (h : text.head? ≠ some '-') : signed text = id := by
  funext total
  exact if_neg h

theorem readSeconds?_eq (text : List Char) : readSeconds? text =
    ((readClockFace? (splitSign text).2).map (signed text)).filter (· != unreadableTime) := by
  unfold readSeconds?
  split
  · rfl
  · rfl
  · rw [signed_of_head?_ne (by simp), Option.map_id]
    rfl
  · rename_i hempty hminus hplus
    obtain ⟨c, r, rfl⟩ := List.exists_cons_of_ne_nil hempty
    have hm : c ≠ '-' := fun hc => hminus r (by rw [hc])
    have hp : c ≠ '+' := fun hc => hplus r (by rw [hc])
    rw [splitSign_cons hm hp, signed_of_head?_ne (by simpa using hm), Option.map_id]
    rfl

theorem readSeconds?_eq_some_iff : readSeconds? text = some x ↔
    ∃ total, Amounts (splitSign text).2 total ∧ signed text total = x ∧ x ≠ unreadableTime := by
  simp only [readSeconds?_eq, Option.filter_eq_some_iff, Option.map_eq_some_iff,
    readClockFace?_eq_some_iff, bne_iff_ne, ← exists_and_right, and_assoc]

/-! ## The range of a time -/

/-- At most 25:59:59, not above zero after a minus sign, and not below zero otherwise. -/
structure IsInRange (text : List Char) (x : Int) : Prop where
  natAbs_le : x.natAbs ≤ 93599
  nonpos : text.head? = some '-' → x ≤ 0
  nonneg : text.head? ≠ some '-' → 0 ≤ x

/-- The text is a time, but what its fields make up after the sign is below zero. -/
def IsBelowZero (text : List Char) : Prop :=
  ∃ total, Amounts (splitSign text).2 total ∧ total < 0 ∧ signed text total ≠ unreadableTime

theorem Amounts.le {total : Int} (h : Amounts text total) : total ≤ 93599 := by
  obtain ⟨hour, minute, second, -, hhour, hminute, hsecond, rfl⟩ := h
  omega

theorem Amounts.unique {total total' : Int} (h : Amounts text total) (h' : Amounts text total') :
    total = total' :=
  Option.some.inj ((readClockFace?_eq_some_iff.2 h).symm.trans (readClockFace?_eq_some_iff.2 h'))

theorem Amounts.nonneg {total : Int} (h : Amounts text total) (hminus : '-' ∉ text) :
    0 ≤ total := by
  obtain ⟨hour, minute, second, hface, -, -, -, rfl⟩ := h
  have hread {field : List Char} {n : Int} {fields : List (List Char)}
      (hcut : cut (· == ':') text = fields) (hfield : field ∈ fields)
      (hn : Numeral.read field = .ok n) : 0 ≤ n :=
    Numeral.nonneg_of_read hn fun hc => hminus (mem_of_mem_cut hc (hcut ▸ hfield))
  cases hface with
  | hours hcut hhour =>
    have h₁ := hread hcut (by simp) hhour
    omega
  | minutes hcut hhour hminute =>
    have h₁ := hread hcut (by simp) hhour
    have h₂ := hread hcut (by simp) hminute
    omega
  | seconds hcut hhour hminute hsecond =>
    have h₁ := hread hcut (by simp) hhour
    have h₂ := hread hcut (by simp) hminute
    have h₃ := hread hcut (by simp) hsecond
    omega

theorem isInRange_signed_iff {total : Int} (h : total ≤ 93599) :
    IsInRange text (signed text total) ↔ 0 ≤ total := by
  by_cases hhead : text.head? = some '-'
  · have hsigned : signed text total = -total := if_pos hhead
    rw [hsigned]
    constructor
    · intro hrange
      have hnonpos := hrange.nonpos hhead
      omega
    · intro hnonneg
      exact ⟨by omega, fun _ => by omega, fun hne => absurd hhead hne⟩
  · have hsigned : signed text total = total := if_neg hhead
    rw [hsigned]
    constructor
    · intro hrange
      exact hrange.nonneg hhead
    · intro hnonneg
      exact ⟨by omega, fun heq => absurd heq hhead, fun _ => hnonneg⟩

/-- **A time that is read is in range unless its fields come out below zero.** -/
theorem isInRange_iff (h : readSeconds? text = some x) : IsInRange text x ↔ ¬ IsBelowZero text := by
  obtain ⟨total, htotal, rfl, hreadable⟩ := readSeconds?_eq_some_iff.1 h
  rw [isInRange_signed_iff htotal.le, ← Int.not_lt, not_iff_not]
  constructor
  · intro hneg
    exact ⟨total, htotal, hneg, hreadable⟩
  · rintro ⟨total', htotal', hneg, -⟩
    rwa [htotal.unique htotal']

theorem exists_readSeconds?_of_isBelowZero (h : IsBelowZero text) :
    ∃ x, readSeconds? text = some x := by
  obtain ⟨total, htotal, -, hreadable⟩ := h
  exact ⟨_, readSeconds?_eq_some_iff.2 ⟨total, htotal, rfl, hreadable⟩⟩

theorem not_isBelowZero_of_notMem (h : '-' ∉ (splitSign text).2) : ¬ IsBelowZero text := by
  rintro ⟨total, htotal, hneg, -⟩
  exact absurd (htotal.nonneg h) (Int.not_le.2 hneg)

/-! ## The times of a line -/

/-- The text of an amount of daylight saving without the letter for its kind. -/
def saveFace (text : List Char) : List Char :=
  match text.getLast? with
  | some 's' | some 'd' => text.dropLast
  | _ => text

/-- The seconds in a rule, with the texts that they are read from: the time of day satisfies `P`,
and the amount of daylight saving `Q`. -/
structure RuleTimes (P Q : List Char → Int → Prop) (fields : List (List Char)) (r : Rule) :
    Prop where
  time : ∃ field face suffix, fields[6]? = some field ∧ splitSuffix field = .ok (face, suffix) ∧
    P face r.time
  save : ∃ field, fields[7]? = some field ∧ Q (saveFace field) r.save

/-- A zone line ends at a time on a date. -/
def EndsAt (l : ZoneLine) (date : Date) (seconds : Int) : Prop :=
  l.ending = if l.endingClock = .universal then date.seconds seconds
    else date.seconds seconds - l.stdoff

/-- The seconds in a zone line, with the texts that they are read from, satisfy `Q`: the offset, the
amount of daylight saving if it is fixed by a number, and the time at which the line ends if one is
given. -/
structure ZoneLineTimes (Q : List Char → Int → Prop) (fields : List (List Char)) (l : ZoneLine) :
    Prop where
  stdoff : ∃ field, fields[0]? = some field ∧ Q field l.stdoff
  amount : ∀ amount, l.saving = .fixed amount →
    (fields[1]? = some ['-'] ∧ amount = 0) ∨ ∃ field, fields[1]? = some field ∧ Q field amount
  ending : (fields[3]? = none ∧ l.ending = endOfTime) ∨
    ∃ date seconds, EndsAt l date seconds ∧
      ((fields[6]? = none ∧ seconds = 0) ∨
        ∃ field face suffix, fields[6]? = some field ∧ splitSuffix field = .ok (face, suffix) ∧
          Q face seconds)

/-- The seconds in a line, with the texts that they are read from: `P` holds of times of day in
rules, and `Q` of all others. -/
def Line.Times (P Q : List Char → Int → Prop) (cs : List Char) : Line → Prop
  | .rule r => RuleTimes P Q ((words cs).drop 1) r
  | .link _ _ => True
  | .zone _ l => ZoneLineTimes Q ((words cs).drop 2) l
  | .continuation l => ZoneLineTimes Q (words cs) l

/-- The text is a time of this many seconds. -/
def IsTime (text : List Char) (x : Int) : Prop := readSeconds? text = some x

/-- The text is a time of this many seconds, rounded if that is asked for. -/
def IsRounded (toMinutes : Bool) (text : List Char) (x : Int) : Prop :=
  ∃ seconds, IsTime text seconds ∧ roundIf toMinutes seconds = x

theorem isTime_of_readTime (h : readTime text = .ok x) : IsTime text x := by
  unfold readTime at h
  split at h
  · rename_i hx
    cases h
    exact hx
  · cases h

theorem ruleTimes_of_readRule {cs : List Char} {fields : List (List Char)} {r : Rule}
    (h : readRule toMinutes cs fields = .ok r) :
    RuleTimes IsTime (IsRounded toMinutes) fields r := by
  unfold readRule at h
  split at h
  · rename_i name first last sign month day time save rest
    dsimp only at h
    split at h
    · cases h
    obtain ⟨fromYear, -, h⟩ := exists_of_bind_eq_ok h
    obtain ⟨toYear, -, h⟩ := exists_of_bind_eq_ok h
    split at h
    · cases h
    obtain ⟨inMonth, -, h⟩ := exists_of_bind_eq_ok h
    obtain ⟨on, -, h⟩ := exists_of_bind_eq_ok h
    obtain ⟨⟨face, suffix⟩, hsplit, h⟩ := exists_of_bind_eq_ok h
    obtain ⟨seconds, hseconds, h⟩ := exists_of_bind_eq_ok h
    obtain ⟨amount, hamount, h⟩ := exists_of_bind_eq_ok h
    obtain ⟨exact, hexact, hround⟩ := exists_of_map_eq_ok (eq_ok_of_liftM hamount)
    cases h
    exact ⟨⟨time, face, suffix, rfl, eq_ok_of_liftM hsplit,
        isTime_of_readTime (eq_ok_of_liftM hseconds)⟩,
      ⟨save, rfl, exact, isTime_of_readTime hexact, hround⟩⟩
  · cases h

theorem amount_of_readSaving {amount : Int} (h : readSaving toMinutes text = .ok (.fixed amount)) :
    (text = ['-'] ∧ amount = 0) ∨ IsRounded toMinutes text amount := by
  unfold readSaving at h
  split at h
  · cases h
    exact Or.inl ⟨rfl, rfl⟩
  · split at h
    · obtain ⟨seconds, hseconds, heq⟩ := exists_of_map_eq_ok h
      exact Or.inr ⟨seconds, isTime_of_readTime hseconds, Saving.fixed.inj heq⟩
    · cases h
  · cases h

theorem zoneLineTimes_of_readZoneLine {cs : List Char} {fields : List (List Char)} {l : ZoneLine}
    (h : readZoneLine toMinutes cs fields = .ok l) :
    ZoneLineTimes (IsRounded toMinutes) fields l := by
  unfold readZoneLine at h
  split at h
  · rename_i offset saving format rest
    obtain ⟨stdoff, hstdoff, h⟩ := exists_of_bind_eq_ok h
    obtain ⟨amount, hamount, h⟩ := exists_of_bind_eq_ok h
    have hoffset : IsRounded toMinutes offset (roundIf toMinutes stdoff) :=
      ⟨stdoff, isTime_of_readTime (eq_ok_of_liftM hstdoff), rfl⟩
    have hsaving (x : Int) (hx : amount = .fixed x) : (some saving = some ['-'] ∧ x = 0) ∨
        ∃ field, some saving = some field ∧ IsRounded toMinutes field x := by
      rw [hx] at hamount
      rcases amount_of_readSaving (eq_ok_of_liftM hamount) with ⟨rfl, rfl⟩ | hrounded
      · exact Or.inl ⟨rfl, rfl⟩
      · exact Or.inr ⟨saving, rfl, hrounded⟩
    dsimp only at h
    split at h
    · cases h
      exact ⟨⟨offset, rfl, hoffset⟩, hsaving, Or.inl ⟨rfl, rfl⟩⟩
    · obtain ⟨⟨ending, clock⟩, hending, h⟩ := exists_of_bind_eq_ok h
      cases h
      refine ⟨⟨offset, rfl, hoffset⟩, hsaving, Or.inr ?_⟩
      obtain ⟨-, date, seconds, -, -, hends, htime⟩ := exists_of_readEnding (eq_ok_of_liftM hending)
      refine ⟨date, seconds, hends, htime.imp_right ?_⟩
      rintro ⟨field, face, suffix, time, hfield, hsplit, hread, hround⟩
      exact ⟨field, face, suffix, hfield, hsplit, time, isTime_of_readTime hread, hround⟩
  · cases h

/-- **The times of a line are those of its fields.** -/
theorem Line.times_of_read {cs : List Char} {line : Line} (h : Line.read toMinutes cs = .ok line) :
    line.Times IsTime (IsRounded toMinutes) cs := by
  have hread := Line.isReadFrom_of_read h
  cases line with
  | rule r => exact ruleTimes_of_readRule hread
  | link target name => trivial
  | zone name l => exact zoneLineTimes_of_readZoneLine hread
  | continuation l => exact zoneLineTimes_of_readZoneLine hread

section

variable {P P' Q Q' : List Char → Int → Prop} (hP : ∀ text x, P text x → P' text x)
  (hQ : ∀ text x, Q text x → Q' text x)

include hQ

theorem ZoneLineTimes.mono {fields : List (List Char)} {l : ZoneLine}
    (h : ZoneLineTimes Q fields l) : ZoneLineTimes Q' fields l where
  stdoff := h.stdoff.imp fun _ => And.imp_right (hQ _ _)
  amount := fun amount hamount =>
    (h.amount amount hamount).imp_right (Exists.imp fun _ => And.imp_right (hQ _ _))
  ending := by
    refine h.ending.imp_right ?_
    rintro ⟨date, seconds, hends, hzero | ⟨field, face, suffix, hfield, hsplit, hface⟩⟩
    · exact ⟨date, seconds, hends, Or.inl hzero⟩
    · exact ⟨date, seconds, hends, Or.inr ⟨field, face, suffix, hfield, hsplit, hQ _ _ hface⟩⟩

include hP

theorem RuleTimes.mono {fields : List (List Char)} {r : Rule} (h : RuleTimes P Q fields r) :
    RuleTimes P' Q' fields r where
  time := by
    obtain ⟨field, face, suffix, hfield, hsplit, hface⟩ := h.time
    exact ⟨field, face, suffix, hfield, hsplit, hP _ _ hface⟩
  save := h.save.imp fun _ => And.imp_right (hQ _ _)

theorem Line.Times.mono {cs : List Char} {line : Line} (h : line.Times P Q cs) :
    line.Times P' Q' cs := by
  cases line with
  | rule r => exact RuleTimes.mono hP hQ h
  | link target name => trivial
  | zone name l => exact ZoneLineTimes.mono hQ h
  | continuation l => exact ZoneLineTimes.mono hQ h

end

theorem isRounded_false : IsRounded false text x ↔ IsTime text x := by
  simp [IsRounded, roundIf]

/-- **Times are in range unless their fields come out below zero.** Fields without a sign of their
own never do, and the same holds of all times in an accepted line. -/
theorem times_inRange_iff (text cs : List Char) (line : Line) :
    ((∀ x, IsTime text x → IsInRange text x) ↔ ¬ IsBelowZero text) ∧
    ('-' ∉ (splitSign text).2 → ¬ IsBelowZero text) ∧
    (Line.read false cs = .ok line →
      line.Times IsTime IsTime cs ∧
      (line.Times (fun text x => IsTime text x ∧ IsInRange text x)
          (fun text x => IsTime text x ∧ IsInRange text x) cs ↔
        line.Times (fun text x => IsTime text x ∧ ¬ IsBelowZero text)
          (fun text x => IsTime text x ∧ ¬ IsBelowZero text) cs)) := by
  refine ⟨?_, not_isBelowZero_of_notMem, ?_⟩
  · constructor
    · intro h hbelow
      obtain ⟨x, hx⟩ := exists_readSeconds?_of_isBelowZero hbelow
      exact (isInRange_iff hx).1 (h x hx) hbelow
    · intro h x hx
      exact (isInRange_iff hx).2 h
  · intro hline
    have hiff (text : List Char) (x : Int) :
        IsTime text x ∧ IsInRange text x ↔ IsTime text x ∧ ¬ IsBelowZero text :=
      and_congr_right isInRange_iff
    refine ⟨?_, ?_, ?_⟩
    · exact (Line.times_of_read hline).mono (fun _ _ h => h) fun _ _ => isRounded_false.1
    · exact Line.Times.mono (fun text x => (hiff text x).1) fun text x => (hiff text x).1
    · exact Line.Times.mono (fun text x => (hiff text x).2) fun text x => (hiff text x).2

/-- Fields below zero are read, on their own and as the offset of a zone. -/
theorem readSeconds?_belowZero :
    IsTime "0:-30".toList (-1800) ∧ ¬ IsInRange "0:-30".toList (-1800) ∧
    IsTime "--26".toList 93600 ∧ ¬ IsInRange "--26".toList 93600 ∧
    ∃ l, Line.read false "Zone Z --26 - X".toList = .ok (.zone "Z" l) ∧ l.stdoff = 93600 := by
  refine ⟨?_, ?_, ?_, ?_, ?_⟩
  · unfold IsTime
    decide +kernel
  · intro h
    exact absurd (h.nonneg (by decide)) (by decide)
  · unfold IsTime
    decide +kernel
  · intro h
    exact absurd h.natAbs_le (by decide)
  · exact ⟨⟨93600, .fixed 0, "X", endOfTime, .wall, "Zone Z --26 - X"⟩, by decide +kernel, rfl⟩

end ZoneTables.Source
