import ZoneTables.Proofs.Timeline.Rollback
import ZoneTables.Replay.Firing
import ZoneTables.Table.Tail

/-!
# Rules that turn clocks back

A rule that turns clocks back from just after midnight is moved to midnight in the tail of a table
(`shiftFallBack`), and its transitions are in a timeline (`findRollbacks`). The first looks at the
time of the rule on the wall clock (`Rule.turnbackTime`), and the second at the local date of an
instant. Both speak of the same clock: at the instant at which the rule fires, it shows the rule's
day and that time (`TurnsBack.localSeconds_eq`).

The time may be beyond the rule's day, after 24 hours or in UTC. The date goes back there as well,
at another midnight, and then the transition is moved but not the rule: the two agree exactly if
the date does not go back or is that of the rule's own day (`shiftFallBack_agrees_iff`).
-/

namespace ZoneTables

variable {std dst back ahead : Rule} {stdoff year : Int} {prev t : Transition}

/-- Of the rules of standard time and daylight saving the one that turns clocks back, and then the
other. -/
def fallBack (std dst : Rule) : Rule × Rule :=
  if dst.save < 0 then (dst, std) else (std, dst)

/-- A rule at an earlier time of day. -/
def Rule.lower (r : Rule) (seconds : Int) : Rule := { r with time := r.time - seconds }

/-- The rules of standard time and daylight saving, the one that turns clocks back at an earlier
time of day. -/
def lowerFallBack (seconds : Int) (std dst : Rule) : Rule × Rule :=
  if dst.save < 0 then (std, dst.lower seconds) else (std.lower seconds, dst)

/-- At the transition `t` after `prev` the rule `back` fires in a year. Standard time is `stdoff`
ahead of UTC, and until then clocks are ahead of it by what the other rule saves. -/
structure TurnsBack (stdoff : Int) (back ahead : Rule) (year : Int) (prev t : Transition) :
    Prop where
  before : prev.utcOffset = stdoff + ahead.save
  after : t.utcOffset = stdoff + back.save
  time : t.time = back.instant year stdoff ahead.save

instance (stdoff : Int) (back ahead : Rule) (year : Int) (prev t : Transition) :
    Decidable (TurnsBack stdoff back ahead year prev t) :=
  decidable_of_iff (prev.utcOffset = stdoff + ahead.save ∧ t.utcOffset = stdoff + back.save ∧
      t.time = back.instant year stdoff ahead.save)
    ⟨fun ⟨h1, h2, h3⟩ => ⟨h1, h2, h3⟩, fun ⟨h1, h2, h3⟩ => ⟨h1, h2, h3⟩⟩

/-! ## The clock before -/

/-- **The clock before the transition shows the rule's day** and the time at which it turns clocks
back. -/
theorem TurnsBack.localSeconds_eq (h : TurnsBack stdoff back ahead year prev t) :
    t.time + prev.utcOffset =
      (back.on.resolve year back.month).seconds (back.turnbackTime stdoff ahead.save) := by
  rw [h.time, h.before]
  unfold Rule.instant Rule.turnbackTime Rule.clockTime Date.seconds
  cases back.clock <;> dsimp only <;> omega

theorem rollsBack_iff_secondsOfDay (hpos : 0 < prev.utcOffset - t.utcOffset)
    (hle : prev.utcOffset - t.utcOffset ≤ secondsPerDay) : t.rollsBack prev = true ↔
      0 < t.foray prev ∧ t.foray prev < prev.utcOffset - t.utcOffset := by
  rw [Transition.rollsBack_iff, Transition.foray, secondsOfDay_eq]
  unfold secondsPerDay at *
  omega

/-! ## What is moved -/

/-- By how much a rule is moved that turns clocks back by an amount at a time of day. -/
def tailShift (time amount : Int) : Int := if 0 < time ∧ time < amount then time else 0

theorem Rule.atMidnight_eq (r : Rule) (stdoff ahead amount : Int) :
    r.atMidnight stdoff ahead amount =
      r.lower (tailShift (r.turnbackTime stdoff ahead) amount) := by
  unfold Rule.atMidnight Rule.lower tailShift
  dsimp only
  by_cases h : 0 < r.turnbackTime stdoff ahead ∧ r.turnbackTime stdoff ahead < amount
  · rw [if_pos h, if_pos ⟨h.1, by omega⟩]
  · rw [if_neg h, if_neg fun h' => h ⟨h'.1, by omega⟩, Int.sub_zero]

theorem shiftFallBack_eq (hstd : std.save = 0) :
    shiftFallBack stdoff std dst = lowerFallBack (tailShift
      ((fallBack std dst).1.turnbackTime stdoff (fallBack std dst).2.save)
      ((fallBack std dst).2.save - (fallBack std dst).1.save)) std dst := by
  unfold shiftFallBack lowerFallBack fallBack
  split
  · rw [Rule.atMidnight_eq, hstd, Int.zero_sub]
  · rw [Rule.atMidnight_eq, hstd, Int.sub_zero]

/-- Clocks are turned back by what daylight saving is, ahead of standard time or behind it. -/
theorem fallBack_amount (hstd : std.save = 0) :
    (fallBack std dst).2.save - (fallBack std dst).1.save = dst.save.natAbs := by
  unfold fallBack
  split
  · dsimp only
    omega
  · dsimp only
    omega

/-- By how much a transition is moved where clocks are turned back. -/
def listShift (prev t : Transition) : Int := if t.rollsBack prev then t.foray prev else 0

theorem exists_findRollbacks_pair (zone : Option String) (prev t : Transition) :
    ∃ status log, findRollbacks zone true false [prev, t] =
      .ok (status, [prev, { t with time := t.time - listShift prev t }], log) := by
  have hmended : fixRollbacks [prev, t] =
      [prev, { t with time := t.time - listShift prev t }] := by
    rw [fixRollbacks_cons, mendInTurn, mendInTurn, Transition.withoutRollback, listShift]
    split
    · rfl
    · rw [Int.sub_zero]
  rcases findRollbacks_cases zone true false [prev, t] with ⟨⟨hwarn, -⟩, -⟩ | ⟨-, log, hok⟩
  · cases hwarn
  · rw [if_pos rfl, hmended] at hok
    exact ⟨_, log, hok⟩

/-- **Rule and transition are moved alike exactly on the rule's own day**, or where the date does
not go back. -/
theorem TurnsBack.tailShift_eq_iff (h : TurnsBack stdoff back ahead year prev t)
    (hpos : 0 < ahead.save - back.save) (hle : ahead.save - back.save ≤ secondsPerDay) :
    (tailShift (back.turnbackTime stdoff ahead.save) (ahead.save - back.save) = listShift prev t ↔
      (t.rollsBack prev = true → (t.time + prev.utcOffset) / secondsPerDay =
        (back.on.resolve year back.month).dayNumber)) ∧
    (tailShift (back.turnbackTime stdoff ahead.save) (ahead.save - back.save) ≠ listShift prev t →
      tailShift (back.turnbackTime stdoff ahead.save) (ahead.save - back.save) = 0) := by
  have hlocal := h.localSeconds_eq
  have hamount : prev.utcOffset - t.utcOffset = ahead.save - back.save := by
    rw [h.before, h.after]
    omega
  have hback := rollsBack_iff_secondsOfDay (hamount ▸ hpos) (hamount ▸ hle)
  rw [hamount, Transition.foray, secondsOfDay_eq] at hback
  unfold listShift tailShift
  rw [Transition.foray, secondsOfDay_eq]
  unfold Date.seconds at hlocal
  generalize (back.on.resolve year back.month).dayNumber = day at hlocal ⊢
  generalize back.turnbackTime stdoff ahead.save = time at hlocal ⊢
  generalize t.time + prev.utcOffset = seconds at hlocal hback ⊢
  simp only [hback]
  unfold secondsPerDay at *
  split_ifs <;> omega

/-- **The tail and the timeline move the turning back alike** unless the date goes back on another
day than the rule's own; there the rule is left where it is. -/
theorem shiftFallBack_agrees_iff (hstd : std.save = 0) (hdst : dst.save ≠ 0)
    (hle : (dst.save.natAbs : Int) ≤ secondsPerDay)
    (h : TurnsBack stdoff (fallBack std dst).1 (fallBack std dst).2 year prev t)
    (zone : Option String) :
    ∃ status moved lowered log,
      findRollbacks zone true false [prev, t] =
        .ok (status, [prev, { t with time := t.time - moved }], log) ∧
      shiftFallBack stdoff std dst = lowerFallBack lowered std dst ∧
      (lowered = moved ↔ (t.rollsBack prev = true → (t.time + prev.utcOffset) / secondsPerDay =
        ((fallBack std dst).1.on.resolve year (fallBack std dst).1.month).dayNumber)) ∧
      (lowered ≠ moved → lowered = 0) := by
  obtain ⟨status, log, hlist⟩ := exists_findRollbacks_pair zone prev t
  have hamount : (fallBack std dst).2.save - (fallBack std dst).1.save = dst.save.natAbs :=
    fallBack_amount hstd
  have hshift := h.tailShift_eq_iff (by omega) (by omega)
  exact ⟨status, _, _, log, hlist, shiftFallBack_eq hstd, hshift⟩

/-- Summer time starts on the last Sunday of March. -/
def summerStarts : Rule :=
  ⟨"R", 2000, Rule.latestYear, 3, .last 1, 3600, .universal, 3600, "S", ""⟩

/-- Summer time ends on the last Sunday of October, at a time on the wall clock. -/
def summerEnds (time : Int) : Rule :=
  ⟨"R", 2000, Rule.latestYear, 10, .last 1, time, .wall, 0, "", ""⟩

/-- The transition to summer time, an hour ahead of UTC. -/
def toSummer : Transition := ⟨beginningOfTime, 3600, 3600, none, none⟩

/-- The transition back to UTC. -/
def backToUtc (instant : Int) : Transition := ⟨instant, 0, 0, none, none⟩

/-- Both move the end of summer time from 0:20 to midnight. -/
theorem shiftFallBack_agrees_pastMidnight :
    TurnsBack 0 (fallBack (summerEnds 1200) summerStarts).1
      (fallBack (summerEnds 1200) summerStarts).2 2020 toSummer (backToUtc 1603581600) ∧
    (backToUtc 1603581600).rollsBack toSummer = true ∧
    lowerFallBack 1200 (summerEnds 1200) summerStarts = (summerEnds 0, summerStarts) ∧
    ∃ status log, findRollbacks none true false [toSummer, backToUtc 1603581600] =
        .ok (status, [toSummer, backToUtc 1603580400], log) ∧
      shiftFallBack 0 (summerEnds 1200) summerStarts =
        lowerFallBack 1200 (summerEnds 1200) summerStarts := by
  have hturn : TurnsBack 0 (fallBack (summerEnds 1200) summerStarts).1
      (fallBack (summerEnds 1200) summerStarts).2 2020 toSummer (backToUtc 1603581600) := by decide
  obtain ⟨status, moved, lowered, log, hlist, hrule, hiff, -⟩ :=
    shiftFallBack_agrees_iff (rfl : (summerEnds 1200).save = 0)
      (by decide : summerStarts.save ≠ 0) (by decide) hturn none
  obtain rfl : lowered = moved := hiff.2 fun _ => by decide
  have hmoved : lowered = 1200 := by
    have hrollbacks : findRollbacks none true false [toSummer, backToUtc 1603581600] =
        .ok (.fixed, [toSummer, backToUtc 1603580400], []) := by decide +kernel
    rw [hlist] at hrollbacks
    obtain ⟨-, htime, -⟩ :
        status = .fixed ∧ (1603581600 : Int) - lowered = 1603580400 ∧ log = [] := by
      simpa [backToUtc] using hrollbacks
    omega
  subst hmoved
  exact ⟨hturn, by decide, by decide, status, log, hlist, hrule⟩

/-- At 24:30 the date goes back to the rule's own day: the transition is moved to midnight, and the
rule is not. -/
theorem shiftFallBack_leaves_nextDay :
    TurnsBack 0 (fallBack (summerEnds 88200) summerStarts).1
      (fallBack (summerEnds 88200) summerStarts).2 2020 toSummer (backToUtc 1603668600) ∧
    findRollbacks none true false [toSummer, backToUtc 1603668600] =
      .ok (.fixed, [toSummer, backToUtc (1603668600 - 1800)], []) ∧
    shiftFallBack 0 (summerEnds 88200) summerStarts = (summerEnds 88200, summerStarts) ∧
    (summerEnds 88200, summerStarts) ≠ lowerFallBack 1800 (summerEnds 88200) summerStarts := by
  refine ⟨by decide, by decide +kernel, by decide, by decide⟩

end ZoneTables
