import Mathlib.Data.List.Forall2
import ZoneTables.Proofs.Calendar.Date
import ZoneTables.Timeline.Rollback

/-!
# Mending rollbacks

A transition that is moved to the midnight before it stays there when it is mended again: only the
offset before it counts, which mending leaves as it is. So it makes no difference whether the
transitions are mended in turn or all at once (`fixRollbacks_cons`), rollbacks that have been mended
once are not changed any more (`fixRollbacks_fixRollbacks`), and neither is a list without any
(`fixRollbacks_eq_self`).

From midnight the date does not go back any more, unless clocks go back by more than a day
(`Transition.rollsBack_withoutRollback_iff`). As mending a transition does not disturb the one after
it, that tells when rollbacks remain in a list (`hasRollbacks_fixRollbacks_iff`), and what a search
that mends them comes to (`findRollbacks_mends`).
-/

namespace ZoneTables

theorem secondsOfDay_eq (instant offset : Int) :
    secondsOfDay instant offset = (instant + offset) % secondsPerDay := by
  unfold secondsOfDay localTime
  dsimp only
  have hnonneg : 0 ≤ (instant + offset) % secondsPerDay := Int.emod_nonneg _ (by decide)
  omega

/-! ## One transition -/

namespace Transition

variable {prev prev' t : Transition}

theorem rollsBack_iff : t.rollsBack prev = true ↔
    (t.time + t.utcOffset) / secondsPerDay < (t.time - 1 + prev.utcOffset) / secondsPerDay :=
  localDate_before_iff

theorem rollsBack_congr (h : prev'.utcOffset = prev.utcOffset) :
    t.rollsBack prev' = t.rollsBack prev := by
  rw [rollsBack, rollsBack, h]

theorem withoutRollback_congr (h : prev'.utcOffset = prev.utcOffset) :
    withoutRollback prev' t = withoutRollback prev t := by
  rw [withoutRollback, withoutRollback, rollsBack_congr h, foray, foray, h]

@[simp] theorem utcOffset_withoutRollback (prev t : Transition) :
    (withoutRollback prev t).utcOffset = t.utcOffset := by
  unfold withoutRollback
  split <;> rfl

@[simp] theorem name_withoutRollback (prev t : Transition) :
    (withoutRollback prev t).name = t.name := by
  unfold withoutRollback
  split <;> rfl

theorem withoutRollback_eq_self (h : t.rollsBack prev = false) : withoutRollback prev t = t := by
  rw [withoutRollback, h]
  rfl

theorem withoutRollback_of_rollsBack (h : t.rollsBack prev = true) :
    withoutRollback prev t =
      { t with time := t.time - (t.time + prev.utcOffset) % secondsPerDay } := by
  rw [withoutRollback, if_pos h, foray, secondsOfDay_eq]

/-- **A mended transition rolls back exactly if clocks go back by more than a day.** -/
theorem rollsBack_withoutRollback_iff : (withoutRollback prev t).rollsBack prev = true ↔
    secondsPerDay < prev.utcOffset - t.utcOffset := by
  cases h : t.rollsBack prev with
  | true =>
    rw [rollsBack_iff, withoutRollback_of_rollsBack h]
    unfold secondsPerDay
    dsimp only
    omega
  | false =>
    -- clocks that go back by more than a day show an earlier date at once
    have hle : ¬ secondsPerDay < prev.utcOffset - t.utcOffset := by
      rw [← Bool.not_eq_true, rollsBack_iff] at h
      unfold secondsPerDay at *
      omega
    simp [withoutRollback_eq_self h, h, hle]

/-- What mending makes of the transition `t` after `prev`: where the date goes back it is moved, by
less than a day, to the last midnight on the clock before it, and elsewhere it stays. It can be at
midnight already only if clocks go back by more than a day. Nothing but its time is changed. -/
structure IsMended (prev t mended : Transition) : Prop where
  eq : mended = { t with time := mended.time }
  moved : t.rollsBack prev = true → mended.time ≤ t.time ∧ t.time - mended.time < secondsPerDay ∧
    (mended.time + prev.utcOffset) % secondsPerDay = 0
  earlier : t.rollsBack prev = true → mended.time < t.time ∨
    secondsPerDay < prev.utcOffset - t.utcOffset
  stays : t.rollsBack prev = false → mended = t

theorem isMended_withoutRollback (prev t : Transition) :
    IsMended prev t (withoutRollback prev t) where
  eq := by
    unfold withoutRollback
    split <;> rfl
  moved h := by
    rw [withoutRollback_of_rollsBack h]
    unfold secondsPerDay
    dsimp only
    omega
  earlier h := by
    rw [withoutRollback_of_rollsBack h]
    rw [rollsBack_iff] at h
    unfold secondsPerDay at *
    dsimp only
    omega
  stays := withoutRollback_eq_self

theorem foray_withoutRollback (h : t.rollsBack prev = true) :
    (withoutRollback prev t).foray prev = 0 := by
  rw [foray, secondsOfDay_eq]
  exact ((isMended_withoutRollback prev t).moved h).2.2

theorem withoutRollback_withoutRollback :
    withoutRollback prev (withoutRollback prev t) = withoutRollback prev t := by
  cases h : t.rollsBack prev with
  | true =>
    rw [withoutRollback.eq_def prev (withoutRollback prev t), foray_withoutRollback h, Int.sub_zero]
    split <;> rfl
  | false => rw [withoutRollback_eq_self h, withoutRollback_eq_self h]

end Transition

/-! ## A list -/

open Transition

variable {ts : List Transition} {p t : Transition}

theorem steps_cons_cons (p t : Transition) (ts : List Transition) :
    steps (p :: t :: ts) = (p, t) :: steps (t :: ts) :=
  rfl

theorem firstRollback?_eq_none_iff : firstRollback? ts = none ↔ hasRollbacks ts = false := by
  rw [firstRollback?, hasRollbacks, List.find?_eq_none, List.any_eq_false]

theorem hasRollbacks_cons_cons (p t : Transition) (ts : List Transition) :
    hasRollbacks (p :: t :: ts) = (t.rollsBack p || hasRollbacks (t :: ts)) :=
  rfl

theorem forall₂_isMended (ts : List Transition) :
    (fixRollbacks ts).head? = ts.head? ∧
      List.Forall₂ (fun s t => IsMended s.1 s.2 t) (steps ts) ((fixRollbacks ts).drop 1) := by
  cases ts with
  | nil => exact ⟨rfl, .nil⟩
  | cons t ts =>
    refine ⟨rfl, ?_⟩
    show List.Forall₂ _ ((t :: ts).zip ts) (List.zipWith withoutRollback (t :: ts) ts)
    rw [← List.map_uncurry_zip_eq_zipWith, List.forall₂_map_right_iff, List.forall₂_same]
    exact fun s _ => isMended_withoutRollback s.1 s.2

/-- The transitions after `prev` mended one after the other, each after the one before it as
mended. -/
def mendInTurn (prev : Transition) : List Transition → List Transition
  | [] => []
  | t :: ts => withoutRollback prev t :: mendInTurn (withoutRollback prev t) ts

theorem mendInTurn_eq_zipWith (hoffset : p.utcOffset = t.utcOffset) :
    mendInTurn p ts = List.zipWith withoutRollback (t :: ts) ts := by
  induction ts generalizing p t with
  | nil => rfl
  | cons u us ih =>
    rw [mendInTurn, List.zipWith_cons_cons, ih (utcOffset_withoutRollback p u),
      withoutRollback_congr hoffset]

/-- **Mending transitions in turn and all at once is the same.** -/
theorem fixRollbacks_cons (t : Transition) (ts : List Transition) :
    fixRollbacks (t :: ts) = t :: mendInTurn t ts :=
  congrArg (t :: ·) (mendInTurn_eq_zipWith rfl).symm

theorem mendInTurn_mendInTurn (p : Transition) (ts : List Transition) :
    mendInTurn p (mendInTurn p ts) = mendInTurn p ts := by
  induction ts generalizing p with
  | nil => rfl
  | cons t ts ih => rw [mendInTurn, mendInTurn, withoutRollback_withoutRollback, ih]

/-- **Mending twice is mending once.** -/
theorem fixRollbacks_fixRollbacks (ts : List Transition) :
    fixRollbacks (fixRollbacks ts) = fixRollbacks ts := by
  cases ts with
  | nil => rfl
  | cons t ts => rw [fixRollbacks_cons, fixRollbacks_cons, mendInTurn_mendInTurn]

theorem map_name_mendInTurn (p : Transition) (ts : List Transition) :
    (mendInTurn p ts).map Transition.name = ts.map Transition.name := by
  induction ts generalizing p with
  | nil => rfl
  | cons t ts ih => rw [mendInTurn, List.map_cons, List.map_cons, ih, name_withoutRollback]

theorem map_name_fixRollbacks (ts : List Transition) :
    (fixRollbacks ts).map Transition.name = ts.map Transition.name := by
  cases ts with
  | nil => rfl
  | cons t ts => rw [fixRollbacks_cons, List.map_cons, List.map_cons, map_name_mendInTurn]

theorem mendInTurn_eq_self (h : hasRollbacks (p :: ts) = false) : mendInTurn p ts = ts := by
  induction ts generalizing p with
  | nil => rfl
  | cons t ts ih =>
    rw [hasRollbacks_cons_cons, Bool.or_eq_false_iff] at h
    rw [mendInTurn, withoutRollback_eq_self h.1, ih h.2]

theorem fixRollbacks_eq_self (h : hasRollbacks ts = false) : fixRollbacks ts = ts := by
  cases ts with
  | nil => rfl
  | cons t ts => rw [fixRollbacks_cons, mendInTurn_eq_self h]

/-- Each transition rolls back after mending as if it alone were mended. Of the transition `p`
before them, mended or not, the offset counts only. -/
theorem hasRollbacks_mendInTurn (hoffset : p.utcOffset = t.utcOffset) :
    hasRollbacks (p :: mendInTurn p ts) = true ↔
      ∃ q u, (q, u) ∈ steps (t :: ts) ∧ secondsPerDay < q.utcOffset - u.utcOffset := by
  induction ts generalizing p t with
  | nil => simp [hasRollbacks, mendInTurn, steps]
  | cons u us ih =>
    rw [mendInTurn, hasRollbacks_cons_cons, Bool.or_eq_true, rollsBack_withoutRollback_iff, hoffset,
      ih (utcOffset_withoutRollback p u), steps_cons_cons]
    simp only [List.mem_cons, Prod.mk.injEq, or_and_right, exists_or, and_assoc, exists_and_left,
      exists_eq_left]

/-- **Rollbacks remain exactly where clocks go back by more than a day.** -/
theorem hasRollbacks_fixRollbacks_iff : hasRollbacks (fixRollbacks ts) = true ↔
    ∃ p t, (p, t) ∈ steps ts ∧ secondsPerDay < p.utcOffset - t.utcOffset := by
  cases ts with
  | nil => simp [hasRollbacks, fixRollbacks, steps]
  | cons t ts => rw [fixRollbacks_cons, hasRollbacks_mendInTurn rfl]

/-! ## A search -/

/-- The years in the warning about the first rollback of a list, if it has one, can be written. -/
def CanWarn (ts : List Transition) : Prop :=
  ∀ prev t, firstRollback? ts = some (prev, t) → t.hasWritableWarning prev = true

theorem canWarn_iff (h : firstRollback? ts = some (p, t)) :
    CanWarn ts ↔ t.hasWritableWarning p = true := by
  simp [CanWarn, h]

theorem canWarn_of_none (h : firstRollback? ts = none) : CanWarn ts := by
  simp [CanWarn, h]

instance (ts : List Transition) : Decidable (CanWarn ts) :=
  match h : firstRollback? ts with
  | none => .isTrue (canWarn_of_none h)
  | some _ => decidable_of_iff _ (canWarn_iff h).symm

/-- What a search for rollbacks comes to. -/
def Rollbacks.ofList (fix : Bool) (ts : List Transition) : Rollbacks :=
  if hasRollbacks ts then
    if fix then if hasRollbacks (fixRollbacks ts) then .remain else .fixed
    else .found
  else .none

variable {zone : Option String} {fix warn : Bool}

theorem findRollbacks_of_none (h : hasRollbacks ts = false) :
    findRollbacks zone fix warn ts = .ok (.none, ts, []) := by
  rw [findRollbacks, firstRollback?_eq_none_iff.2 h]

/-- **A search for rollbacks breaks off at a warning that cannot be written**, or leaves the list,
mended if it is to be. -/
theorem findRollbacks_cases (zone : Option String) (fix warn : Bool) (ts : List Transition) :
    (warn = true ∧ ¬ CanWarn ts) ∧ findRollbacks zone fix warn ts = .error .unwritable ∨
      (warn = true → CanWarn ts) ∧ ∃ log, findRollbacks zone fix warn ts =
        .ok (.ofList fix ts, if fix then fixRollbacks ts else ts, log) := by
  cases hfirst : firstRollback? ts with
  | none =>
    have hback := firstRollback?_eq_none_iff.1 hfirst
    rw [findRollbacks_of_none hback, Rollbacks.ofList, hback, fixRollbacks_eq_self hback, ite_self]
    exact .inr ⟨fun _ => canWarn_of_none hfirst, _, rfl⟩
  | some found =>
    obtain ⟨p, t⟩ := found
    have hback : hasRollbacks ts = true := by
      rw [← Bool.not_eq_false, ← firstRollback?_eq_none_iff, hfirst]
      exact nofun
    rw [findRollbacks, hfirst, Rollbacks.ofList, hback, canWarn_iff hfirst]
    dsimp only
    by_cases hbad : (warn && !t.hasWritableWarning p) = true
    · rw [if_pos hbad]
      exact .inl ⟨by simpa using hbad, rfl⟩
    · rw [if_neg hbad]
      refine .inr ⟨by simpa using hbad, ?_⟩
      cases fix with
      | false => exact ⟨_, rfl⟩
      | true => cases hasRollbacks (fixRollbacks ts) <;> exact ⟨_, rfl⟩

theorem Rollbacks.ofList_eq_remain_iff :
    Rollbacks.ofList true ts = .remain ↔ hasRollbacks (fixRollbacks ts) = true := by
  cases h : hasRollbacks ts with
  | false => simp [ofList, fixRollbacks_eq_self h, h]
  | true => simp [ofList, h]

theorem Rollbacks.ofList_ne_found : Rollbacks.ofList true ts ≠ .found := by
  simp only [ofList, if_true]
  split_ifs <;> decide

theorem Rollbacks.ofList_eq_none_iff :
    Rollbacks.ofList fix ts = .none ↔ hasRollbacks ts = false := by
  unfold ofList
  split_ifs <;> simp [*]

theorem exists_findRollbacks_eq_none_iff :
    (∃ us log, findRollbacks zone fix warn ts = .ok (.none, us, log)) ↔
      hasRollbacks ts = false := by
  constructor
  · rintro ⟨us, log, hnone⟩
    rcases findRollbacks_cases zone fix warn ts with ⟨-, herror⟩ | ⟨-, more, hok⟩
    · cases hnone.symm.trans herror
    · obtain ⟨hstatus, -⟩ := Prod.mk.inj (Except.ok.inj (hok.symm.trans hnone))
      exact Rollbacks.ofList_eq_none_iff.1 hstatus
  · exact fun hback => ⟨ts, [], findRollbacks_of_none hback⟩

/-- **Mending converges exactly if it can.** Rollbacks remain if clocks go back by more than a day
somewhere; otherwise a list without any is left, which further searches leave as it is. -/
theorem findRollbacks_mends (zone : Option String) (ts : List Transition) :
    ∃ status mended,
      (∀ warn, (warn = true → CanWarn ts) →
        ∃ log, findRollbacks zone true warn ts = .ok (status, mended, log)) ∧
      (status = .remain ↔
        ∃ p t, (p, t) ∈ steps ts ∧ secondsPerDay < p.utcOffset - t.utcOffset) ∧
      (status ≠ .remain → (status = .none ∨ status = .fixed) ∧
        ∀ fix warn, findRollbacks zone fix warn mended = .ok (.none, mended, [])) ∧
      (status = .none ↔ hasRollbacks ts = false) ∧ (status = .none → mended = ts) ∧
      mended.head? = ts.head? ∧
      List.Forall₂ (fun s t => IsMended s.1 s.2 t) (steps ts) (mended.drop 1) := by
  refine ⟨.ofList true ts, fixRollbacks ts, fun warn hwarn => ?_, ?_, fun hremain => ?_,
    Rollbacks.ofList_eq_none_iff, fun hnone => ?_, forall₂_isMended ts⟩
  · rcases findRollbacks_cases zone true warn ts with ⟨⟨hw, hcannot⟩, -⟩ | ⟨-, hok⟩
    · exact absurd (hwarn hw) hcannot
    · exact hok
  · rw [Rollbacks.ofList_eq_remain_iff, hasRollbacks_fixRollbacks_iff]
  · constructor
    · cases h : Rollbacks.ofList true ts with
      | none => exact .inl rfl
      | found => exact absurd h Rollbacks.ofList_ne_found
      | fixed => exact .inr rfl
      | remain => exact absurd h hremain
    · rw [Ne, Rollbacks.ofList_eq_remain_iff, Bool.not_eq_true] at hremain
      exact fun _ _ => findRollbacks_of_none hremain
  · exact fixRollbacks_eq_self (Rollbacks.ofList_eq_none_iff.1 hnone)

/-- Clocks that go back from 00:20 to 23:20 of the day before. -/
def nightfall : List Transition :=
  [⟨beginningOfTime, 0, 0, some "UTC", none⟩, ⟨1552177200, -3600, 0, none, none⟩]

theorem findRollbacks_mends_nightfall :
    CanWarn nightfall ∧ ∃ mended log,
      findRollbacks none true true nightfall = .ok (.fixed, mended, log) ∧
      ∀ fix warn, findRollbacks none fix warn mended = .ok (.none, mended, []) := by
  have hcan : CanWarn nightfall := by decide +kernel
  have hback : hasRollbacks nightfall = true := by decide
  have hmidnight : hasRollbacks (fixRollbacks nightfall) = false := by decide
  obtain ⟨status, mended, hok, hremain, hconverges, hnone, -⟩ := findRollbacks_mends none nightfall
  have hne : status ≠ .remain := by
    rw [Ne, hremain, ← hasRollbacks_fixRollbacks_iff, hmidnight]
    decide
  obtain ⟨hstatus, hagain⟩ := hconverges hne
  have hfixed : status = .fixed := hstatus.resolve_left (by rw [hnone, hback]; decide)
  obtain ⟨log, hlog⟩ := hok true fun _ => hcan
  exact ⟨hcan, mended, log, hfixed ▸ hlog, hagain⟩

end ZoneTables
