import Mathlib.Data.List.Chain
import ZoneTables.Proofs.Timeline.Rollback

/-!
# The order of mended lists

Mending moves a transition to midnight without regard to when the one before it comes. If that is on
an earlier date, on the clock between the two, the order is kept, and otherwise not
(`Transition.lt_time_withoutRollback_iff`). Mending does not change the date on which a transition
comes, on the clock after it, unless clocks go back by more than a day
(`Transition.localDate_withoutRollback`), so that the dates of the given list tell whether the order
is kept (`findRollbacks_pairwise_iff`).
-/

namespace ZoneTables

namespace Transition

variable {prev t : Transition}

/-- On the clock before it, a transition comes on a later date than the one before. -/
def IsOvernight (prev t : Transition) : Prop :=
  (localDate prev.time prev.utcOffset).before (localDate t.time prev.utcOffset) = true

instance (prev t : Transition) : Decidable (IsOvernight prev t) :=
  inferInstanceAs (Decidable (_ = true))

theorem isOvernight_iff : IsOvernight prev t ↔
    (prev.time + prev.utcOffset) / secondsPerDay < (t.time + prev.utcOffset) / secondsPerDay :=
  localDate_before_iff

theorem isOvernight_congr {prev' : Transition} (hoffset : prev'.utcOffset = prev.utcOffset)
    (hdate : localDate prev'.time prev'.utcOffset = localDate prev.time prev.utcOffset) :
    IsOvernight prev' t ↔ IsOvernight prev t := by
  rw [IsOvernight, IsOvernight, hdate, hoffset]

/-- **Mending keeps the order of two transitions** exactly if the second does not roll back, or
comes on a later date than the first. -/
theorem lt_time_withoutRollback_iff (hlt : prev.time < t.time) :
    prev.time < (withoutRollback prev t).time ↔ (t.rollsBack prev = true → IsOvernight prev t) := by
  cases h : t.rollsBack prev with
  | true =>
    rw [withoutRollback_of_rollsBack h, isOvernight_iff, forall_prop_of_true rfl]
    unfold secondsPerDay
    dsimp only
    omega
  | false => simp [withoutRollback_eq_self h, hlt]

theorem time_withoutRollback_le (prev t : Transition) : (withoutRollback prev t).time ≤ t.time := by
  cases h : t.rollsBack prev with
  | true => exact ((isMended_withoutRollback prev t).moved h).1
  | false => rw [withoutRollback_eq_self h]

/-- **Mending leaves the date on the new clock as it is**, unless clocks go back by more than a
day. -/
theorem localDate_withoutRollback (hle : prev.utcOffset - t.utcOffset ≤ secondsPerDay) :
    localDate (withoutRollback prev t).time t.utcOffset = localDate t.time t.utcOffset := by
  cases h : t.rollsBack prev with
  | true =>
    have hday : (t.time - (t.time + prev.utcOffset) % secondsPerDay + t.utcOffset) / secondsPerDay =
        (t.time + t.utcOffset) / secondsPerDay := by
      rw [rollsBack_iff] at h
      unfold secondsPerDay at *
      omega
    rw [withoutRollback_of_rollsBack h, localDate, localDate, hday]
  | false => rw [withoutRollback_eq_self h]

end Transition

/-! ## A list -/

open Transition

variable {ts : List Transition} {p t : Transition}

/-- Of two transitions of which the second rolls back, that one comes on a later date. -/
def RollBackOvernight (pairs : List (Transition × Transition)) : Prop :=
  ∀ s ∈ pairs, s.2.rollsBack s.1 = true → IsOvernight s.1 s.2

instance (pairs : List (Transition × Transition)) : Decidable (RollBackOvernight pairs) :=
  inferInstanceAs (Decidable (∀ s ∈ pairs, s.2.rollsBack s.1 = true → IsOvernight s.1 s.2))

theorem rollBackOvernight_cons {pairs : List (Transition × Transition)} :
    RollBackOvernight ((p, t) :: pairs) ↔
      (t.rollsBack p = true → IsOvernight p t) ∧ RollBackOvernight pairs :=
  List.forall_mem_cons

/-- **Mending in turn keeps the order** exactly if it does at each transition. -/
theorem isChain_mendInTurn_iff (h : (p :: ts).IsChain fun u v => u.time < v.time) :
    (p :: mendInTurn p ts).IsChain (fun u v => u.time < v.time) ↔
      RollBackOvernight ((p :: mendInTurn p ts).zip ts) := by
  induction ts generalizing p with
  | nil => simp [mendInTurn, RollBackOvernight]
  | cons t ts ih =>
    obtain ⟨hpt, hts⟩ := List.isChain_cons_cons.1 h
    have hmended : (withoutRollback p t :: ts).IsChain fun u v => u.time < v.time := by
      rw [List.isChain_cons] at hts ⊢
      refine ⟨fun u hu => ?_, hts.2⟩
      exact Int.lt_of_le_of_lt (time_withoutRollback_le p t) (hts.1 u hu)
    rw [mendInTurn, List.isChain_cons_cons, List.zip_cons_cons, rollBackOvernight_cons,
      lt_time_withoutRollback_iff hpt, ih hmended]

/-- Where no clocks go back by more than a day, the dates of the transitions before they are mended
count. -/
theorem rollBackOvernight_mendInTurn_iff (hoffset : p.utcOffset = t.utcOffset)
    (hdate : localDate p.time p.utcOffset = localDate t.time t.utcOffset)
    (hdays : ∀ s ∈ steps (t :: ts), s.1.utcOffset - s.2.utcOffset ≤ secondsPerDay) :
    RollBackOvernight ((p :: mendInTurn p ts).zip ts) ↔ RollBackOvernight (steps (t :: ts)) := by
  induction ts generalizing p t with
  | nil => rfl
  | cons u us ih =>
    rw [steps_cons_cons] at hdays ⊢
    obtain ⟨hdrop, hrest⟩ := List.forall_mem_cons.1 hdays
    have hnext : localDate (withoutRollback p u).time (withoutRollback p u).utcOffset =
        localDate u.time u.utcOffset := by
      rw [utcOffset_withoutRollback]
      exact localDate_withoutRollback (hoffset ▸ hdrop)
    rw [mendInTurn, List.zip_cons_cons, rollBackOvernight_cons, rollBackOvernight_cons,
      rollsBack_congr hoffset, isOvernight_congr hoffset hdate,
      ih (utcOffset_withoutRollback p u) hnext hrest]

theorem isChain_lt_iff_pairwise :
    ts.IsChain (fun u v => u.time < v.time) ↔ ts.Pairwise fun u v => u.time < v.time :=
  haveI : IsTrans Transition fun u v => u.time < v.time := ⟨fun _ _ _ => Int.lt_trans⟩
  List.isChain_iff_pairwise

theorem fixRollbacks_pairwise_iff (hts : ts.Pairwise fun u v => u.time < v.time) :
    (fixRollbacks ts).Pairwise (fun u v => u.time < v.time) ↔
      RollBackOvernight ((fixRollbacks ts).zip (ts.drop 1)) := by
  cases ts with
  | nil => simp [fixRollbacks, RollBackOvernight]
  | cons t ts =>
    rw [← isChain_lt_iff_pairwise] at hts ⊢
    rw [fixRollbacks_cons]
    exact isChain_mendInTurn_iff hts

theorem rollBackOvernight_fixRollbacks_iff
    (hdays : ∀ s ∈ steps ts, s.1.utcOffset - s.2.utcOffset ≤ secondsPerDay) :
    RollBackOvernight ((fixRollbacks ts).zip (ts.drop 1)) ↔ RollBackOvernight (steps ts) := by
  cases ts with
  | nil => rfl
  | cons t ts =>
    rw [fixRollbacks_cons]
    exact rollBackOvernight_mendInTurn_iff rfl rfl hdays

/-- **When mending keeps a list in order**: if each transition that is moved comes on a later date,
on the clock before it, than the transition before it does once mended. Unless rollbacks remain,
the dates of the list as it was tell that. -/
theorem findRollbacks_pairwise_iff (zone : Option String) {warn : Bool}
    (hwarn : warn = true → CanWarn ts) (hts : ts.Pairwise fun u v => u.time < v.time) :
    ∃ status mended log, findRollbacks zone true warn ts = .ok (status, mended, log) ∧
      (mended.Pairwise (fun u v => u.time < v.time) ↔ RollBackOvernight (mended.zip (ts.drop 1))) ∧
      (status ≠ .remain →
        (mended.Pairwise (fun u v => u.time < v.time) ↔ RollBackOvernight (steps ts))) := by
  obtain ⟨log, hok⟩ : ∃ log, findRollbacks zone true warn ts =
      .ok (.ofList true ts, fixRollbacks ts, log) :=
    ((findRollbacks_cases zone true warn ts).resolve_left fun h => h.1.2 (hwarn h.1.1)).2
  refine ⟨_, _, log, hok, fixRollbacks_pairwise_iff hts, fun hremain => ?_⟩
  rw [fixRollbacks_pairwise_iff hts, rollBackOvernight_fixRollbacks_iff]
  intro s hs
  rw [Ne, Rollbacks.ofList_eq_remain_iff, hasRollbacks_fixRollbacks_iff] at hremain
  exact Int.not_lt.1 fun hlt => hremain ⟨s.1, s.2, hs, hlt⟩

/-- Clocks go forward on one day, and from 00:20 back to the day before on the next. -/
def nightAfter : List Transition :=
  [⟨beginningOfTime, 0, 0, none, none⟩, ⟨1552089600, 3600, 0, none, none⟩,
    ⟨1552173600, 0, 0, none, none⟩]

theorem findRollbacks_pairwise_nightAfter :
    nightAfter.Pairwise (fun (u v : Transition) => u.time < v.time) ∧
      RollBackOvernight (steps nightAfter) ∧
      ∃ mended, findRollbacks none true false nightAfter = .ok (.fixed, mended, []) ∧
        mended.map (·.time) = [beginningOfTime, 1552089600, 1552172400] ∧
        mended.Pairwise fun u v => u.time < v.time := by
  have hts : nightAfter.Pairwise (fun (u v : Transition) => u.time < v.time) := by decide
  have hovernight : RollBackOvernight (steps nightAfter) := by decide
  have hrun : findRollbacks none true false nightAfter =
      .ok (.fixed, fixRollbacks nightAfter, []) := by rfl
  have hwarn : false = true → CanWarn nightAfter := nofun
  obtain ⟨status, mended, log, hok, -, hiff⟩ := findRollbacks_pairwise_iff none hwarn hts
  cases hok.symm.trans hrun
  exact ⟨hts, hovernight, _, hrun, by decide, (hiff (by decide)).2 hovernight⟩

/-- Clocks go forward to 00:10 and, ten minutes after, back to the day before: that is mended by
going back from midnight, before clocks go forward. -/
theorem fixRollbacks_outOfOrder :
    let ts : List Transition := [⟨beginningOfTime, -3600, 0, none, none⟩,
      ⟨600, 0, 0, none, none⟩, ⟨1200, -3600, 0, none, none⟩]
    ts.Pairwise (fun u v => u.time < v.time) ∧
      ∃ mended, findRollbacks none true false ts = .ok (.fixed, mended, []) ∧
        mended.map (·.time) = [beginningOfTime, 600, 0] ∧
        ¬ mended.Pairwise fun u v => u.time < v.time := by
  exact ⟨by decide, _, rfl, by decide, by decide⟩

end ZoneTables
