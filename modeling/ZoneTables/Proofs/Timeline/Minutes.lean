import ZoneTables.Proofs.Timeline.NormalForm
import ZoneTables.Proofs.Timeline.Rollback

/-!
# Lists in whole minutes

A list in whole minutes (`IsWhole`) stays so when duplicates are removed, when it is trimmed
(`IsWhole.trimYears`), and when its rollbacks are mended (`IsWhole.fixRollbacks`): a midnight on a
clock whose offset is in whole minutes is at a whole minute.
-/

namespace ZoneTables

/-- Offsets are whole minutes, and so are all times but that of the first transition, which is at
the beginning of time. -/
structure IsWhole (ts : List Transition) : Prop where
  utcOffset : ∀ t ∈ ts, 60 ∣ t.utcOffset
  dstOffset : ∀ t ∈ ts, 60 ∣ t.dstOffset
  time : ∀ t ∈ ts, t.time ≠ beginningOfTime → 60 ∣ t.time
  begins : BeginsOnce ts

theorem not_dvd_beginningOfTime : ¬ 60 ∣ beginningOfTime := by decide

variable {first p t : Transition} {rest ts : List Transition}

theorem IsWhole.dvd_time_of_mem_rest (h : IsWhole (first :: rest)) : ∀ t ∈ rest, 60 ∣ t.time := by
  obtain ⟨_, _, heq, -, hrest⟩ := h.begins
  obtain ⟨-, rfl⟩ := List.cons.inj heq
  exact fun t ht => h.time t (List.mem_cons_of_mem _ ht) (hrest t ht)

/-- **A compiled list is in whole minutes** if the changes are that it is made of. -/
theorem IsWhole.trimYears (h : IsWhole ts) (minYear maxYear : Int) :
    IsWhole (trimYears (some minYear) maxYear (removeDuplicates ts)) := by
  have horigin : ∀ u ∈ ZoneTables.trimYears (some minYear) maxYear (removeDuplicates ts),
      ∃ t ∈ ts, u = t ∨ u = { t with time := beginningOfTime } := by
    intro u hu
    obtain ⟨t, ht, hut⟩ := exists_of_mem_trimYears hu
    exact ⟨t, (removeDuplicates_sublist ts).subset ht, hut⟩
  refine ⟨fun u hu => ?_, fun u hu => ?_, fun u hu hne => ?_,
    (h.begins.isNormal_trimYears minYear maxYear).begins⟩
  · obtain ⟨t, ht, rfl | rfl⟩ := horigin u hu
    · exact h.utcOffset u ht
    · exact h.utcOffset t ht
  · obtain ⟨t, ht, rfl | rfl⟩ := horigin u hu
    · exact h.dstOffset u ht
    · exact h.dstOffset t ht
  · obtain ⟨t, ht, rfl | rfl⟩ := horigin u hu
    · exact h.time u ht hne
    · exact absurd rfl hne

/-! ## Rollbacks -/

@[simp] theorem Transition.dstOffset_withoutRollback (prev t : Transition) :
    (withoutRollback prev t).dstOffset = t.dstOffset := by
  unfold withoutRollback
  split <;> rfl

theorem Transition.dvd_time_withoutRollback (hp : 60 ∣ p.utcOffset) (ht : 60 ∣ t.time) :
    60 ∣ (withoutRollback p t).time := by
  cases hback : t.rollsBack p with
  | true =>
    rw [withoutRollback_of_rollsBack hback]
    unfold secondsPerDay
    dsimp only
    omega
  | false => rwa [withoutRollback_eq_self hback]

theorem dvd_of_mem_mendInTurn (hp : 60 ∣ p.utcOffset) (hutc : ∀ t ∈ ts, 60 ∣ t.utcOffset)
    (hdst : ∀ t ∈ ts, 60 ∣ t.dstOffset) (htime : ∀ t ∈ ts, 60 ∣ t.time) :
    ∀ u ∈ mendInTurn p ts, 60 ∣ u.utcOffset ∧ 60 ∣ u.dstOffset ∧ 60 ∣ u.time := by
  induction ts generalizing p with
  | nil => simp [mendInTurn]
  | cons t ts ih =>
    obtain ⟨hutc, hutcs⟩ := List.forall_mem_cons.1 hutc
    obtain ⟨hdst, hdsts⟩ := List.forall_mem_cons.1 hdst
    obtain ⟨htime, htimes⟩ := List.forall_mem_cons.1 htime
    have hoffset : 60 ∣ (Transition.withoutRollback p t).utcOffset := by simpa using hutc
    rw [mendInTurn]
    refine List.forall_mem_cons.2 ⟨⟨hoffset, ?_, ?_⟩, ih hoffset hutcs hdsts htimes⟩
    · simpa using hdst
    · exact Transition.dvd_time_withoutRollback hp htime

/-- **Mending keeps a list in whole minutes.** -/
theorem IsWhole.fixRollbacks (h : IsWhole ts) : IsWhole (fixRollbacks ts) := by
  obtain ⟨first, rest, rfl, hfirst, hrest⟩ := h.begins
  obtain ⟨hutc, hutcs⟩ := List.forall_mem_cons.1 h.utcOffset
  obtain ⟨hdst, hdsts⟩ := List.forall_mem_cons.1 h.dstOffset
  have hmended := dvd_of_mem_mendInTurn hutc hutcs hdsts h.dvd_time_of_mem_rest
  rw [fixRollbacks_cons]
  refine ⟨List.forall_mem_cons.2 ⟨hutc, fun u hu => (hmended u hu).1⟩,
    List.forall_mem_cons.2 ⟨hdst, fun u hu => (hmended u hu).2.1⟩,
    List.forall_mem_cons.2 ⟨fun hne => absurd hfirst hne, fun u hu _ => (hmended u hu).2.2⟩,
    first, _, rfl, hfirst, fun u hu heq => ?_⟩
  exact not_dvd_beginningOfTime (heq ▸ (hmended u hu).2.2)

end ZoneTables
