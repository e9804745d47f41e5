import ZoneTables.Proofs.Timeline.NormalForm

/-!
# Lists without duplicates are canonical

In a list without duplicates every transition sets clocks otherwise than the one before, so that
another list that sets clocks in the same way at every instant has a transition by then
(`exists_le_of_settingAt_eq`). Two such lists have the same transitions therefore
(`forall₂_agrees_of_settingAt_eq`). Hence lists that set clocks in the same way are those that are
the same without duplicates (`removeDuplicates_canonical`).
-/

namespace ZoneTables

variable {ts us ws : List Transition} {t u v w : Transition} {x : Int}

theorem Transition.agrees_iff :
    t.agrees u = true ↔ t.time = u.time ∧ t.setting = u.setting := by
  simp [agrees, setting, and_assoc]

theorem Transition.agrees_symm (h : t.agrees u = true) : u.agrees t = true :=
  agrees_iff.2 ((agrees_iff.1 h).imp Eq.symm Eq.symm)

/-! ## How clocks are set by a list -/

theorem settingAt_cons_of_lt (hle : t.time ≤ x) (h : ∀ v ∈ ts, x < v.time) :
    settingAt x (t :: ts) = some t.setting := by
  have hin : inEffect x ([] ++ t :: ts) = some t := inEffect_append_cons hle h
  rw [settingAt, ← List.nil_append (t :: ts), hin]
  rfl

theorem settingAt_cons_cons (hle : u.time ≤ x) :
    settingAt x (t :: u :: ts) = settingAt x (u :: ts) := by
  obtain ⟨setting, hsetting⟩ : ∃ setting, settingAt x (u :: ts) = some setting := by
    rw [← Option.ne_none_iff_exists', Ne, settingAt_eq_none_iff]
    exact fun hlater => absurd (hlater u List.mem_cons_self) (by omega)
  rw [settingAt_cons, hsetting]
  rfl

theorem settingAt_congr (h : List.Forall₂ (fun t u => t.agrees u = true) ts us) :
    settingAt x ts = settingAt x us := by
  induction h with
  | nil => rfl
  | @cons t u ts us htu hrest ih =>
    obtain ⟨htime, hsetting⟩ := Transition.agrees_iff.1 htu
    have hhead : settingAt x [t] = settingAt x [u] := by
      rw [settingAt, settingAt, inEffect, inEffect, List.filter_singleton, List.filter_singleton,
        htime]
      cases decide (u.time ≤ x) <;> simp [hsetting]
    rw [settingAt_cons, ih, hhead, ← settingAt_cons]

/-! ## Lists without duplicates -/

/-- A list in strict order of time in which every transition sets clocks anew. -/
structure IsCanonical (ts : List Transition) : Prop where
  ordered : ts.Pairwise fun p q => p.time < q.time
  changes : ts.IsChain fun p q => q.setting ≠ p.setting

namespace IsCanonical

theorem tail (h : IsCanonical (t :: ts)) : IsCanonical ts :=
  ⟨(List.pairwise_cons.1 h.ordered).2, h.changes.tail⟩

theorem lt (h : IsCanonical (t :: ts)) : ∀ u ∈ ts, t.time < u.time :=
  (List.pairwise_cons.1 h.ordered).1

theorem le_of_mem (h : IsCanonical (t :: ts)) (hu : u ∈ t :: ts) : t.time ≤ u.time :=
  time_le_of_mem_cons h.ordered hu

theorem setting_head (h : IsCanonical (t :: ts)) :
    settingAt t.time (t :: ts) = some t.setting :=
  settingAt_cons_of_lt (Int.le_refl _) h.lt

theorem agrees (ht : IsCanonical (t :: ts)) (hu : IsCanonical (u :: us)) (htime : t.time = u.time)
    (h : settingAt t.time (t :: ts) = settingAt t.time (u :: us)) : t.agrees u = true := by
  rw [ht.setting_head, htime, hu.setting_head] at h
  exact Transition.agrees_iff.2 ⟨htime, Option.some.inj h⟩

/-- Where a list sets clocks anew, another that sets them in the same way has had a transition. -/
theorem exists_le (h : IsCanonical (t :: w :: ws)) (hagrees : t.agrees u = true)
    (heq : settingAt w.time (t :: w :: ws) = settingAt w.time (u :: us)) :
    ∃ v ∈ us, v.time ≤ w.time := by
  obtain ⟨htime, hsetting⟩ := Transition.agrees_iff.1 hagrees
  have hlt := h.lt w List.mem_cons_self
  by_contra! hlater
  rw [settingAt_cons_cons (Int.le_refl _), h.tail.setting_head,
    settingAt_cons_of_lt (by omega) hlater, ← hsetting] at heq
  exact (List.isChain_cons_cons.1 h.changes).1 (Option.some.inj heq)

/-- The next transition of another list is no later. -/
theorem next_le (ht : IsCanonical (t :: w :: ws)) (hu : IsCanonical (u :: v :: us))
    (hagrees : t.agrees u = true)
    (heq : settingAt w.time (t :: w :: ws) = settingAt w.time (u :: v :: us)) :
    v.time ≤ w.time := by
  obtain ⟨other, hother, hle⟩ := ht.exists_le hagrees heq
  exact Int.le_trans (hu.tail.le_of_mem hother) hle

/-- **Lists without duplicates that set clocks in the same way agree.** -/
theorem forall₂_agrees (ht : IsCanonical (t :: ts)) (hu : IsCanonical (u :: us))
    (htime : t.time = u.time)
    (h : ∀ x, t.time ≤ x → settingAt x (t :: ts) = settingAt x (u :: us)) :
    List.Forall₂ (fun t u => t.agrees u = true) (t :: ts) (u :: us) := by
  induction ts generalizing t u us with
  | nil =>
    have hagrees := ht.agrees hu htime (h _ (Int.le_refl _))
    cases us with
    | nil => exact .cons hagrees .nil
    | cons v vs =>
      have hv : t.time ≤ v.time := htime ▸ hu.le_of_mem (by simp)
      obtain ⟨w, hw, -⟩ := hu.exists_le (Transition.agrees_symm hagrees) (h _ hv).symm
      cases hw
  | cons w ws ih =>
    have hagrees := ht.agrees hu htime (h _ (Int.le_refl _))
    have hw : t.time ≤ w.time := ht.le_of_mem (by simp)
    cases us with
    | nil =>
      obtain ⟨v, hv, -⟩ := ht.exists_le hagrees (h _ hw)
      cases hv
    | cons v vs =>
      have hv : t.time ≤ v.time := htime ▸ hu.le_of_mem (by simp)
      have hnext : w.time = v.time := Int.le_antisymm
        (hu.next_le ht (Transition.agrees_symm hagrees) (h _ hv).symm)
        (ht.next_le hu hagrees (h _ hw))
      refine .cons hagrees (ih ht.tail hu.tail hnext fun x hx => ?_)
      rw [← settingAt_cons_cons hx, h x (Int.le_trans hw hx), settingAt_cons_cons (hnext ▸ hx)]

end IsCanonical

theorem isCanonical_removeDuplicates (hts : ts.Pairwise fun u v => u.time < v.time) :
    IsCanonical (removeDuplicates ts) where
  ordered := hts.sublist (removeDuplicates_sublist ts)
  changes := (isChain_removeDuplicates ts).imp fun p q hrepeats heq => by
    rw [Transition.repeats_iff.2 (.inr heq)] at hrepeats
    cases hrepeats

/-- **Removing duplicates gives a canonical form.** Doing so again changes nothing, and lists in
strict order from the beginning of time on come to the same exactly if they set clocks in the same
way at every instant. -/
theorem removeDuplicates_canonical :
    (∀ ts, removeDuplicates (removeDuplicates ts) = removeDuplicates ts) ∧
    ∀ t u : Transition, ∀ ts us : List Transition,
      t.time = beginningOfTime → (t :: ts).Pairwise (fun p q => p.time < q.time) →
      u.time = beginningOfTime → (u :: us).Pairwise (fun p q => p.time < q.time) →
      (List.Forall₂ (fun p q => p.agrees q = true) (removeDuplicates (t :: ts))
          (removeDuplicates (u :: us)) ↔
        ∀ x, beginningOfTime ≤ x → settingAt x (t :: ts) = settingAt x (u :: us)) := by
  refine ⟨fun ts => removeDuplicates_eq_self (isChain_removeDuplicates ts), ?_⟩
  intro t u ts us ht hts hu hus
  constructor
  · intro hagree x _
    rw [← settingAt_removeDuplicates hts, settingAt_congr hagree, settingAt_removeDuplicates hus]
  · intro hsame
    refine (isCanonical_removeDuplicates hts).forall₂_agrees (isCanonical_removeDuplicates hus)
      (ht.trans hu.symm) fun x hx => ?_
    have hbegin : beginningOfTime ≤ x := ht ▸ hx
    have hright := settingAt_removeDuplicates (x := x) hus
    rw [removeDuplicates] at hright
    rw [hright, ← hsame x hbegin, ← settingAt_removeDuplicates hts]
    rfl

/-- Summer time for an hour, with a transition before it and one within it that change nothing. -/
def summerHour : List Transition :=
  [⟨beginningOfTime, 0, 0, some "GMT", none⟩, ⟨-5, 0, 0, some "GMT", none⟩,
    ⟨0, 3600, 3600, some "BST", none⟩, ⟨5, 3600, 3600, some "BST", none⟩,
    ⟨3600, 0, 0, some "GMT", none⟩]

/-- The same with other transitions that change nothing. -/
def summerHourAgain : List Transition :=
  [⟨beginningOfTime, 0, 0, some "GMT", none⟩, ⟨0, 3600, 3600, some "BST", none⟩,
    ⟨3600, 0, 0, some "GMT", none⟩, ⟨7200, 0, 0, some "GMT", none⟩]

theorem removeDuplicates_canonical_summerHour :
    summerHour.Pairwise (fun (p q : Transition) => p.time < q.time) ∧
      summerHourAgain.Pairwise (fun (p q : Transition) => p.time < q.time) ∧
      ∀ x, beginningOfTime ≤ x → settingAt x summerHour = settingAt x summerHourAgain := by
  have hordered : summerHour.Pairwise (fun (p q : Transition) => p.time < q.time) := by decide
  have hagain : summerHourAgain.Pairwise (fun (p q : Transition) => p.time < q.time) := by decide
  refine ⟨hordered, hagain,
    (removeDuplicates_canonical.2 _ _ _ _ rfl hordered rfl hagain).1 ?_⟩
  exact .cons (by decide) (.cons (by decide) (.cons (by decide) .nil))

end ZoneTables
