import ZoneTables.Proofs.Timeline.InEffect
import ZoneTables.Proofs.Timeline.Rollback

/-!
# The date on the wall

`dateAt` is the date that clocks show at an instant. From one second to the next the transition in
effect stays, and then the date does not go back, or the transition after it comes
(`inEffect_succ`). The search for rollbacks looks at those seconds only, and so it finds none
exactly if the date never goes back (`findRollbacks_eq_none_iff`).
-/

namespace ZoneTables

variable {ts : List Transition} {p q u : Transition} {x y : Int}

/-- The date that clocks show at an instant. -/
def dateAt (instant : Int) (ts : List Transition) : Option Date :=
  (inEffect instant ts).map fun u => localDate instant u.utcOffset

theorem dateAt_of_inEffect (h : inEffect x ts = some u) :
    dateAt x ts = some (localDate x u.utcOffset) := by
  rw [dateAt, h]
  rfl

/-! ## Neighbours -/

theorem mem_steps_iff : (p, q) ∈ steps ts ↔ ∃ as bs, ts = as ++ p :: q :: bs := by
  induction ts with
  | nil => simp [steps]
  | cons t ts ih =>
    cases ts with
    | nil => simp [steps, List.cons_eq_append_iff]
    | cons u us =>
      rw [steps_cons_cons, List.mem_cons, ih]
      constructor
      · rintro (heq | ⟨as, bs, hus⟩)
        · cases heq
          exact ⟨[], us, rfl⟩
        · exact ⟨t :: as, bs, congrArg (t :: ·) hus⟩
      · rintro ⟨as, bs, hts⟩
        cases as with
        | nil =>
          cases hts
          exact .inl rfl
        | cons a as =>
          obtain ⟨-, hus⟩ := List.cons.inj hts
          exact .inr ⟨as, bs, hus⟩

theorem inEffect_succ (hts : ts.Pairwise fun u v => u.time < v.time)
    (hu : inEffect x ts = some u) : inEffect (x + 1) ts = some u ∨
      ∃ v, (u, v) ∈ steps ts ∧ v.time = x + 1 ∧ inEffect (x + 1) ts = some v := by
  obtain ⟨as, bs, rfl, hle, hbs⟩ := exists_append_of_inEffect hts hu
  by_cases hnext : ∀ v ∈ bs, x + 1 < v.time
  · exact .inl (inEffect_append_cons (by omega) hnext)
  · -- the first of those that come later does so now
    cases bs with
    | nil => exact absurd (fun _ hv => absurd hv List.not_mem_nil) hnext
    | cons v bs =>
      have hlater : ∀ w ∈ bs, v.time < w.time :=
        (List.pairwise_cons.1 (List.pairwise_cons.1 (List.pairwise_append.1 hts).2.1).2).1
      have hxv := hbs v List.mem_cons_self
      have hv : v.time = x + 1 := by
        by_contra hne
        refine hnext (List.forall_mem_cons.2 ⟨by omega, fun w hw => ?_⟩)
        have := hlater w hw
        omega
      refine .inr ⟨v, mem_steps_iff.2 ⟨as, bs, rfl⟩, hv, ?_⟩
      rw [List.append_cons, ← hv]
      exact inEffect_append_cons (Int.le_refl _) hlater

/-- One second before a transition, the one before it in the list is in effect. -/
theorem inEffect_of_mem_steps (hts : ts.Pairwise fun u v => u.time < v.time)
    (h : (p, q) ∈ steps ts) :
    inEffect (q.time - 1) ts = some p ∧ inEffect q.time ts = some q := by
  obtain ⟨as, bs, rfl⟩ := mem_steps_iff.1 h
  obtain ⟨hp, hqbs⟩ := List.pairwise_cons.1 (List.pairwise_append.1 hts).2.1
  have hpq := hp q List.mem_cons_self
  have hlater := (List.pairwise_cons.1 hqbs).1
  constructor
  · refine inEffect_append_cons (by omega) (List.forall_mem_cons.2 ⟨by omega, fun v hv => ?_⟩)
    have := hlater v hv
    omega
  · rw [List.append_cons]
    exact inEffect_append_cons (Int.le_refl _) hlater

/-! ## The date does not go back -/

/-- **Without rollbacks no day comes back.** -/
theorem day_mono (hts : ts.Pairwise fun u v => u.time < v.time) (hback : hasRollbacks ts = false)
    (hu : inEffect x ts = some u) (hxy : x ≤ y) :
    ∃ v, inEffect y ts = some v ∧
      (x + u.utcOffset) / secondsPerDay ≤ (y + v.utcOffset) / secondsPerDay := by
  induction y, hxy using Int.leInduction with
  | base => exact ⟨u, hu, Int.le_refl _⟩
  | succ y hxy ih =>
    obtain ⟨v, hv, hle⟩ := ih
    rcases inEffect_succ hts hv with hsame | ⟨w, hvw, htime, hw⟩
    · refine ⟨v, hsame, Int.le_trans hle (Int.ediv_le_ediv (by decide) ?_)⟩
      omega
    · have hforth : ¬ w.rollsBack v = true := List.any_eq_false.1 hback (v, w) hvw
      rw [Transition.rollsBack_iff, htime, Int.add_sub_cancel] at hforth
      exact ⟨w, hw, Int.le_trans hle (Int.not_lt.1 hforth)⟩

theorem exists_inEffect_cons_iff (hts : (p :: ts).Pairwise fun u v => u.time < v.time) :
    (∃ u, inEffect x (p :: ts) = some u) ↔ p.time ≤ x := by
  rw [← Option.ne_none_iff_exists', Ne, inEffect_eq_none_iff, ← Int.not_lt, not_congr]
  constructor
  · exact fun hlater => hlater p List.mem_cons_self
  · exact fun hlt => forall_lt_of_head? hts (by simpa using hlt)

/-- **A search finds no rollbacks exactly if the date on the wall never goes back**, in a list in
strict order, from its first transition on. -/
theorem findRollbacks_eq_none_iff (zone : Option String) (warn : Bool)
    (hts : ts.Pairwise fun u v => u.time < v.time) :
    (∃ us log, findRollbacks zone false warn ts = .ok (.none, us, log)) ↔
      ∀ first ∈ ts.head?, ∀ x y, first.time ≤ x → x ≤ y →
        ∃ d e, dateAt x ts = some d ∧ dateAt y ts = some e ∧ e.before d = false := by
  rw [exists_findRollbacks_eq_none_iff]
  cases ts with
  | nil => simp [hasRollbacks, steps]
  | cons first rest =>
    simp only [List.head?_cons, Option.mem_some, forall_eq']
    constructor
    · intro hback x y hx hxy
      obtain ⟨u, hu⟩ := (exists_inEffect_cons_iff hts).2 hx
      obtain ⟨v, hv, hle⟩ := day_mono hts hback hu hxy
      refine ⟨_, _, dateAt_of_inEffect hu, dateAt_of_inEffect hv, ?_⟩
      rw [← Bool.not_eq_true, localDate_before_iff]
      exact Int.not_lt.2 hle
    · intro hforth
      refine List.any_eq_false.2 ?_
      rintro ⟨p, q⟩ hpq
      obtain ⟨hp, hq⟩ := inEffect_of_mem_steps hts hpq
      have hx := (exists_inEffect_cons_iff hts).1 ⟨p, hp⟩
      obtain ⟨d, e, hd, he, hle⟩ := hforth _ q.time hx (by omega)
      cases hd.symm.trans (dateAt_of_inEffect hp)
      cases he.symm.trans (dateAt_of_inEffect hq)
      simpa [Transition.rollsBack] using hle

/-- Clocks go forward on one day, and back from midnight at the end of it. -/
def backFromMidnight : List Transition :=
  [⟨beginningOfTime, 0, 0, none, none⟩, ⟨1552089600, 3600, 0, none, none⟩,
    ⟨1552172400, 0, 0, none, none⟩]

theorem findRollbacks_eq_none_backFromMidnight :
    backFromMidnight.Pairwise (fun (u v : Transition) => u.time < v.time) ∧
      (∃ us log, findRollbacks none false true backFromMidnight = .ok (.none, us, log)) ∧
      ∀ x y, beginningOfTime ≤ x → x ≤ y → ∃ d e, dateAt x backFromMidnight = some d ∧
        dateAt y backFromMidnight = some e ∧ e.before d = false := by
  have hts : backFromMidnight.Pairwise (fun (u v : Transition) => u.time < v.time) := by decide
  have hnone : ∃ us log, findRollbacks none false true backFromMidnight =
      .ok (.none, us, log) := ⟨_, _, rfl⟩
  exact ⟨hts, hnone, (findRollbacks_eq_none_iff none true hts).1 hnone _ rfl⟩

end ZoneTables
