import ZoneTables.Table.Encode

/-!
# Rules beyond the end of a list

The search for the rules that go on for ever looks at transitions from the last one back, as long as
they come from one set of rules. What it has found at each step is told by `Search.Finds`:
open-ended rules of the set of the last transition's rule. So if there is a tail, its rules are of
that set, and one is that of a transition to standard time, the other that of one to daylight saving
(`rules?_eq_some`).
-/

namespace ZoneTables

namespace Nominal

variable {s : Search} {t u : Transition} {ts seen : List Transition} {r : Rule}

/-- What a search through the transitions `seen` has found: rules without an end, all of the set of
the first transition's rule. -/
structure Search.Finds (seen : List Transition) (s : Search) : Prop where
  ruleSet : ∀ name, s.ruleSet = some name →
    ∃ u r, seen.head? = some u ∧ u.rule = some r ∧ r.name = name
  stdRule : ∀ r, s.stdRule = some r → s.ruleSet = some r.name ∧ r.isOpenEnded = true ∧
    ∃ u ∈ seen, u.rule = some r ∧ u.dstOffset = 0
  dstRule : ∀ r, s.dstRule = some r → s.ruleSet = some r.name ∧ r.isOpenEnded = true ∧
    ∃ u ∈ seen, u.rule = some r ∧ u.dstOffset ≠ 0

theorem Search.Finds.append (h : s.Finds seen) (ts : List Transition) : s.Finds (seen ++ ts) := by
  have hsub {p : Transition → Prop} (hp : ∃ u ∈ seen, p u) : ∃ u ∈ seen ++ ts, p u := by
    obtain ⟨u, hu, hpu⟩ := hp
    exact ⟨u, List.mem_append_left _ hu, hpu⟩
  refine ⟨?_, ?_, ?_⟩
  · intro name hname
    obtain ⟨u, r, hu, hr⟩ := h.ruleSet name hname
    exact ⟨u, r, by simp [hu], hr⟩
  · intro r hr
    obtain ⟨hset, hopen, hu⟩ := h.stdRule r hr
    exact ⟨hset, hopen, hsub hu⟩
  · intro r hr
    obtain ⟨hset, hopen, hu⟩ := h.dstRule r hr
    exact ⟨hset, hopen, hsub hu⟩

/-- **A transition of the same set of rules is one more to find a rule by.** -/
theorem Search.Finds.visit (h : s.Finds seen) (hfirst : s.ruleSet = none → seen = [])
    (hrule : t.rule = some r) (hset : s.ruleSet.all (· == r.name) = true) :
    (s.visit t r).Finds (seen ++ [t]) := by
  have hname : (s.visit t r).ruleSet = some r.name := by
    cases hs : s.ruleSet with
    | none => simp [Search.visit, hs]
    | some name =>
      have hname : name = r.name := by simpa [hs] using hset
      simp [Search.visit, hs, hname]
  have hold {r' : Rule} (hr' : s.ruleSet = some r'.name) :
      (s.visit t r).ruleSet = some r'.name := by
    simp [Search.visit, hr']
  have hmore := h.append [t]
  refine ⟨?_, ?_, ?_⟩
  · intro name hvisit
    obtain rfl : r.name = name := Option.some.inj (hname.symm.trans hvisit)
    cases hs : s.ruleSet with
    | none => exact ⟨t, r, by simp [hfirst hs], hrule, rfl⟩
    | some name =>
      have heq : name = r.name := by simpa [hs] using hset
      exact heq ▸ hmore.ruleSet name hs
  · intro r' hr'
    simp only [Search.visit] at hr'
    split at hr'
    · rename_i hcond
      obtain rfl := Option.some.inj hr'
      exact ⟨hname, hcond.2.2, t, by simp, hrule, hcond.2.1⟩
    · obtain ⟨hset', hopen, hu⟩ := hmore.stdRule r' hr'
      exact ⟨hold hset', hopen, hu⟩
  · intro r' hr'
    simp only [Search.visit] at hr'
    split at hr'
    · rename_i hcond
      obtain rfl := Option.some.inj hr'
      exact ⟨hname, hcond.2.2, t, by simp, hrule, hcond.2.1⟩
    · obtain ⟨hset', hopen, hu⟩ := hmore.dstRule r' hr'
      exact ⟨hold hset', hopen, hu⟩

/-- **A whole search finds rules of one set.** -/
theorem Search.Finds.run (h : s.Finds seen) (hfirst : s.ruleSet = none → seen = []) :
    (s.run ts).Finds (seen ++ ts) := by
  induction ts generalizing s seen with
  | nil => simpa [Search.run] using h
  | cons t ts ih =>
    rw [Search.run]
    split
    · exact h.append _
    · split
      · exact ⟨(h.append _).ruleSet, (h.append _).stdRule, (h.append _).dstRule⟩
      · rename_i r hrule
        split
        · rename_i hset
          rw [← List.singleton_append, ← List.append_assoc]
          apply ih (h.visit hfirst hrule hset)
          intro hnone
          simp [Search.visit] at hnone
        · exact h.append _

theorem Search.finds_start (lastLine : Option ZoneLine) : (Search.start lastLine).Finds [] := by
  unfold Search.start
  split
  · split
    · exact ⟨by simp, by simp, by simp⟩
    · exact ⟨by simp, by simp, by simp⟩
  · exact ⟨by simp, by simp, by simp⟩

/-- **The two rules beyond the end of a list** have no end and are of the set of the rule of the
last transition. One is that of a transition to standard time, and the other that of one to
daylight saving. -/
theorem rules?_eq_some {t : Timeline} {std dst : Rule} (hnominal : t.nominal = none)
    (h : (Nominal.ofTimeline t).rules? = some (std, dst)) :
    ∃ last r, t.transitions.getLast? = some last ∧ last.rule = some r ∧
      (std.name = r.name ∧ std.isOpenEnded = true ∧
        ∃ u ∈ t.transitions, u.rule = some std ∧ u.dstOffset = 0) ∧
      dst.name = r.name ∧ dst.isOpenEnded = true ∧
        ∃ u ∈ t.transitions, u.rule = some dst ∧ u.dstOffset ≠ 0 := by
  have hfinds : ((Search.start t.lastLine).run t.transitions.reverse).Finds
      ([] ++ t.transitions.reverse) := (Search.finds_start t.lastLine).run fun _ => rfl
  rw [List.nil_append] at hfinds
  have hboth : ((Search.start t.lastLine).run t.transitions.reverse).stdRule = some std ∧
      ((Search.start t.lastLine).run t.transitions.reverse).dstRule = some dst := by
    simp only [ofTimeline, hnominal, rules?] at h
    split at h
    · rename_i hstd hdst
      obtain ⟨rfl, rfl⟩ := Prod.mk.inj (Option.some.inj h)
      exact ⟨hstd, hdst⟩
    · cases h
  obtain ⟨hstdSet, hstdOpen, v, hv, hvrule⟩ := hfinds.stdRule std hboth.1
  obtain ⟨hdstSet, hdstOpen, u, hu, hurule⟩ := hfinds.dstRule dst hboth.2
  obtain ⟨last, r, hlast, hrule, hname⟩ := hfinds.ruleSet std.name hstdSet
  rw [List.head?_reverse] at hlast
  have hdstName : dst.name = std.name := Option.some.inj (hdstSet.symm.trans hstdSet)
  exact ⟨last, r, hlast, hrule, ⟨hname.symm, hstdOpen, v, List.mem_reverse.1 hv, hvrule⟩,
    hdstName.trans hname.symm, hdstOpen, u, List.mem_reverse.1 hu, hurule⟩

end Nominal

theorem Table.tailSection_eq_nil_iff (fix : Bool) (n : Nominal) :
    tailSection fix n = [] ↔ n.rules? = none := by
  unfold tailSection tailRules?
  cases n.rules? with
  | none => simp
  | some pair => simp

end ZoneTables
