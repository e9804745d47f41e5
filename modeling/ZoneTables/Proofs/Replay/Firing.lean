import Mathlib.Data.List.Forall2
import Mathlib.Data.List.Zip
import ZoneTables.Replay.Firing

/-!
# Firings in order

Firings are sorted before those on the wall clock are moved by what clocks are ahead then, and not
sorted again. Only firings on the wall clock can get out of order that way (`pairwise_firings`).
-/

namespace ZoneTables.Replay

variable {f g : Firing} {fs : List Firing} {rules : List Rule} {line : ZoneLine} {h : Handover}
  {w : Window}

/-- The rules of a line, each with the years in which it may fire for the line. -/
def occurrences (rules : List Rule) (line : ZoneLine) (w : Window) : List (Rule × Int) :=
  rules.flatMap fun r => (ruleYears r line.lastRuleYear w).map fun year => (r, year)

theorem candidates_eq_map_occurrences :
    candidates rules line h w = (occurrences rules line w).map fun o => firing line h o.1 o.2 := by
  simp only [candidates, occurrences, List.map_flatMap, List.map_map]
  rfl

theorem rule_mem_of_mem_occurrences {a : Rule × Int} (ha : a ∈ occurrences rules line w) :
    a.1 ∈ rules := by
  obtain ⟨r, hr, hmap⟩ := List.mem_flatMap.1 ha
  obtain ⟨year, -, rfl⟩ := List.mem_map.1 hmap
  exact hr

/-- `g` is the firing `f`, at another time only if its rule is on the wall clock. -/
structure Firing.MovesTo (f g : Firing) : Prop where
  rule_eq : g.rule = f.rule
  time_eq : f.rule.clock ≠ .wall → g.time = f.time

theorem Firing.movesTo_self (f : Firing) : f.MovesTo f := ⟨rfl, fun _ => rfl⟩

theorem Firing.movesTo_after (prev f : Firing) : f.MovesTo (prev.after f) := by
  unfold Firing.after
  split
  · rename_i hwall
    exact ⟨rfl, fun h => absurd hwall h⟩
  · exact f.movesTo_self

/-- **Chaining moves firings**, and neither adds nor drops any. -/
theorem forall₂_chain (fs : List Firing) : List.Forall₂ Firing.MovesTo fs (chain fs) := by
  cases fs with
  | nil => exact .nil
  | cons f fs =>
    refine .cons f.movesTo_self ?_
    induction fs generalizing f with
    | nil => exact .nil
    | cons g gs ih => exact .cons (f.movesTo_after g) (ih g)

theorem exists_of_mem_zipWith_after {prevs : List Firing}
    (hg : g ∈ List.zipWith Firing.after prevs fs) :
    ∃ prev ∈ prevs, ∃ f ∈ fs, g = prev.after f := by
  rw [← List.map_uncurry_zip_eq_zipWith] at hg
  obtain ⟨⟨prev, f⟩, hpair, rfl⟩ := List.mem_map.1 hg
  obtain ⟨hprev, hf⟩ := List.of_mem_zip hpair
  exact ⟨prev, hprev, f, hf, rfl⟩

theorem exists_after_of_mem_chain (hg : g ∈ chain fs) :
    ∃ f ∈ fs, g = f ∨ ∃ prev ∈ fs, g = prev.after f := by
  cases fs with
  | nil => cases hg
  | cons f fs =>
    rcases List.mem_cons.1 hg with rfl | hg
    · exact ⟨g, List.mem_cons_self, Or.inl rfl⟩
    · obtain ⟨prev, hprev, next, hnext, rfl⟩ := exists_of_mem_zipWith_after hg
      exact ⟨next, List.mem_cons_of_mem _ hnext, Or.inr ⟨prev, hprev, rfl⟩⟩

theorem exists_of_mem_chain (hg : g ∈ chain fs) : ∃ f ∈ fs, f.MovesTo g := by
  obtain ⟨f, hf, rfl | ⟨prev, -, rfl⟩⟩ := exists_after_of_mem_chain hg
  · exact ⟨g, hf, g.movesTo_self⟩
  · exact ⟨f, hf, prev.movesTo_after f⟩

theorem exists_mem_chain_of_mem (hf : f ∈ fs) : ∃ g ∈ chain fs, f.MovesTo g := by
  obtain ⟨i, hi, rfl⟩ := List.getElem_of_mem hf
  obtain ⟨hlength, hmoves⟩ := List.forall₂_iff_get.1 (forall₂_chain fs)
  exact ⟨(chain fs)[i], List.getElem_mem _, hmoves i hi (hlength ▸ hi)⟩

/-- The firings of a list as candidates, in the order of their times. -/
def sortedCandidates (rules : List Rule) (line : ZoneLine) (h : Handover) (w : Window) :
    List Firing :=
  (candidates rules line h w).mergeSort fun a b => a.time ≤ b.time

theorem pairwise_sortedCandidates :
    (sortedCandidates rules line h w).Pairwise fun f g => f.time ≤ g.time := by
  refine (List.pairwise_mergeSort ?_ ?_ _).imp of_decide_eq_true
  · intro a b c hab hbc
    exact decide_eq_true (Int.le_trans (of_decide_eq_true hab) (of_decide_eq_true hbc))
  · intro a b
    simp only [Bool.or_eq_true, decide_eq_true_eq]
    exact Int.le_total a.time b.time

theorem pairwise_of_movesTo {gs : List Firing} (hmoves : List.Forall₂ Firing.MovesTo fs gs)
    (hsorted : fs.Pairwise fun f g => f.time ≤ g.time) :
    gs.Pairwise fun f g => f.rule.clock ≠ .wall → g.rule.clock ≠ .wall → f.time ≤ g.time := by
  induction hmoves with
  | nil => exact .nil
  | @cons a b as bs hab hmoves ih =>
    obtain ⟨hhead, htail⟩ := List.pairwise_cons.1 hsorted
    rw [List.pairwise_cons]
    refine ⟨?_, ih htail⟩
    intro g hg hb hgwall
    obtain ⟨i, hi, rfl⟩ := List.getElem_of_mem hg
    have hi' : i < as.length := hmoves.length_eq ▸ hi
    have hig := (List.forall₂_iff_get.1 hmoves).2 i hi' hi
    simp only [List.get_eq_getElem] at hig
    rw [hab.rule_eq] at hb
    rw [hig.rule_eq] at hgwall
    rw [hab.time_eq hb, hig.time_eq hgwall]
    exact hhead _ (List.getElem_mem hi')

/-- **Firings are in order unless one of them is on the wall clock.** -/
theorem pairwise_firings :
    (firings rules line h w).Pairwise fun f g =>
      f.rule.clock ≠ .wall → g.rule.clock ≠ .wall → f.time ≤ g.time :=
  pairwise_of_movesTo (forall₂_chain _) pairwise_sortedCandidates

theorem exists_of_mem_candidates (hf : f ∈ candidates rules line h w) :
    ∃ r ∈ rules, ∃ year, firstRuleYear ≤ year ∧ f = firing line h r year := by
  obtain ⟨r, hr, hmap⟩ := List.mem_flatMap.1 hf
  obtain ⟨year, hyear, rfl⟩ := List.mem_map.1 hmap
  obtain ⟨i, -, rfl⟩ := List.mem_map.1 hyear
  exact ⟨r, hr, _, by omega, rfl⟩

theorem time_of_mem_candidates (hf : f ∈ candidates rules line h w) :
    f.rule ∈ rules ∧ ∃ year, firstRuleYear ≤ year ∧
      (f.time = f.rule.instant year h.stdoff h.dst ∨ f.time = f.rule.instant year line.stdoff 0) := by
  obtain ⟨r, hr, year, hyear, rfl⟩ := exists_of_mem_candidates hf
  refine ⟨hr, year, hyear, ?_⟩
  unfold firing
  dsimp only
  split
  · rename_i hstart
    exact Or.inl hstart.symm
  · exact Or.inr rfl

/-- A firing is at the time of a candidate, less at most what clocks are ahead after another. -/
theorem time_of_mem_firings (hf : f ∈ firings rules line h w) :
    ∃ g ∈ candidates rules line h w, f.time = g.time ∨
      ∃ prev ∈ candidates rules line h w, f.time = g.time - prev.rule.save := by
  obtain ⟨g, hg, hgf⟩ := exists_after_of_mem_chain hf
  refine ⟨g, List.mem_mergeSort.1 hg, ?_⟩
  rcases hgf with rfl | ⟨prev, hprev, rfl⟩
  · exact Or.inl rfl
  · unfold Firing.after
    split
    · exact Or.inr ⟨prev, List.mem_mergeSort.1 hprev, rfl⟩
    · exact Or.inl rfl

theorem rule_mem_of_mem_firings (hf : f ∈ firings rules line h w) : f.rule ∈ rules := by
  obtain ⟨g, hg, hgf⟩ := exists_of_mem_chain hf
  rw [hgf.rule_eq]
  obtain ⟨r, hr, year, -, rfl⟩ := exists_of_mem_candidates (List.mem_mergeSort.1 hg)
  exact hr

end ZoneTables.Replay
