import ZoneTables.Proofs.Replay.Firing
import ZoneTables.Proofs.Text.Pieces
import ZoneTables.Replay.Segment

/-!
# What a segment holds

No change of a segment comes before its start (`start_le_of_mem_ruledChanges`). Changes are in order
unless rules on the wall clock put them out of it (`pairwise_ruledChanges`), and they come before
the end of the line unless that is on the wall clock (`lt_ending_of_mem_inside`). Amounts and
letters are those of the rules (`origin_of_mem_ruledChanges`).
-/

namespace ZoneTables.Replay

variable {f : Firing} {fs : List Firing} {rules : List Rule} {line : ZoneLine} {h : Handover}
  {w : Window} {prev : Option Firing} {c d : Change}

/-! ## Firings inside and outside -/

/-- The firings of rules that are within a segment. -/
def insideFirings (rules : List Rule) (line : ZoneLine) (h : Handover) (w : Window) :
    List Firing := (split line h w none (firings rules line h w)).1

/-- The firings of rules that are not within a segment. -/
def outsideFirings (rules : List Rule) (line : ZoneLine) (h : Handover) (w : Window) :
    List Firing := (split line h w none (firings rules line h w)).2

theorem split_sublist (prev : Option Firing) (fs : List Firing) :
    (split line h w prev fs).1.Sublist fs ∧ (split line h w prev fs).2.Sublist fs := by
  induction fs generalizing prev with
  | nil => exact ⟨.slnil, .slnil⟩
  | cons f fs ih =>
    rw [split]
    split
    · exact ⟨(ih (some f)).1.cons_cons f, (ih (some f)).2.cons f⟩
    · exact ⟨(ih prev).1.cons f, (ih prev).2.cons_cons f⟩

theorem insideFirings_sublist : (insideFirings rules line h w).Sublist (firings rules line h w) :=
  (split_sublist none _).1

theorem exists_isWithin (hf : f ∈ (split line h w prev fs).1) :
    ∃ before, isWithin line h w before f = true := by
  induction fs generalizing prev with
  | nil => cases hf
  | cons g fs ih =>
    rw [split] at hf
    split at hf
    · rename_i hwithin
      rcases List.mem_cons.1 hf with rfl | hf
      · exact ⟨prev, hwithin⟩
      · exact ih hf
    · exact ih hf

theorem start_le_of_mem_inside (hf : f ∈ insideFirings rules line h w) : h.start ≤ f.time := by
  obtain ⟨before, hwithin⟩ := exists_isWithin hf
  simp only [isWithin, Bool.and_eq_true, decide_eq_true_eq] at hwithin
  exact hwithin.1.1.1

theorem lt_ending_of_mem_inside (hf : f ∈ insideFirings rules line h w)
    (hclock : line.endingClock ≠ .wall) : f.time < line.ending := by
  obtain ⟨before, hwithin⟩ := exists_isWithin hf
  simp only [isWithin, hclock, if_false, Bool.and_eq_true, decide_eq_true_eq] at hwithin
  have hlt := hwithin.1.1.2
  cases before <;> simpa using hlt

/-! ## Changes under rules -/

/-- The change at the start, unless a rule fires there. -/
def opening (rules : List Rule) (line : ZoneLine) (h : Handover) (w : Window) : List Change :=
  if (insideFirings rules line h w).any (·.time == h.start) then []
  else [openingChange h.start (insideFirings rules line h w) (outsideFirings rules line h w)]

/-- The changes under rules are the firings within after the change at the start. -/
theorem ruledChanges_eq :
    ruledChanges rules line h w =
      opening rules line h w ++ (insideFirings rules line h w).map Firing.change := by
  unfold ruledChanges opening insideFirings outsideFirings
  dsimp only
  split <;> rfl

theorem ruledChanges_eq_cons (hnone : ∀ f ∈ insideFirings rules line h w, f.time ≠ h.start) :
    ruledChanges rules line h w =
      openingChange h.start (insideFirings rules line h w) (outsideFirings rules line h w) ::
        (insideFirings rules line h w).map Firing.change := by
  rw [ruledChanges_eq, opening, if_neg]
  · rfl
  · simpa using hnone

theorem ruledChanges_ne_nil : ruledChanges rules line h w ≠ [] := by
  rw [ruledChanges_eq, opening]
  split
  · rename_i hany
    obtain ⟨f, hf, -⟩ := List.any_eq_true.1 hany
    exact List.append_ne_nil_of_right_ne_nil _ (by simpa using List.ne_nil_of_mem hf)
  · simp

theorem openingChange_time (start : Int) (inside outside : List Firing) :
    (openingChange start inside outside).time = start := by
  unfold openingChange
  split <;> rfl

theorem time_of_mem_opening (hc : c ∈ opening rules line h w) : c.time = h.start := by
  unfold opening at hc
  split at hc
  · cases hc
  · rw [List.mem_singleton.1 hc]
    exact openingChange_time _ _ _

theorem start_le_of_mem_ruledChanges (hc : c ∈ ruledChanges rules line h w) :
    h.start ≤ c.time := by
  rw [ruledChanges_eq, List.mem_append] at hc
  rcases hc with hc | hc
  · exact Int.le_of_eq (time_of_mem_opening hc).symm
  · obtain ⟨f, hf, rfl⟩ := List.mem_map.1 hc
    exact start_le_of_mem_inside hf

theorem start_or_lt_of_mem_ruledChanges (hclock : line.endingClock ≠ .wall)
    (hc : c ∈ ruledChanges rules line h w) : c.time = h.start ∨ c.time < line.ending := by
  rw [ruledChanges_eq, List.mem_append] at hc
  rcases hc with hc | hc
  · exact Or.inl (time_of_mem_opening hc)
  · obtain ⟨f, hf, rfl⟩ := List.mem_map.1 hc
    exact Or.inr (lt_ending_of_mem_inside hf hclock)

/-- The rule of the change has its time on the wall clock. -/
def Change.IsOnWall (c : Change) : Prop := ∃ r, c.rule = some r ∧ r.clock = .wall

/-- **Changes are in order, unless one of two that are not is on the wall clock.** -/
theorem pairwise_ruledChanges :
    (ruledChanges rules line h w).Pairwise fun c d =>
      c.time ≤ d.time ∨ c.IsOnWall ∨ d.IsOnWall := by
  rw [ruledChanges_eq, List.pairwise_append]
  refine ⟨?_, ?_, fun c hc d hd => Or.inl ?_⟩
  · unfold opening
    split
    · exact .nil
    · exact List.pairwise_singleton _ _
  · rw [List.pairwise_map]
    apply (pairwise_firings.sublist insideFirings_sublist).imp
    intro f g hfg
    by_cases hf : f.rule.clock = .wall
    · exact Or.inr (Or.inl ⟨f.rule, rfl, hf⟩)
    · by_cases hg : g.rule.clock = .wall
      · exact Or.inr (Or.inr ⟨g.rule, rfl, hg⟩)
      · exact Or.inl (hfg hf hg)
  · obtain ⟨f, hf, rfl⟩ := List.mem_map.1 hd
    rw [time_of_mem_opening hc]
    exact start_le_of_mem_inside hf

/-! ## Amounts and letters -/

theorem mem_of_latestBefore {start : Int} (hf : latestBefore start fs = some f) : f ∈ fs := by
  refine List.foldlRecOn (motive := fun latest => ∀ g, latest = some g → g ∈ fs) fs _ ?_ ?_ f hf
  · simp
  · intro latest hlatest g hg k hk
    split at hk
    · exact Option.some.inj hk ▸ hg
    · exact hlatest k hk

/-- Letters of standard time: they are unknown, or those of a rule without daylight saving. -/
def AreStandardLetters (rules : List Rule) (letters : String) : Prop :=
  letters = unknownLetters ∨ ∃ r ∈ rules, r.save = 0 ∧ letters = r.letters

theorem areStandardLetters_lettersOutside (start : Int) (hfs : ∀ f ∈ fs, f.rule ∈ rules) :
    AreStandardLetters rules (lettersOutside start fs) := by
  refine List.foldlRecOn (motive := AreStandardLetters rules) fs _ (Or.inl rfl) ?_
  intro letters hletters f hf
  split
  · rename_i htells
    exact Or.inr ⟨f.rule, hfs f hf, htells.1, rfl⟩
  · exact hletters

theorem areStandardLetters_standardLetters (start : Int) {inside outside : List Firing}
    (hinside : ∀ f ∈ inside, f.rule ∈ rules) (houtside : ∀ f ∈ outside, f.rule ∈ rules) :
    AreStandardLetters rules (standardLetters start inside outside) := by
  unfold standardLetters
  split
  · rename_i f hf
    have htells := List.find?_some hf
    simp only [Bool.and_eq_true, beq_iff_eq] at htells
    exact Or.inr ⟨f.rule, hinside f (List.mem_of_find?_eq_some hf), htells.1, rfl⟩
  · exact areStandardLetters_lettersOutside start houtside

/-- Where a change under rules comes from: no rule, and then it is to standard time, or a rule, and
then it has that rule's amount and letters. -/
inductive Change.Origin (rules : List Rule) : Change → Prop
  | standard {letters : String} (time : Int) (standard : AreStandardLetters rules letters) :
      Origin rules ⟨time, 0, letters, none⟩
  | rule {r : Rule} (time : Int) (mem : r ∈ rules) :
      Origin rules ⟨time, r.save, r.letters, some r⟩

/-- **Changes under rules come from the rules.** -/
theorem origin_of_mem_ruledChanges (hc : c ∈ ruledChanges rules line h w) : c.Origin rules := by
  have hinside : ∀ f ∈ insideFirings rules line h w, f.rule ∈ rules :=
    fun f hf => rule_mem_of_mem_firings (insideFirings_sublist.subset hf)
  have houtside : ∀ f ∈ outsideFirings rules line h w, f.rule ∈ rules :=
    fun f hf => rule_mem_of_mem_firings ((split_sublist none _).2.subset hf)
  rw [ruledChanges_eq, List.mem_append] at hc
  rcases hc with hc | hc
  · unfold opening at hc
    split at hc
    · cases hc
    · rw [List.mem_singleton.1 hc, openingChange]
      split
      · rename_i f hf
        exact .rule h.start (houtside f (mem_of_latestBefore hf))
      · exact .standard h.start (areStandardLetters_standardLetters h.start hinside houtside)
  · obtain ⟨f, hf, rfl⟩ := List.mem_map.1 hc
    exact .rule f.time (hinside f hf)

theorem rule_of_mem_ruledChanges (hc : c ∈ ruledChanges rules line h w) {r : Rule}
    (hr : c.rule = some r) : r ∈ rules ∧ c.save = r.save := by
  cases origin_of_mem_ruledChanges hc with
  | standard time hletters => cases hr
  | rule time hmem =>
    obtain rfl := Option.some.inj hr
    exact ⟨hmem, rfl⟩

theorem save_of_mem_ruledChanges (hc : c ∈ ruledChanges rules line h w) (hr : c.rule = none) :
    c.save = 0 := by
  cases origin_of_mem_ruledChanges hc with
  | standard time hletters => rfl
  | rule time hmem => cases hr

/-- **Amounts and letters are those of the rules**, but for standard time, whose letters may be
unknown. -/
theorem forall_ruledChanges {B : Int → Prop} {L : String → Prop} (hzero : B 0)
    (hunknown : L unknownLetters) (hrules : ∀ r ∈ rules, B r.save ∧ L r.letters) :
    ∀ c ∈ ruledChanges rules line h w, B c.save ∧ L c.letters := by
  intro c hc
  cases origin_of_mem_ruledChanges hc with
  | standard time hletters =>
    obtain rfl | ⟨r, hr, -, rfl⟩ := hletters
    · exact ⟨hzero, hunknown⟩
    · exact ⟨hzero, (hrules r hr).2⟩
  | rule time hmem => exact hrules _ hmem

/-! ## Abbreviations -/

theorem lacks_formatName {p : Char → Bool} {format letters name : String} {isDst : Bool}
    (hformat : Text.Lacks p format.toList) (hletters : Text.Lacks p letters.toList)
    (hname : formatName format letters isDst = some name) :
    name ≠ "" ∧ Text.Lacks p name.toList := by
  have habbreviation {cs : List Char} (hcs : Text.Lacks p cs) (h : abbreviation cs = some name) :
      name ≠ "" ∧ Text.Lacks p name.toList := by
    cases cs with
    | nil => cases h
    | cons c cs =>
      simp only [abbreviation] at h
      split at h
      · cases h
      · cases h
        rw [String.toList_ofList]
        exact ⟨by simp, hcs⟩
  unfold formatName at hname
  dsimp only at hname
  split at hname
  · cases hname
  · refine habbreviation ?_ hname
    split
    · rename_i before after _ hsplit
      rw [Text.eq_of_around? hsplit, Text.lacks_append, Text.lacks_append] at hformat
      exact Text.lacks_append.2 ⟨Text.lacks_append.2 ⟨hformat.1.1, hletters⟩, hformat.2⟩
    · rename_i standard daylight _ hsplit
      rw [Text.eq_of_around? hsplit, Text.lacks_append, Text.lacks_append] at hformat
      split
      · exact hformat.2
      · exact hformat.1.1
    · exact hformat

end ZoneTables.Replay
