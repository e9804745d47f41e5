import ZoneTables.Proofs.Source.Contents

/-!
# Groups of zone lines

Rules and links aside, the lines of a source are to form groups: a line that names a zone and the
further lines of that zone, of which exactly the last one ends it (`AreGroups`). Adding lines one
after the other to what was read before succeeds and leaves no zone open exactly for such lines
(`Progress.exists_areGroups_iff`), and then the zones are those of the groups
(`Progress.Reaches.zones`). Rules and links are collected on the way, in zones or between them
(`Progress.Records`).
-/

namespace ZoneTables.Source

/-! ## Groups -/

/-- The zone line of a source line, with the name of the zone if it is the zone's first. -/
def Line.zoneLine? : Line → Option (Option String × ZoneLine)
  | .zone name l => some (some name, l)
  | .continuation l => some (none, l)
  | .rule _ | .link _ _ => none

/-- A zone as a source writes it. -/
structure Group where
  name : String
  lines : List ZoneLine

/-- Of some lines exactly the last one ends a zone. -/
def IsClosed (lines : List ZoneLine) : Prop :=
  ∃ init last, lines = init ++ [last] ∧ last.isLast = true ∧ ∀ l ∈ init, l.isLast = false

/-- Lines of a zone after its first. -/
def furtherLines (ls : List ZoneLine) : List (Option String × ZoneLine) :=
  ls.map fun l => (none, l)

/-- The lines of a group: the first with the name, and the further ones. -/
def Group.written : Group → List (Option String × ZoneLine)
  | ⟨_, []⟩ => []
  | ⟨name, l :: ls⟩ => (some name, l) :: furtherLines ls

/-- Rules and links aside, lines are closed groups one after the other. -/
def AreGroups (lines : List Line) (groups : List Group) : Prop :=
  lines.filterMap Line.zoneLine? = groups.flatMap Group.written ∧ ∀ g ∈ groups, IsClosed g.lines

/-- The lines of the last group of a name. -/
def lastGroup? (name : String) (groups : List Group) : Option (List ZoneLine) :=
  (groups.filter (·.name == name)).getLast?.map (·.lines)

theorem lastGroup?_append (name : String) (groups more : List Group) :
    lastGroup? name (groups ++ more) = (lastGroup? name more).or (lastGroup? name groups) := by
  unfold lastGroup?
  rw [List.filter_append, List.getLast?_append]
  cases (more.filter (·.name == name)).getLast? <;> rfl

theorem lastGroup?_singleton (name : String) (g : Group) :
    lastGroup? name [g] = if g.name = name then some g.lines else none := by
  by_cases h : g.name = name <;> simp [lastGroup?, h]

theorem not_isClosed_nil : ¬ IsClosed [] := by
  rintro ⟨init, last, h, -⟩
  simp at h

theorem isClosed_cons_of_isLast {l : ZoneLine} {ls : List ZoneLine} (hl : l.isLast = true) :
    IsClosed (l :: ls) ↔ ls = [] := by
  constructor
  · rintro ⟨init, last, h, -, hinit⟩
    cases init with
    | nil => simpa using (List.cons.inj h).2
    | cons i init =>
      obtain ⟨rfl, -⟩ := List.cons.inj h
      rw [hinit l List.mem_cons_self] at hl
      cases hl
  · rintro rfl
    exact ⟨[], l, rfl, hl, by simp⟩

theorem isClosed_cons_of_not_isLast {l : ZoneLine} {ls : List ZoneLine} (hl : l.isLast = false) :
    IsClosed (l :: ls) ↔ IsClosed ls := by
  constructor
  · rintro ⟨init, last, h, hlast, hinit⟩
    cases init with
    | nil =>
      obtain ⟨rfl, -⟩ := List.cons.inj h
      rw [hl] at hlast
      cases hlast
    | cons i init =>
      exact ⟨init, last, (List.cons.inj h).2, hlast, fun k hk => hinit k (by simp [hk])⟩
  · rintro ⟨init, last, rfl, hlast, hinit⟩
    exact ⟨l :: init, last, rfl, hlast, List.forall_mem_cons.2 ⟨hl, hinit⟩⟩

theorem isClosed_append_singleton {ls : List ZoneLine} {l : ZoneLine}
    (hls : ∀ k ∈ ls, k.isLast = false) (hl : l.isLast = true) : IsClosed (ls ++ [l]) :=
  ⟨ls, l, rfl, hl, hls⟩

theorem eq_of_isClosed {ls ks : List ZoneLine} {r s : List (Option String × ZoneLine)}
    (hls : IsClosed ls) (hks : IsClosed ks) (h : furtherLines ls ++ r = furtherLines ks ++ s) :
    ls = ks ∧ r = s := by
  induction ls generalizing ks with
  | nil => exact absurd hls not_isClosed_nil
  | cons l ls ih =>
    cases ks with
    | nil => exact absurd hks not_isClosed_nil
    | cons k ks =>
      simp only [furtherLines, List.map_cons, List.cons_append, List.cons.injEq, Prod.mk.injEq,
        true_and] at h
      obtain ⟨rfl, h⟩ := h
      by_cases hlast : l.isLast = true
      · rw [isClosed_cons_of_isLast hlast] at hls hks
        subst hls hks
        exact ⟨rfl, h⟩
      · have hlast : l.isLast = false := by simpa using hlast
        rw [isClosed_cons_of_not_isLast hlast] at hls hks
        obtain ⟨rfl, rfl⟩ := ih hls hks h
        exact ⟨rfl, rfl⟩

theorem IsClosed.ne_nil {ls : List ZoneLine} (h : IsClosed ls) : ls ≠ [] := by
  rintro rfl
  exact not_isClosed_nil h

theorem Group.written_eq {g : Group} (hg : g.lines ≠ []) :
    ∃ l ls, g.lines = l :: ls ∧ g.written = (some g.name, l) :: furtherLines ls := by
  obtain ⟨name, ls⟩ := g
  obtain ⟨l, ls, rfl⟩ := List.exists_cons_of_ne_nil hg
  exact ⟨l, ls, rfl, rfl⟩

/-- Where lines begin with a closed group, they begin with no other. -/
theorem Group.eq_of_written {g k : Group} {r s : List (Option String × ZoneLine)}
    (hg : IsClosed g.lines) (hk : IsClosed k.lines) (h : g.written ++ r = k.written ++ s) :
    g = k ∧ r = s := by
  obtain ⟨l, ls, hls, hwritten⟩ := Group.written_eq hg.ne_nil
  obtain ⟨m, ms, hms, hwritten'⟩ := Group.written_eq hk.ne_nil
  simp only [hwritten, hwritten', List.cons_append, List.cons.injEq, Prod.mk.injEq,
    Option.some.injEq] at h
  obtain ⟨⟨hname, rfl⟩, h⟩ := h
  rw [hls] at hg
  rw [hms] at hk
  have hfurther : furtherLines (l :: ls) ++ r = furtherLines (l :: ms) ++ s :=
    congrArg ((none, l) :: ·) h
  obtain ⟨hlines, hrest⟩ := eq_of_isClosed hg hk hfurther
  obtain ⟨name, _⟩ := g
  obtain ⟨other, _⟩ := k
  simp only at hname hls hms
  rw [hname, hls, hms, hlines]
  exact ⟨rfl, hrest⟩

/-- **Lines are groups in one way only.** -/
theorem AreGroups.unique {lines : List Line} {groups others : List Group}
    (h : AreGroups lines groups) (h' : AreGroups lines others) : groups = others := by
  obtain ⟨hwritten, hclosed⟩ := h
  obtain ⟨hwritten', hclosed'⟩ := h'
  have heq : groups.flatMap Group.written = others.flatMap Group.written :=
    hwritten.symm.trans hwritten'
  clear hwritten hwritten'
  induction groups generalizing others with
  | nil =>
    cases others with
    | nil => rfl
    | cons k others =>
      obtain ⟨l, ls, -, hk⟩ := Group.written_eq (hclosed' k List.mem_cons_self).ne_nil
      simp [hk] at heq
  | cons g groups ih =>
    obtain ⟨hg, hgroups⟩ := List.forall_mem_cons.1 hclosed
    cases others with
    | nil =>
      obtain ⟨l, ls, -, hg⟩ := Group.written_eq hg.ne_nil
      simp [hg] at heq
    | cons k others =>
      obtain ⟨hk, hothers⟩ := List.forall_mem_cons.1 hclosed'
      rw [List.flatMap_cons, List.flatMap_cons] at heq
      obtain ⟨rfl, hrest⟩ := Group.eq_of_written hg hk heq
      rw [ih hgroups hothers hrest]

theorem written_append_singleton {name : String} {ls : List ZoneLine} (hls : ls ≠ [])
    (l : ZoneLine) :
    Group.written ⟨name, ls ++ [l]⟩ = Group.written ⟨name, ls⟩ ++ [(none, l)] := by
  obtain ⟨k, ks, rfl⟩ := List.exists_cons_of_ne_nil hls
  simp [Group.written, furtherLines]

/-! ## Rules and links -/

/-- The rules of a name among lines, in their order. -/
def rulesNamed (name : String) (lines : List Line) : List Rule :=
  lines.filterMap fun line =>
    match line with
    | .rule r => if r.name = name then some r else none
    | _ => none

/-- The target of the last link of a name among lines. -/
def linkTarget? (lines : List Line) (name : String) : Option String :=
  (lines.filterMap fun line =>
    match line with
    | .link target link => if link = name then some target else none
    | _ => none).getLast?

/-- A set of rules; there is none without rules. -/
def ruleSet? (rules : List Rule) : Option (List Rule) := if rules = [] then none else some rules

theorem getD_ruleSet? (rules : List Rule) : (ruleSet? rules).getD [] = rules := by
  by_cases h : rules = [] <;> simp [ruleSet?, h]

theorem rulesNamed_append (name : String) (lines more : List Line) :
    rulesNamed name (lines ++ more) = rulesNamed name lines ++ rulesNamed name more :=
  List.filterMap_append

theorem linkTarget?_append (lines more : List Line) (name : String) :
    linkTarget? (lines ++ more) name = (linkTarget? more name).or (linkTarget? lines name) := by
  unfold linkTarget?
  rw [List.filterMap_append, List.getLast?_append]

namespace Progress

/-- What has been read holds the rules and links of the given lines. -/
structure Records (p : Progress) (lines : List Line) : Prop where
  ruleSets : ∀ name, p.ruleSets.get? name = ruleSet? (rulesNamed name lines)
  links : ∀ name, p.links.get? name = linkTarget? lines name

theorem records_start : start.Records [] := ⟨fun _ => rfl, fun _ => rfl⟩

/-- Lines added one after the other. -/
def addLines (p : Progress) (lines : List Line) : Except Fault Progress :=
  lines.foldlM Progress.add p

variable {p q r : Progress} {line : Line} {lines more : List Line} {name : String}

theorem exists_of_addLines_cons (h : p.addLines (line :: lines) = .ok r) :
    ∃ q, p.add line = .ok q ∧ q.addLines lines = .ok r := by
  rw [addLines, List.foldlM_cons] at h
  exact exists_of_bind_eq_ok h

theorem addLines_cons (h : p.add line = .ok q) :
    p.addLines (line :: lines) = q.addLines lines := by
  rw [addLines, List.foldlM_cons, h]
  rfl

theorem addLines_append (h : p.addLines lines = .ok q) (hmore : q.addLines more = .ok r) :
    p.addLines (lines ++ more) = .ok r := by
  rw [addLines, List.foldlM_append, ← addLines, h]
  exact hmore

theorem addZoneLine_eq (p : Progress) (name : String) (ls : List ZoneLine) (l : ZoneLine) :
    (p.addZoneLine name ls l).ruleSets = p.ruleSets ∧ (p.addZoneLine name ls l).links = p.links := by
  unfold addZoneLine
  split <;> exact ⟨rfl, rfl⟩

theorem Records.add (h : p.Records lines) (hadd : p.add line = .ok q) :
    q.Records (lines ++ [line]) := by
  have hzone {zone : String} {l : ZoneLine} {ls : List ZoneLine} (hq : p.addZoneLine zone ls l = q)
      (hrule : ∀ other, rulesNamed other [line] = [])
      (hlink : ∀ other, linkTarget? [line] other = none) : q.Records (lines ++ [line]) := by
    obtain ⟨hruleSets, hlinks⟩ := addZoneLine_eq p zone ls l
    rw [← hq]
    refine ⟨fun other => ?_, fun other => ?_⟩
    · rw [hruleSets, h.ruleSets, rulesNamed_append, hrule, List.append_nil]
    · rw [hlinks, h.links, linkTarget?_append, hlink]
      rfl
  cases line with
  | rule rule =>
    cases hadd
    refine ⟨fun other => ?_, fun other => ?_⟩
    · simp only [Registry.update, Registry.get?_put, h.ruleSets, getD_ruleSet?, rulesNamed_append]
      by_cases hname : other = rule.name
      · simp [rulesNamed, ruleSet?, hname]
      · simp [rulesNamed, hname, Ne.symm hname]
    · rw [linkTarget?_append]
      exact h.links other
  | link target link =>
    cases hadd
    refine ⟨fun other => ?_, fun other => ?_⟩
    · rw [rulesNamed_append]
      simpa [rulesNamed] using h.ruleSets other
    · simp only [Registry.get?_put, h.links, linkTarget?_append]
      by_cases hname : other = link
      · simp [linkTarget?, hname]
      · simp [linkTarget?, hname, Ne.symm hname]
  | zone other l =>
    simp only [Progress.add] at hadd
    split at hadd
    · cases hadd
    · exact hzone (Except.ok.inj hadd) (fun _ => rfl) (fun _ => rfl)
  | continuation l =>
    simp only [Progress.add] at hadd
    split at hadd
    · exact hzone (Except.ok.inj hadd) (fun _ => rfl) (fun _ => rfl)
    · cases hadd

/-- **Rules and links are collected in the order of the lines.** -/
theorem Records.addLines (h : p.Records lines) (hadd : p.addLines more = .ok q) :
    q.Records (lines ++ more) := by
  induction more generalizing p lines with
  | nil =>
    cases hadd
    simpa using h
  | cons line more ih =>
    obtain ⟨r, hr, hq⟩ := exists_of_addLines_cons hadd
    simpa using ih (h.add hr) hq

/-! ## Zones -/

/-- The open zone as a group so far. -/
def openGroup (p : Progress) : List Group := p.pending.toList.map fun (name, ls) => ⟨name, ls⟩

/-- From `p` on, lines that form the closed groups `groups` and the open zone of `q` lead to `q`. -/
structure Reaches (p : Progress) (lines : List Line) (groups : List Group) (q : Progress) :
    Prop where
  written : lines.filterMap Line.zoneLine? =
    groups.flatMap Group.written ++ q.openGroup.flatMap Group.written
  closed : ∀ g ∈ groups, IsClosed g.lines
  zones : ∀ name, q.zones.get? name = (lastGroup? name groups).or (p.zones.get? name)
  pending : ∀ name ls, q.pending = some (name, ls) → ls ≠ [] ∧ ∀ l ∈ ls, l.isLast = false

theorem reaches_nil (h : p.pending = none) : p.Reaches [] [] p where
  written := by simp [openGroup, h]
  closed := by simp
  zones _ := rfl
  pending := by simp [h]

variable {groups : List Group} {ls : List ZoneLine} {l : ZoneLine}

theorem Reaches.addZoneLine (h : p.Reaches lines groups q) {first : Option String}
    (hline : line.zoneLine? = some (first, l))
    (hwritten : Group.written ⟨name, ls ++ [l]⟩ =
      q.openGroup.flatMap Group.written ++ [(first, l)])
    (hls : ∀ k ∈ ls, k.isLast = false) :
    ∃ groups, p.Reaches (lines ++ [line]) groups (q.addZoneLine name ls l) := by
  have hlines : (lines ++ [line]).filterMap Line.zoneLine? =
      groups.flatMap Group.written ++ Group.written ⟨name, ls ++ [l]⟩ := by
    rw [List.filterMap_append, h.written, hwritten, List.append_assoc]
    simp [hline]
  unfold Progress.addZoneLine
  split
  · rename_i hlast
    refine ⟨groups ++ [⟨name, ls ++ [l]⟩], ?_, ?_, ?_, by simp⟩
    · rw [hlines]
      simp [openGroup]
    · intro g hg
      rcases List.mem_append.1 hg with hg | hg
      · exact h.closed g hg
      · rw [List.mem_singleton.1 hg]
        exact isClosed_append_singleton hls hlast
    · intro other
      rw [lastGroup?_append, lastGroup?_singleton, Option.or_assoc, ← h.zones]
      by_cases hname : other = name
      · simp [hname]
      · simp [hname, Ne.symm hname]
  · rename_i hlast
    refine ⟨groups, ?_, h.closed, h.zones, ?_⟩
    · rw [hlines]
      simp [openGroup]
    · intro other ks hks
      obtain ⟨-, rfl⟩ := Prod.mk.inj (Option.some.inj hks)
      refine ⟨by simp, ?_⟩
      intro k hk
      rcases List.mem_append.1 hk with hk | hk
      · exact hls k hk
      · rw [List.mem_singleton.1 hk]
        simpa using hlast

theorem Reaches.skip (h : p.Reaches lines groups q) (hline : line.zoneLine? = none)
    (hzones : r.zones = q.zones) (hpending : r.pending = q.pending) :
    p.Reaches (lines ++ [line]) groups r where
  written := by
    rw [List.filterMap_append, h.written, openGroup, openGroup, hpending]
    simp [hline]
  closed := h.closed
  zones other := by rw [hzones, h.zones]
  pending other ls hls := h.pending other ls (by rw [← hpending, hls])

theorem Reaches.add (h : p.Reaches lines groups q) (hadd : q.add line = .ok r) :
    ∃ groups, p.Reaches (lines ++ [line]) groups r := by
  cases line with
  | rule rule =>
    cases hadd
    exact ⟨groups, h.skip rfl rfl rfl⟩
  | link target link =>
    cases hadd
    exact ⟨groups, h.skip rfl rfl rfl⟩
  | zone name l =>
    simp only [Progress.add] at hadd
    split at hadd
    · cases hadd
    · rename_i hpending
      cases hadd
      exact h.addZoneLine rfl (by simp [openGroup, hpending, Group.written, furtherLines]) (by simp)
  | continuation l =>
    simp only [Progress.add] at hadd
    split at hadd
    · rename_i name ls hpending
      cases hadd
      obtain ⟨hne, hls⟩ := h.pending name ls hpending
      exact h.addZoneLine rfl (by simp [openGroup, hpending, written_append_singleton hne]) hls
    · cases hadd

/-- **Lines that can be added are closed groups and an open zone.** -/
theorem Reaches.addLines (h : p.Reaches lines groups q) (hadd : q.addLines more = .ok r) :
    ∃ groups, p.Reaches (lines ++ more) groups r := by
  induction more generalizing q lines groups with
  | nil =>
    cases hadd
    exact ⟨groups, by simpa using h⟩
  | cons line more ih =>
    obtain ⟨s, hs, hr⟩ := exists_of_addLines_cons hadd
    obtain ⟨groups, hgroups⟩ := h.add hs
    simpa using ih hgroups hr

theorem exists_of_lastGroup? (h : lastGroup? name groups = some ls) :
    ∃ g ∈ groups, g.name = name ∧ g.lines = ls := by
  obtain ⟨g, hg, rfl⟩ := Option.map_eq_some_iff.1 h
  obtain ⟨hmem, hname⟩ := List.mem_filter.1 (List.mem_of_getLast? hg)
  exact ⟨g, hmem, by simpa using hname, rfl⟩

/-- **The lines of a zone are closed.** -/
theorem isClosed_of_addLines (hadd : start.addLines lines = .ok q)
    (hls : q.zones.get? name = some ls) : IsClosed ls := by
  obtain ⟨groups, hgroups⟩ := (reaches_nil rfl).addLines hadd
  have hlast : lastGroup? name groups = some ls := by
    rw [← hls, hgroups.zones]
    exact Option.or_none.symm
  obtain ⟨g, hg, -, rfl⟩ := exists_of_lastGroup? hlast
  exact hgroups.closed g hg

theorem exists_zoneLine_of_addLines (hadd : start.addLines lines = .ok q)
    (hname : name ∈ q.zones.names) : ∃ l, Line.zone name l ∈ lines := by
  obtain ⟨groups, hgroups⟩ := (reaches_nil rfl).addLines hadd
  obtain ⟨ls, hls⟩ := Option.isSome_iff_exists.1 ((Registry.mem_names_iff _ _).1 hname)
  have hlast : lastGroup? name groups = some ls := by
    rw [← hls, hgroups.zones]
    exact Option.or_none.symm
  obtain ⟨g, hg, hfirst, -⟩ := exists_of_lastGroup? hlast
  obtain ⟨l, rest, -, hwritten⟩ := Group.written_eq (hgroups.closed g hg).ne_nil
  have hmem : (some name, l) ∈ lines.filterMap Line.zoneLine? := by
    rw [List.nil_append] at hgroups
    rw [hgroups.written, List.mem_append, List.mem_flatMap]
    exact .inl ⟨g, hg, by rw [hwritten, hfirst]; exact List.mem_cons_self⟩
  obtain ⟨line, hline, hzoneLine⟩ := List.mem_filterMap.1 hmem
  refine ⟨l, ?_⟩
  cases line with
  | rule rule => cases hzoneLine
  | link target other => cases hzoneLine
  | continuation k => cases hzoneLine
  | zone other k =>
    cases hzoneLine
    exact hline

/-! ## What an open zone lacks -/

/-- Zone lines are closed groups, after the lines that an open zone still lacks. -/
structure Completes (pending : Option (String × List ZoneLine)) (ls : List ZoneLine)
    (groups : List Group) (written : List (Option String × ZoneLine)) : Prop where
  written : written = furtherLines ls ++ groups.flatMap Group.written
  closed : ∀ g ∈ groups, IsClosed g.lines
  eq_nil : pending = none → ls = []
  isClosed : pending ≠ none → IsClosed ls

namespace Completes

variable {ls : List ZoneLine} {l : ZoneLine} {name : String} {before : List ZoneLine}
  {rest : List (Option String × ZoneLine)}

theorem addZoneLine (hl : IsClosed (l :: ls)) (hgroups : ∀ g ∈ groups, IsClosed g.lines)
    (hrest : rest = furtherLines ls ++ groups.flatMap Group.written) :
    Completes (p.addZoneLine name before l).pending ls groups rest := by
  unfold Progress.addZoneLine
  by_cases hlast : l.isLast = true
  · obtain rfl := (isClosed_cons_of_isLast hlast).1 hl
    rw [if_pos hlast]
    exact ⟨hrest, hgroups, fun _ => rfl, fun h => absurd rfl h⟩
  · have hls := (isClosed_cons_of_not_isLast (by simpa using hlast)).1 hl
    rw [if_neg hlast]
    exact ⟨hrest, hgroups, nofun, fun _ => hls⟩

theorem pending_eq_none (h : Completes p.pending ls groups []) : p.pending = none := by
  cases hpending : p.pending with
  | none => rfl
  | some pending =>
    obtain ⟨k, ks, rfl⟩ := List.exists_cons_of_ne_nil (h.isClosed (by simp [hpending])).ne_nil
    cases h.written

theorem zone (h : Completes p.pending ls groups ((some name, l) :: rest)) :
    p.pending = none ∧ ∃ ls groups, Completes (p.addZoneLine name [] l).pending ls groups rest := by
  have hwritten := h.written
  have hclosed := h.closed
  by_cases hpending : p.pending = none
  · refine ⟨hpending, ?_⟩
    obtain rfl := h.eq_nil hpending
    cases groups with
    | nil => cases hwritten
    | cons g groups =>
      obtain ⟨hg, hgroups⟩ := List.forall_mem_cons.1 hclosed
      obtain ⟨other, lines⟩ := g
      obtain ⟨k, ks, rfl⟩ := List.exists_cons_of_ne_nil hg.ne_nil
      obtain ⟨heq, hrest⟩ := List.cons.inj hwritten
      obtain ⟨rfl, rfl⟩ : name = other ∧ l = k := by simpa using heq
      exact ⟨ks, groups, addZoneLine hg hgroups hrest⟩
  · obtain ⟨k, ks, rfl⟩ := List.exists_cons_of_ne_nil (h.isClosed hpending).ne_nil
    cases hwritten

theorem continuation (h : Completes p.pending ls groups ((none, l) :: rest)) :
    ∃ name before, p.pending = some (name, before) ∧
      ∃ ls groups, Completes (p.addZoneLine name before l).pending ls groups rest := by
  have hwritten := h.written
  have hclosed := h.closed
  cases hpending : p.pending with
  | none =>
    obtain rfl := h.eq_nil hpending
    cases groups with
    | nil => cases hwritten
    | cons g groups =>
      obtain ⟨other, lines⟩ := g
      obtain ⟨k, ks, rfl⟩ :=
        List.exists_cons_of_ne_nil (hclosed ⟨other, lines⟩ List.mem_cons_self).ne_nil
      cases hwritten
  | some pending =>
    obtain ⟨name, before⟩ := pending
    have hls := h.isClosed (by simp [hpending])
    obtain ⟨k, ks, rfl⟩ := List.exists_cons_of_ne_nil hls.ne_nil
    obtain ⟨heq, hrest⟩ := List.cons.inj hwritten
    obtain rfl : l = k := by simpa using heq
    exact ⟨name, before, rfl, ks, groups, addZoneLine hls hclosed hrest⟩

end Completes

/-- **Closed groups can be added**, and so can what is missing of an open one before them. The
induction is on the lines, of which rules and links leave the groups as they are. -/
theorem exists_addLines_of_completes {ls : List ZoneLine}
    (h : Completes p.pending ls groups (lines.filterMap Line.zoneLine?)) :
    ∃ q, p.addLines lines = .ok q ∧ q.pending = none := by
  induction lines generalizing p ls groups with
  | nil => exact ⟨p, rfl, h.pending_eq_none⟩
  | cons line lines ih =>
    cases line with
    | rule rule =>
      rw [addLines_cons rfl]
      exact ih h
    | link target link =>
      rw [addLines_cons rfl]
      exact ih h
    | zone name l =>
      obtain ⟨hpending, ls, groups, hrest⟩ := h.zone
      have hadd : p.add (.zone name l) = .ok (p.addZoneLine name [] l) := by
        simp only [Progress.add, hpending]
      rw [addLines_cons hadd]
      exact ih hrest
    | continuation l =>
      obtain ⟨name, before, hpending, ls, groups, hrest⟩ := h.continuation
      have hadd : p.add (.continuation l) = .ok (p.addZoneLine name before l) := by
        simp only [Progress.add, hpending]
      rw [addLines_cons hadd]
      exact ih hrest

/-- **Lines can be added up to the end of their last zone exactly if they are groups.** -/
theorem exists_areGroups_iff (hpending : p.pending = none) :
    (∃ groups, AreGroups lines groups) ↔ ∃ q, p.addLines lines = .ok q ∧ q.pending = none := by
  constructor
  · rintro ⟨groups, hwritten, hclosed⟩
    have hcompletes : Completes p.pending [] groups (lines.filterMap Line.zoneLine?) :=
      ⟨hwritten, hclosed, fun _ => rfl, fun hopen => absurd hpending hopen⟩
    exact exists_addLines_of_completes hcompletes
  · rintro ⟨q, hq, hnone⟩
    obtain ⟨groups, hgroups⟩ := (reaches_nil hpending).addLines hq
    refine ⟨groups, ?_, hgroups.closed⟩
    simpa [openGroup, hnone] using hgroups.written

/-- **What groups leave behind**: no open zone, and the zones of the groups. -/
theorem exists_addLines (hpending : p.pending = none) (h : AreGroups lines groups) :
    ∃ q, p.addLines lines = .ok q ∧ q.pending = none ∧
      ∀ name, q.zones.get? name = (lastGroup? name groups).or (p.zones.get? name) := by
  obtain ⟨q, hq, hnone⟩ := (exists_areGroups_iff hpending).1 ⟨groups, h⟩
  obtain ⟨others, hothers⟩ := (reaches_nil hpending).addLines hq
  have hgroups : AreGroups lines others :=
    ⟨by simpa [openGroup, hnone] using hothers.written, hothers.closed⟩
  obtain rfl := h.unique hgroups
  exact ⟨q, hq, hnone, hothers.zones⟩

end Progress
end ZoneTables.Source
