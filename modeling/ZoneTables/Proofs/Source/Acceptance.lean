import ZoneTables.Proofs.Source.Groups
import ZoneTables.Proofs.Source.Links
import ZoneTables.Proofs.Source.Lines

/-!
# Which sources are accepted

A source is accepted if each of its lines can be read and its zone lines are groups (`Accepts`).
Lines at the beginning of a source that can still be completed are viable (`IsViable`), and those
are exactly the lines after which the reader goes on (`isViable_iff`). So a source that is not
accepted is given up at the first line that leaves nothing viable, or at its end (`StopsAt`).
Sources make a database exactly if each is accepted and the links lead to zones, and the database
holds what the groups and the lines say (`ofSources_spec`). The lines and their numbers are those of
the texts (`NumbersLines`).
-/

namespace ZoneTables.Source

/-! ## One source -/

/-- A line that can be read. -/
def IsReadable (toMinutes : Bool) (line : List Char) : Prop :=
  ∃ result, Line.read toMinutes line = .ok result

/-- What the numbered lines of a source say, those aside that cannot be read. -/
def linesOf (toMinutes : Bool) (numbered : List (Nat × List Char)) : List Line :=
  numbered.filterMap fun e => (Line.read toMinutes e.2).toOption

/-- All lines of a source can be read, and its zone lines are groups. -/
structure Accepts (toMinutes : Bool) (numbered : List (Nat × List Char)) : Prop where
  readable : ∀ e ∈ numbered, IsReadable toMinutes e.2
  grouped : ∃ groups, AreGroups (linesOf toMinutes numbered) groups

/-- Lines that further lines can make a source that is accepted. -/
def IsViable (toMinutes : Bool) (numbered : List (Nat × List Char)) : Prop :=
  ∃ rest, Accepts toMinutes (numbered ++ rest)

/-- The number of the first line that leaves nothing viable, or that of the last line of a source
at whose end a zone is still open. -/
inductive StopsAt (toMinutes : Bool) (numbered : List (Nat × List Char)) : Nat → Prop
  | line {before after : List (Nat × List Char)} {number : Nat} {line : List Char} :
      numbered = before ++ (number, line) :: after → IsViable toMinutes before →
      ¬ IsViable toMinutes (before ++ [(number, line)]) → StopsAt toMinutes numbered number
  | ending {before : List (Nat × List Char)} {number : Nat} {line : List Char} :
      numbered = before ++ [(number, line)] → IsViable toMinutes numbered →
      ¬ Accepts toMinutes numbered → StopsAt toMinutes numbered number

variable {toMinutes : Bool} {source : String} {numbered more : List (Nat × List Char)}
  {number last : Nat} {line : List Char} {p q : Progress}

/-- Numbered lines read one after the other, up to their end. -/
def addNumbered (toMinutes : Bool) (p : Progress) (numbered : List (Nat × List Char)) :
    Except Fault Progress :=
  numbered.foldlM (fun p e => readNumbered toMinutes p e.2) p

theorem addNumbered_append : addNumbered toMinutes p (numbered ++ more) =
    (addNumbered toMinutes p numbered).bind fun q => addNumbered toMinutes q more :=
  List.foldlM_append

theorem addNumbered_singleton :
    addNumbered toMinutes p [(number, line)] = readNumbered toMinutes p line := by
  simp [addNumbered]

theorem addNumbered_eq_ok_iff : addNumbered toMinutes p numbered = .ok q ↔
    (∀ e ∈ numbered, IsReadable toMinutes e.2) ∧
      p.addLines (linesOf toMinutes numbered) = .ok q := by
  induction numbered generalizing p with
  | nil => simp [addNumbered, linesOf, Progress.addLines]
  | cons e rest ih =>
    rw [List.forall_mem_cons, addNumbered, List.foldlM_cons, readNumbered]
    cases hread : Line.read toMinutes e.2 with
    | error error =>
      constructor
      · intro h
        cases h
      · rintro ⟨⟨⟨result, hresult⟩, -⟩, -⟩
        simp [hread] at hresult
    | ok result =>
      have hlines : linesOf toMinutes (e :: rest) = result :: linesOf toMinutes rest :=
        List.filterMap_cons_some (by rw [hread]; rfl)
      rw [hlines, Progress.addLines, List.foldlM_cons]
      cases hadd : p.add result with
      | error fault =>
        constructor
        · intro h
          simp only [hadd] at h
          cases h
        · rintro ⟨-, h⟩
          cases h
      | ok r =>
        simp only [hadd]
        exact (ih (p := r)).trans ⟨fun h => ⟨⟨⟨result, hread⟩, h.1⟩, h.2⟩, fun h => ⟨h.1.2, h.2⟩⟩

theorem accepts_iff (hpending : p.pending = none) :
    Accepts toMinutes numbered ↔ ∃ q, addNumbered toMinutes p numbered = .ok q ∧ q.pending = none := by
  simp only [addNumbered_eq_ok_iff]
  constructor
  · rintro ⟨hread, hgroups⟩
    obtain ⟨q, hq, hnone⟩ := (Progress.exists_areGroups_iff hpending).1 hgroups
    exact ⟨q, ⟨hread, hq⟩, hnone⟩
  · rintro ⟨q, ⟨hread, hq⟩, hnone⟩
    exact ⟨hread, (Progress.exists_areGroups_iff hpending).2 ⟨q, hq, hnone⟩⟩

/-- A line that ends any zone. -/
def closingLine : List Char := "\t0 - X".toList

theorem read_closingLine (toMinutes : Bool) :
    ∃ l, Line.read toMinutes closingLine = .ok (.continuation l) ∧ l.isLast = true := by
  have h : (match Line.read toMinutes closingLine with
      | .ok (.continuation l) => l.isLast
      | _ => false) = true := by
    cases toMinutes <;> decide +kernel
  split at h
  · rename_i l hl
    exact ⟨l, hl, h⟩
  · cases h

/-- **Lines are viable exactly if they are read on**: whatever zone they leave open can be
ended. -/
theorem isViable_iff (hpending : p.pending = none) :
    IsViable toMinutes numbered ↔ ∃ q, addNumbered toMinutes p numbered = .ok q := by
  constructor
  · rintro ⟨rest, h⟩
    obtain ⟨r, hr, -⟩ := (accepts_iff hpending).1 h
    rw [addNumbered_append] at hr
    obtain ⟨q, hq, -⟩ := exists_of_bind_eq_ok hr
    exact ⟨q, hq⟩
  · rintro ⟨q, hq⟩
    cases hopen : q.pending with
    | none => exact ⟨[], (accepts_iff hpending).2 ⟨q, by simpa using hq, hopen⟩⟩
    | some pending =>
      obtain ⟨name, ls⟩ := pending
      obtain ⟨l, hl, hlast⟩ := read_closingLine toMinutes
      refine ⟨[(0, closingLine)], (accepts_iff hpending).2 ⟨q.addZoneLine name ls l, ?_, ?_⟩⟩
      · rw [addNumbered_append, hq]
        show addNumbered toMinutes q [(0, closingLine)] = _
        rw [addNumbered_singleton, readNumbered, hl]
        simp only [Progress.add, hopen]
      · simp [Progress.addZoneLine, hlast]

theorem IsViable.of_append (h : IsViable toMinutes (numbered ++ more)) :
    IsViable toMinutes numbered := by
  obtain ⟨rest, hrest⟩ := h
  exact ⟨more ++ rest, by rwa [← List.append_assoc]⟩

theorem IsViable.of_prefix (h : IsViable toMinutes more) (hinit : numbered <+: more) :
    IsViable toMinutes numbered := by
  obtain ⟨rest, rfl⟩ := hinit
  exact h.of_append

/-- What is viable ends before a line that leaves nothing viable. -/
theorem IsViable.isPrefix {before before' : List (Nat × List Char)} {e : Nat × List Char}
    (h : IsViable toMinutes before) (hnot : ¬ IsViable toMinutes (before' ++ [e]))
    (hbefore : before <+: numbered) (hbefore' : before' ++ [e] <+: numbered) :
    before <+: before' := by
  rcases List.prefix_or_prefix_of_prefix hbefore hbefore' with hor | hor
  · rcases List.prefix_concat_iff.1 hor with rfl | hor
    · exact absurd h hnot
    · exact hor
  · exact absurd (h.of_prefix hor) hnot

theorem StopsAt.unique {other : Nat} (h : StopsAt toMinutes numbered number)
    (h' : StopsAt toMinutes numbered other) : number = other := by
  cases h with
  | @line before after _ line heq hbefore hnot =>
    cases h' with
    | @line before' after' _ line' heq' hbefore' hnot' =>
      have hinit : before <+: before' :=
        hbefore.isPrefix hnot' ⟨_, heq.symm⟩ ⟨after', by simp [heq']⟩
      have hinit' : before' <+: before :=
        hbefore'.isPrefix hnot ⟨_, heq'.symm⟩ ⟨after, by simp [heq]⟩
      obtain rfl := hinit.eq_of_length_le hinit'.length_le
      have hsame := List.append_cancel_left (heq.symm.trans heq')
      exact (Prod.mk.inj (List.cons.inj hsame).1).1
    | ending _ hall => exact absurd (hall.of_prefix ⟨after, by simp [heq]⟩) hnot
  | ending heq hall =>
    cases h' with
    | @line before after _ line heq' hbefore hnot =>
      exact absurd (hall.of_prefix ⟨after, by simp [heq']⟩) hnot
    | ending heq' =>
      have hsame := congrArg List.getLast? (heq.symm.trans heq')
      simp only [List.getLast?_append, List.getLast?_singleton, Option.some_or,
        Option.some.injEq, Prod.mk.injEq] at hsame
      exact hsame.1

/-- A source read after others to its end, to the end of a zone that is missing, or to a line that
cannot follow. -/
theorem readLines_cases (toMinutes : Bool) (source : String) (p : Progress) (last : Nat)
    (numbered : List (Nat × List Char)) :
    (∃ q, addNumbered toMinutes p numbered = .ok q ∧ q.pending = none ∧
      readLines toMinutes source p last numbered = .ok q) ∨
    (∃ q zone ls, addNumbered toMinutes p numbered = .ok q ∧ q.pending = some (zone, ls) ∧
      readLines toMinutes source p last numbered =
        .error ⟨.unterminated zone, source, (numbered.getLast?.map (·.1)).getD last⟩) ∨
    ∃ before number line after q fault, numbered = before ++ (number, line) :: after ∧
      addNumbered toMinutes p before = .ok q ∧ readNumbered toMinutes q line = .error fault ∧
      readLines toMinutes source p last numbered = .error ⟨fault, source, number⟩ := by
  induction numbered generalizing p last with
  | nil =>
    cases hpending : p.pending with
    | none =>
      left
      exact ⟨p, rfl, hpending, by simp [readLines, hpending]⟩
    | some pending =>
      right; left
      exact ⟨p, pending.1, pending.2, rfl, hpending, by simp [readLines, hpending]⟩
  | cons e rest ih =>
    obtain ⟨number, line⟩ := e
    cases hread : readNumbered toMinutes p line with
    | error fault =>
      right; right
      exact ⟨[], number, line, rest, p, fault, rfl, rfl, hread, by simp [readLines, hread]⟩
    | ok r =>
      have hadd (more : List (Nat × List Char)) :
          addNumbered toMinutes p ((number, line) :: more) = addNumbered toMinutes r more := by
        rw [addNumbered, List.foldlM_cons, hread]
        rfl
      have hlines : readLines toMinutes source p last ((number, line) :: rest) =
          readLines toMinutes source r number rest := by
        rw [readLines, hread]
      rw [hlines, hadd]
      rcases ih r number with h | ⟨q, zone, ls, hq, hopen, h⟩ |
        ⟨before, number', line', after, q, fault, rfl, hq, hfault, h⟩
      · left
        exact h
      · right; left
        refine ⟨q, zone, ls, hq, hopen, ?_⟩
        rw [h, List.getLast?_cons]
        cases rest.getLast? <;> rfl
      · right; right
        exact ⟨(number, line) :: before, number', line', after, q, fault, rfl,
          by rw [hadd, hq], hfault, h⟩

theorem addNumbered_of_readLines (h : readLines toMinutes source p last numbered = .ok q) :
    addNumbered toMinutes p numbered = .ok q := by
  rcases readLines_cases toMinutes source p last numbered with ⟨r, hr, -, hlines⟩ |
    ⟨r, zone, ls, -, -, hlines⟩ | ⟨before, n, cs, after, r, fault, -, -, -, hlines⟩
  · rw [hr, Except.ok.inj (h.symm.trans hlines)]
  · cases h.symm.trans hlines
  · cases h.symm.trans hlines

/-- **A source that is accepted is read to its end, and any other is given up where it stops.** -/
theorem readLines_spec (source : String) (hpending : p.pending = none) (last : Nat) :
    (Accepts toMinutes numbered ∧ ∃ q, addNumbered toMinutes p numbered = .ok q ∧
      q.pending = none ∧ readLines toMinutes source p last numbered = .ok q) ∨
    ¬ Accepts toMinutes numbered ∧ ∃ fault number, StopsAt toMinutes numbered number ∧
      readLines toMinutes source p last numbered = .error ⟨fault, source, number⟩ := by
  rcases readLines_cases toMinutes source p last numbered with ⟨q, hq, hnone, h⟩ |
    ⟨q, zone, ls, hq, hopen, h⟩ | ⟨before, number, line, after, q, fault, rfl, hq, hfault, h⟩
  · left
    exact ⟨(accepts_iff hpending).2 ⟨q, hq, hnone⟩, q, hq, hnone, h⟩
  · right
    have hnot : ¬ Accepts toMinutes numbered := by
      intro haccepts
      obtain ⟨r, hr, hnone⟩ := (accepts_iff hpending).1 haccepts
      obtain rfl := Except.ok.inj (hq.symm.trans hr)
      simp [hopen] at hnone
    refine ⟨hnot, .unterminated zone, _, ?_, h⟩
    -- a zone is open, so there are lines
    rcases List.eq_nil_or_concat numbered with rfl | ⟨before, ⟨number, line⟩, hlast⟩
    · cases hq
      simp [hpending] at hopen
    · rw [List.concat_eq_append] at hlast
      have hnumber : (numbered.getLast?.map (·.1)).getD last = number := by simp [hlast]
      rw [hnumber]
      exact .ending hlast ((isViable_iff hpending).2 ⟨q, hq⟩) hnot
  · right
    have hnot : ¬ IsViable toMinutes (before ++ [(number, line)]) := by
      rw [isViable_iff hpending]
      rintro ⟨r, hr⟩
      rw [addNumbered_append, hq] at hr
      have hfault' : readNumbered toMinutes q line = .ok r := addNumbered_singleton.symm.trans hr
      rw [hfault] at hfault'
      cases hfault'
    refine ⟨?_, fault, number, .line rfl ((isViable_iff hpending).2 ⟨q, hq⟩) hnot, h⟩
    intro haccepts
    exact hnot ⟨after, by simpa using haccepts⟩

/-! ## All sources -/

/-- The names of the sources that are read where none are given. -/
def defaultNames (sources : Registry String) : List String :=
  sources.names.filter (· != versionSource)

/-- The numbered lines of the source of a name. -/
def numberedSource (sources : Registry String) (name : String) : List (Nat × List Char) :=
  numberedLines ((sources.get? name).getD "").toList

theorem numbersLines_numberedSource {sources : Registry String} {name text : String}
    (htext : sources.get? name = some text) :
    NumbersLines text.toList (numberedSource sources name) := by
  rw [numberedSource, htext]
  exact numbersLines_numberedLines text.toList

/-- What the lines of the source of a name say. -/
def sourceLines (toMinutes : Bool) (sources : Registry String) (name : String) : List Line :=
  linesOf toMinutes (numberedSource sources name)

/-- What the lines of all sources say, in the order of the sources. -/
def allLines (toMinutes : Bool) (sources : Registry String) : List Line :=
  (defaultNames sources).flatMap (sourceLines toMinutes sources)

variable {sources : Registry String} {name : String} {names : List String}

theorem readSources_cons (hname : name ∈ sources.names) :
    readSources ⟨toMinutes, false⟩ sources p (name :: names) =
      (readLines toMinutes name p 0 (numberedSource sources name)).bind fun q =>
        readSources ⟨toMinutes, false⟩ sources q names := by
  obtain ⟨text, htext⟩ := Option.isSome_iff_exists.1 ((Registry.mem_names_iff sources name).1 hname)
  rw [readSources, numberedSource]
  simp only [htext, Bool.false_eq_true, and_false, if_false, Option.getD_some]
  cases readLines toMinutes name p 0 (numberedLines text.toList) <;> rfl

/-- **Sources that are accepted are read one after the other**: their zones are those of their
groups, and their rules and links are kept. -/
theorem exists_readSources {groups : String → List Group} {before : List Line}
    (hnames : ∀ name ∈ names, name ∈ sources.names)
    (hread : ∀ name ∈ names, ∀ e ∈ numberedSource sources name, IsReadable toMinutes e.2)
    (hgroups : ∀ name ∈ names, AreGroups (sourceLines toMinutes sources name) (groups name))
    (hpending : p.pending = none) (hrecords : p.Records before) :
    ∃ q, readSources ⟨toMinutes, false⟩ sources p names = .ok q ∧
      q.Records (before ++ names.flatMap (sourceLines toMinutes sources)) ∧
      ∀ id, q.zones.get? id = (lastGroup? id (names.flatMap groups)).or (p.zones.get? id) := by
  induction names generalizing p before with
  | nil => exact ⟨p, rfl, by simpa using hrecords, fun _ => rfl⟩
  | cons name names ih =>
    obtain ⟨hname, hnames⟩ := List.forall_mem_cons.1 hnames
    obtain ⟨hreadName, hread⟩ := List.forall_mem_cons.1 hread
    obtain ⟨hgroupsName, hgroups⟩ := List.forall_mem_cons.1 hgroups
    obtain ⟨q, hq, hnone, hzones⟩ := Progress.exists_addLines hpending hgroupsName
    have hlines : readLines toMinutes name p 0 (numberedSource sources name) = .ok q := by
      have hadd := addNumbered_eq_ok_iff.2 ⟨hreadName, hq⟩
      rcases readLines_spec name hpending 0 with ⟨-, r, hr, -, h⟩ | ⟨hnot, -⟩
      · rwa [Except.ok.inj (hadd.symm.trans hr)]
      · exact absurd ⟨hreadName, _, hgroupsName⟩ hnot
    obtain ⟨r, hr, hrecords', hzones'⟩ := ih hnames hread hgroups hnone (hrecords.addLines hq)
    refine ⟨r, ?_, by simpa [sourceLines] using hrecords', fun id => ?_⟩
    · rw [readSources_cons hname, hlines]
      exact hr
    · rw [hzones', hzones, List.flatMap_cons, lastGroup?_append, Option.or_assoc]

/-- **Other sources are given up where the first of them stops that is not accepted.** -/
theorem readSources_eq_error (hnames : ∀ name ∈ names, name ∈ sources.names)
    (hnot : ¬ ∀ name ∈ names, Accepts toMinutes (numberedSource sources name))
    (hpending : p.pending = none) :
    ∃ before name after fault number, names = before ++ name :: after ∧
      (∀ other ∈ before, Accepts toMinutes (numberedSource sources other)) ∧
      ¬ Accepts toMinutes (numberedSource sources name) ∧
      StopsAt toMinutes (numberedSource sources name) number ∧
      readSources ⟨toMinutes, false⟩ sources p names = .error ⟨fault, name, number⟩ := by
  induction names generalizing p with
  | nil => simp at hnot
  | cons name names ih =>
    obtain ⟨hname, hnames⟩ := List.forall_mem_cons.1 hnames
    rcases readLines_spec name hpending 0 with ⟨haccepts, q, -, hnone, h⟩ |
      ⟨hrefused, fault, number, hstops, h⟩
    · have hrest : ¬ ∀ name ∈ names, Accepts toMinutes (numberedSource sources name) :=
        fun hall => hnot (List.forall_mem_cons.2 ⟨haccepts, hall⟩)
      obtain ⟨before, other, after, fault, number, rfl, hbefore, hrefused, hstops, herror⟩ :=
        ih hnames hrest hnone
      refine ⟨name :: before, other, after, fault, number, rfl,
        List.forall_mem_cons.2 ⟨haccepts, hbefore⟩, hrefused, hstops, ?_⟩
      rw [readSources_cons hname, h]
      exact herror
    · refine ⟨[], name, names, fault, number, rfl, by simp, hrefused, hstops, ?_⟩
      rw [readSources_cons hname, h]
      rfl

theorem exists_read_of_mem_linesOf {said : Line} (h : said ∈ linesOf toMinutes numbered) :
    ∃ cs, Line.read toMinutes cs = .ok said := by
  obtain ⟨e, -, he⟩ := List.mem_filterMap.1 h
  refine ⟨e.2, ?_⟩
  cases hread : Line.read toMinutes e.2 with
  | error fault =>
    rw [hread] at he
    cases he
  | ok result =>
    rw [hread] at he
    rw [Option.some.inj he]

/-- **Whatever sources are read, what is kept is that of lines** read and added one after the
other. -/
theorem exists_addLines_of_readSources {options : Options}
    (h : readSources options sources p names = .ok q) :
    ∃ lines, p.addLines lines = .ok q ∧
      ∀ line ∈ lines, ∃ cs, Line.read options.toMinutes cs = .ok line := by
  induction names generalizing p with
  | nil =>
    cases h
    exact ⟨[], rfl, by simp⟩
  | cons name names ih =>
    rw [readSources] at h
    split at h
    · cases h
    · dsimp only at h
      split at h
      · rename_i r hr
        have hadd := (addNumbered_eq_ok_iff.1 (addNumbered_of_readLines hr)).2
        obtain ⟨lines, hlines, hread⟩ := ih h
        refine ⟨_, Progress.addLines_append hadd hlines, fun line hline => ?_⟩
        rcases List.mem_append.1 hline with hline | hline
        · exact exists_read_of_mem_linesOf hline
        · exact hread line hline
      · cases h

/-! ## Zones among lines -/

/-- A name that the first line of a zone gives. -/
def namesZone (lines : List Line) (name : String) : Bool :=
  lines.any fun line =>
    match line with
    | .zone other _ => other == name
    | _ => false

/-- Every link that is no zone leads to one. -/
def LinksLead (lines : List Line) : Prop :=
  ∀ name, (linkTarget? lines name).isSome → namesZone lines name = false →
    ∃ zone, LeadsTo (namesZone lines) (linkTarget? lines) name zone

theorem namesZone_iff {lines : List Line} :
    namesZone lines name = true ↔ ∃ l, (some name, l) ∈ lines.filterMap Line.zoneLine? := by
  simp only [namesZone, List.any_eq_true, List.mem_filterMap]
  constructor
  · rintro ⟨line, hline, h⟩
    cases line with
    | zone other l =>
      simp only [beq_iff_eq] at h
      exact ⟨l, _, hline, by rw [h]; rfl⟩
    | rule rule => simp at h
    | link target other => simp at h
    | continuation l => simp at h
  · rintro ⟨l, line, hline, h⟩
    refine ⟨line, hline, ?_⟩
    cases line with
    | zone other l =>
      simp only [Line.zoneLine?, Option.some.injEq, Prod.mk.injEq] at h
      simp [h.1]
    | rule rule => simp [Line.zoneLine?] at h
    | link target other => simp [Line.zoneLine?] at h
    | continuation l => simp [Line.zoneLine?] at h

theorem mem_written_iff {g : Group} (hg : IsClosed g.lines) :
    (∃ l, (some name, l) ∈ g.written) ↔ g.name = name := by
  obtain ⟨l, ls, -, hwritten⟩ := Group.written_eq hg.ne_nil
  simp [hwritten, furtherLines, eq_comm]

theorem isSome_lastGroup?_iff {groups : List Group} :
    (lastGroup? name groups).isSome ↔ ∃ g ∈ groups, g.name = name := by
  simp [lastGroup?]

theorem AreGroups.isSome_lastGroup?_iff {lines : List Line} {groups : List Group}
    (h : AreGroups lines groups) (name : String) :
    (lastGroup? name groups).isSome ↔ namesZone lines name = true := by
  rw [Source.isSome_lastGroup?_iff, namesZone_iff, h.1]
  simp only [List.mem_flatMap]
  constructor
  · rintro ⟨g, hg, hname⟩
    obtain ⟨l, hl⟩ := (mem_written_iff (h.2 g hg)).2 hname
    exact ⟨l, g, hg, hl⟩
  · rintro ⟨l, g, hg, hl⟩
    exact ⟨g, hg, (mem_written_iff (h.2 g hg)).1 ⟨l, hl⟩⟩

theorem areGroups_flatMap {lines : String → List Line} {groups : String → List Group}
    (h : ∀ name ∈ names, AreGroups (lines name) (groups name)) :
    AreGroups (names.flatMap lines) (names.flatMap groups) := by
  induction names with
  | nil => exact ⟨rfl, by simp⟩
  | cons name names ih =>
    obtain ⟨⟨hwritten, hclosed⟩, hnames⟩ := List.forall_mem_cons.1 h
    obtain ⟨hwritten', hclosed'⟩ := ih hnames
    refine ⟨?_, ?_⟩
    · simp only [List.flatMap_cons, List.filterMap_append, List.flatMap_append, hwritten, hwritten']
    · rw [List.flatMap_cons, List.forall_mem_append]
      exact ⟨hclosed, hclosed'⟩

/-! ## The database -/

theorem mem_names_of_mem_defaultNames (h : name ∈ defaultNames sources) : name ∈ sources.names :=
  (List.mem_filter.1 h).1

/-- Where all sources are accepted, what is left is to resolve the links. -/
theorem ofSources_of_accepts
    (haccepts : ∀ name ∈ defaultNames sources, Accepts toMinutes (numberedSource sources name)) :
    ∃ (groups : String → List Group) (q : Progress),
      (∀ name ∈ defaultNames sources, AreGroups (sourceLines toMinutes sources name) (groups name)) ∧
      readSources ⟨toMinutes, false⟩ sources .start (defaultNames sources) = .ok q ∧
      q.Records (allLines toMinutes sources) ∧
      (∀ id, q.zones.get? id = lastGroup? id ((defaultNames sources).flatMap groups)) ∧
      q.zones.contains = namesZone (allLines toMinutes sources) := by
  have hgroups : ∀ name, ∃ groups, name ∈ defaultNames sources →
      AreGroups (sourceLines toMinutes sources name) groups := by
    intro name
    by_cases hname : name ∈ defaultNames sources
    · obtain ⟨groups, h⟩ := (haccepts name hname).grouped
      exact ⟨groups, fun _ => h⟩
    · exact ⟨[], fun h => absurd h hname⟩
  obtain ⟨groups, hgroups⟩ := Classical.skolem.1 hgroups
  obtain ⟨q, hq, hrecords, hzones⟩ := exists_readSources (p := .start)
    (fun name => mem_names_of_mem_defaultNames) (fun name h => (haccepts name h).readable) hgroups
    rfl Progress.records_start
  have hget : ∀ id, q.zones.get? id = lastGroup? id ((defaultNames sources).flatMap groups) := by
    intro id
    rw [hzones]
    exact Option.or_none
  refine ⟨groups, q, hgroups, hq, by simpa [allLines] using hrecords, hget, ?_⟩
  funext id
  have hnames := (areGroups_flatMap hgroups).isSome_lastGroup?_iff id
  rw [← hget] at hnames
  exact Bool.eq_iff_iff.2 hnames

theorem resolveLinks_isOk_iff_linksLead {lines : List Line} (hrecords : p.Records lines)
    (hzones : p.zones.contains = namesZone lines) :
    (∃ log aliases, resolveLinks p.zones.contains p.links = (log, .ok aliases)) ↔
      LinksLead lines := by
  have hlinks : p.links.get? = linkTarget? lines := funext hrecords.links
  rw [resolveLinks_isOk_iff, hzones, hlinks, LinksLead]
  simp only [Registry.mem_names_iff, hlinks]

theorem ofSources_eq (toMinutes : Bool) (sources : Registry String) :
    Database.ofSources ⟨toMinutes, false⟩ sources none =
      match readSources ⟨toMinutes, false⟩ sources .start (defaultNames sources) with
      | .error e => ([], .error (.parse e))
      | .ok p =>
        let (log, aliases) := resolveLinks p.zones.contains p.links
        (log, (aliases.mapError .link).map fun aliases =>
          ⟨p.zones, p.ruleSets, aliases, String.ofList
            (Text.trim Text.isBlank ((sources.get? versionSource).getD "unknown").toList)⟩) :=
  rfl

theorem ofSources_isOk_iff (h : readSources ⟨toMinutes, false⟩ sources .start
    (defaultNames sources) = .ok q) :
    (∃ log db, Database.ofSources ⟨toMinutes, false⟩ sources none = (log, .ok db)) ↔
      ∃ log aliases, resolveLinks q.zones.contains q.links = (log, .ok aliases) := by
  rw [ofSources_eq, h]
  dsimp only
  generalize resolveLinks q.zones.contains q.links = resolved
  obtain ⟨log, aliases⟩ := resolved
  constructor
  · rintro ⟨log, db, hdb⟩
    obtain ⟨aliases', haliases, -⟩ := exists_of_map_eq_ok (Prod.mk.inj hdb).2
    cases aliases with
    | error e => cases haliases
    | ok aliases => exact ⟨_, aliases, rfl⟩
  · rintro ⟨log, aliases', haliases⟩
    rw [(Prod.mk.inj haliases).2]
    exact ⟨_, _, rfl⟩

theorem contents_of_ofSources {log : Log} {db : Database}
    (h : readSources ⟨toMinutes, false⟩ sources .start (defaultNames sources) = .ok q)
    (hdb : Database.ofSources ⟨toMinutes, false⟩ sources none = (log, .ok db)) :
    db.zones = q.zones ∧ db.ruleSets = q.ruleSets := by
  rw [ofSources_eq, h] at hdb
  obtain ⟨aliases, -, rfl⟩ := exists_of_map_eq_ok (Prod.mk.inj hdb).2
  exact ⟨rfl, rfl⟩

theorem exists_addLines_of_ofSources {options : Options} {selected : Option (List String)}
    {log : Log} {db : Database}
    (hdb : Database.ofSources options sources selected = (log, .ok db)) :
    ∃ lines q, Progress.start.addLines lines = .ok q ∧ db.zones = q.zones ∧
      db.ruleSets = q.ruleSets ∧
      ∀ line ∈ lines, ∃ cs, Line.read options.toMinutes cs = .ok line := by
  simp only [Database.ofSources] at hdb
  split at hdb
  · simp at hdb
  · rename_i q hq
    obtain ⟨aliases, -, rfl⟩ := exists_of_map_eq_ok (Prod.mk.inj hdb).2
    obtain ⟨lines, hlines, hread⟩ := exists_addLines_of_readSources hq
    exact ⟨lines, q, hlines, rfl, rfl, hread⟩

/-- **The lines of every zone of a database are closed.** -/
theorem isClosed_of_ofSources {options : Options} {selected : Option (List String)} {log : Log}
    {db : Database} (hdb : Database.ofSources options sources selected = (log, .ok db))
    {ls : List ZoneLine} (hls : db.zones.get? name = some ls) : IsClosed ls := by
  obtain ⟨lines, q, hlines, hzones, -⟩ := exists_addLines_of_ofSources hdb
  exact Progress.isClosed_of_addLines hlines (hzones ▸ hls)

theorem isWord_of_read {cs : List Char} {l : ZoneLine}
    (h : Line.read toMinutes cs = .ok (.zone name l)) : Text.IsWord name.toList := by
  unfold Line.read at h
  split at h
  · cases h
  · rename_i keyword fields hwords
    have hfields : ∀ w ∈ fields, Text.IsWord (String.ofList w).toList := fun w hw =>
      isWord_toList_ofList (hwords ▸ List.mem_cons_of_mem keyword hw)
    split at h
    · obtain ⟨l', -, hl'⟩ := exists_of_map_eq_ok h
      cases hl'
    split at h
    · obtain ⟨r, -, hr⟩ := exists_of_map_eq_ok h
      cases hr
    split at h
    · split at h <;> cases h
    split at h
    · split at h
      · obtain ⟨l', -, hl'⟩ := exists_of_map_eq_ok h
        cases hl'
        exact hfields _ (by simp)
      · cases h
    · cases h

/-- **The names of zones are words.** -/
theorem isWord_of_ofSources {options : Options} {selected : Option (List String)} {log : Log}
    {db : Database} (hdb : Database.ofSources options sources selected = (log, .ok db))
    (hname : name ∈ db.zones.names) : Text.IsWord name.toList := by
  obtain ⟨lines, q, hlines, hzones, -, hread⟩ := exists_addLines_of_ofSources hdb
  obtain ⟨l, hl⟩ := Progress.exists_zoneLine_of_addLines hlines (hzones ▸ hname)
  obtain ⟨cs, hcs⟩ := hread _ hl
  exact isWord_of_read hcs

/-- **A set of rules has rules of its name only.** -/
theorem name_of_mem_ruleSets {options : Options} {selected : Option (List String)} {log : Log}
    {db : Database} (hdb : Database.ofSources options sources selected = (log, .ok db))
    {rules : List Rule} {r : Rule} (hrules : db.ruleSets.get? name = some rules) (hr : r ∈ rules) :
    r.name = name := by
  obtain ⟨lines, q, hlines, -, hruleSets, -⟩ := exists_addLines_of_ofSources hdb
  have hset : ruleSet? (rulesNamed name lines) = some rules := by
    rw [← hrules, hruleSets]
    exact ((Progress.records_start.addLines hlines).ruleSets name).symm
  rw [ruleSet?] at hset
  split at hset
  · cases hset
  · obtain rfl := Option.some.inj hset
    obtain ⟨line, -, hline⟩ := List.mem_filterMap.1 hr
    cases line with
    | rule rule =>
      simp only at hline
      split at hline
      · rename_i hname
        rw [← Option.some.inj hline, hname]
      · cases hline
    | link target other => cases hline
    | zone other l => cases hline
    | continuation l => cases hline

/-- **Which sources make a database, what it holds, and where other sources are given up.** -/
theorem ofSources_spec (toMinutes : Bool) (sources : Registry String) :
    (∀ name text, sources.get? name = some text →
      NumbersLines text.toList (numberedSource sources name)) ∧
    ((∃ log db, Database.ofSources ⟨toMinutes, false⟩ sources none = (log, .ok db)) ↔
      (∀ name ∈ defaultNames sources, Accepts toMinutes (numberedSource sources name)) ∧
        LinksLead (allLines toMinutes sources)) ∧
    (∀ log db, Database.ofSources ⟨toMinutes, false⟩ sources none = (log, .ok db) →
      (∃ groups : String → List Group,
        (∀ name ∈ defaultNames sources,
          AreGroups (sourceLines toMinutes sources name) (groups name)) ∧
        ∀ id, db.zones.get? id = lastGroup? id ((defaultNames sources).flatMap groups)) ∧
      ∀ name, db.ruleSets.get? name = ruleSet? (rulesNamed name (allLines toMinutes sources))) ∧
    ((¬ ∀ name ∈ defaultNames sources, Accepts toMinutes (numberedSource sources name)) →
      ∃ before name after fault number, defaultNames sources = before ++ name :: after ∧
        (∀ other ∈ before, Accepts toMinutes (numberedSource sources other)) ∧
        ¬ Accepts toMinutes (numberedSource sources name) ∧
        StopsAt toMinutes (numberedSource sources name) number ∧
        Database.ofSources ⟨toMinutes, false⟩ sources none =
          ([], .error (.parse ⟨fault, name, number⟩))) := by
  refine ⟨fun name text htext => numbersLines_numberedSource htext, ?_⟩
  by_cases haccepts : ∀ name ∈ defaultNames sources, Accepts toMinutes (numberedSource sources name)
  · obtain ⟨groups, q, hgroups, hq, hrecords, hzones, hnames⟩ := ofSources_of_accepts haccepts
    have hlinks := resolveLinks_isOk_iff_linksLead hrecords hnames
    refine ⟨?_, ?_, fun hnot => absurd haccepts hnot⟩
    · rw [ofSources_isOk_iff hq, hlinks]
      exact ⟨fun h => ⟨haccepts, h⟩, fun h => h.2⟩
    · intro log db hdb
      obtain ⟨hdbZones, hdbRules⟩ := contents_of_ofSources hq hdb
      rw [hdbZones, hdbRules]
      exact ⟨⟨groups, hgroups, hzones⟩, hrecords.ruleSets⟩
  · obtain ⟨before, name, after, fault, number, hnames, hbefore, hrefused, hstops, herror⟩ :=
      readSources_eq_error (p := .start) (fun name => mem_names_of_mem_defaultNames) haccepts rfl
    have hresult : Database.ofSources ⟨toMinutes, false⟩ sources none =
        ([], .error (.parse ⟨fault, name, number⟩)) := by
      rw [ofSources_eq, herror]
    rw [hresult]
    refine ⟨?_, ?_, fun _ =>
      ⟨before, name, after, fault, number, hnames, hbefore, hrefused, hstops, rfl⟩⟩
    · simp [haccepts]
    · intro log db hdb
      cases (Prod.mk.inj hdb).2

end ZoneTables.Source
