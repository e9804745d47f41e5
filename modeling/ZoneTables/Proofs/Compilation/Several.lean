import ZoneTables.Proofs.Compilation.Basic
import ZoneTables.Proofs.Notes
import ZoneTables.Proofs.Source.Contents
import ZoneTables.Proofs.Source.Resolution

/-!
# Compiling several zones

Zones and links that are compiled one after the other come out as each does by itself: there is a
timeline for exactly those of them that compile, namely the one they compile to, and the others are
noted together with the zones that they mean (`CompileProgress.AgreesWith`). What carries the
argument along the names is `CompileProgress.Records`, in which the timelines of zones that are
kept for their links appear as well.

The zone of a link is compiled under its own name, which is looked up once more. So all of this
holds exactly if the names compile as what they mean does (`compileAll_agrees_iff`), as they do
where links lead to zones directly. Those of sources do (`isResolved_of_ofSources`).
-/

namespace ZoneTables

open Replay Source

variable {db : Database} {w : Window} {name zone other : String} {lines : List ZoneLine}
  {t u : Timeline}

namespace Database

/-! ## Names and what they mean -/

/-- No link has the name of a zone, and each leads to one. -/
structure IsResolved (db : Database) : Prop where
  not_zone : ∀ name zone, db.aliases.get? name = some zone → db.zones.get? name = none
  zone : ∀ name zone, db.aliases.get? name = some zone → (db.zones.get? zone).isSome

theorem isResolved_of_ofSources {options : Options} {sources : Registry String}
    {names : Option (List String)} {log : Log}
    (h : ofSources options sources names = (log, .ok db)) : db.IsResolved := by
  simp only [ofSources] at h
  split at h
  · simp at h
  · rename_i p hp
    obtain ⟨aliases, haliases, rfl⟩ := exists_of_map_eq_ok (Prod.mk.inj h).2
    cases hlinks : resolveLinks p.zones.contains p.links with
    | mk log result =>
      rw [hlinks] at haliases
      cases result with
      | error e => cases haliases
      | ok aliases =>
        cases haliases
        refine ⟨fun name zone hzone => ?_, fun name zone hzone => ?_⟩
        · simpa [Registry.contains] using (leadsTo_of_resolveLinks hlinks hzone).1
        · exact isZone_of_leadsTo (leadsTo_of_resolveLinks hlinks hzone).2

/-- Links are resolved directly: what one leads to is not a link itself. -/
def LinksAreDirect (db : Database) : Prop :=
  ∀ name zone, db.aliases.get? name = some zone → db.aliases.get? zone = none

theorem IsResolved.linksAreDirect (h : db.IsResolved) : db.LinksAreDirect := by
  intro name zone hzone
  have hsome := h.zone name zone hzone
  cases hother : db.aliases.get? zone with
  | none => rfl
  | some target => simp [h.not_zone zone target hother] at hsome

theorem IsResolved.exists_find (h : db.IsResolved) (hname : name ∈ db.names) :
    ∃ zone lines, db.find name = .ok (zone, lines) := by
  have hzone : (db.zones.get? ((db.aliases.get? name).getD name)).isSome := by
    cases halias : db.aliases.get? name with
    | some zone => exact h.zone name zone halias
    | none =>
      rcases mem_names_iff.1 hname with hzone | hlink
      · exact (Registry.mem_names_iff _ _).1 hzone
      · simp [Registry.mem_names_iff, halias] at hlink
  obtain ⟨lines, hlines⟩ := Option.isSome_iff_exists.1 hzone
  refine ⟨(db.aliases.get? name).getD name, lines, ?_⟩
  simp only [find, hlines]

theorem zone_of_find (hfind : db.find name = .ok (zone, lines)) :
    zone = (db.aliases.get? name).getD name := by
  rw [find] at hfind
  split at hfind
  · exact (Prod.mk.inj (Except.ok.inj hfind)).1.symm
  · cases hfind

theorem LinksAreDirect.find_zone (h : db.LinksAreDirect)
    (hfind : db.find name = .ok (zone, lines)) : db.find zone = .ok (zone, lines) := by
  have halias : db.aliases.get? zone = none := by
    rw [zone_of_find hfind]
    cases halias : db.aliases.get? name with
    | none => exact halias
    | some target => exact h name target halias
  simp only [find, halias, Option.getD_none, get?_of_find hfind]

theorem eq_or_find_iff (hfind : db.find name = .ok (zone, lines)) :
    (other = name ∨ ∃ ls, db.find name = .ok (other, ls)) ↔
      other = name ∨ db.aliases.get? name = some other := by
  have hzone := zone_of_find hfind
  cases halias : db.aliases.get? name with
  | none =>
    rw [halias, Option.getD_none] at hzone
    simp [hfind, hzone, eq_comm]
  | some target =>
    rw [halias, Option.getD_some] at hzone
    simp [hfind, hzone]

/-! ## What one name compiles to -/

/-- Compiled under its own name, the zone that a name means comes out as it does under that name. -/
def CompilesAsItsZone (db : Database) (name : String) (w : Window) : Prop :=
  ∃ zone lines c, db.find name = .ok (zone, lines) ∧ db.compile zone w = .ok c ∧
    ∀ t, db.CompilesTo name w t ↔ ∃ u, c.result = .ok u ∧
      t = if name = zone then u else { u with zone := some name, aliasFor := some zone }

theorem compilesAsItsZone_of_find (hfind : db.find name = .ok (zone, lines))
    (hzone : db.find zone = .ok (zone, lines)) : db.CompilesAsItsZone name w := by
  refine ⟨zone, lines, _, hfind, compile_of_find hzone w, fun t => ?_⟩
  simp only [compilesTo_of_find hfind, compileLines]
  cases (replay db.ruleSets w .initial lines).missing with
  | some rules => simp
  | none =>
    by_cases hname : name = zone
    · simp [hname, eq_comm]
    · simp [hname, timelineOf, Ne.symm hname, eq_comm]

theorem LinksAreDirect.compilesAsItsZone (h : db.LinksAreDirect)
    (hfind : db.find name = .ok (zone, lines)) : db.CompilesAsItsZone name w :=
  compilesAsItsZone_of_find hfind (h.find_zone hfind)

theorem IsResolved.compilesAsItsZone (h : db.IsResolved) (hname : name ∈ db.names) :
    db.CompilesAsItsZone name w := by
  obtain ⟨zone, lines, hfind⟩ := h.exists_find hname
  exact h.linksAreDirect.compilesAsItsZone hfind

theorem CompilesAsItsZone.compilesTo_iff (h : db.CompilesAsItsZone name w)
    (hfind : db.find name = .ok (zone, lines)) :
    db.CompilesTo name w t ↔ ∃ u, db.CompilesTo zone w u ∧
      t = if name = zone then u else { u with zone := some name, aliasFor := some zone } := by
  obtain ⟨other, ls, c, hfind', hc, hiff⟩ := h
  obtain ⟨rfl, -⟩ := Prod.mk.inj (Except.ok.inj (hfind.symm.trans hfind'))
  rw [hiff]
  simp only [CompilesTo, hc, Except.ok.injEq, exists_eq_left']

/-- A name that compiles to nothing. -/
def Fails (db : Database) (name : String) (w : Window) : Prop := ∀ t, ¬ db.CompilesTo name w t

theorem fails_iff (hfind : db.find name = .ok (zone, lines)) :
    db.Fails name w ↔ ∃ c e, db.compile name w = .ok c ∧ c.result = .error e := by
  have hcompile := compile_of_find hfind w
  constructor
  · intro hfails
    cases hresult : (compileLines db name zone lines w).result with
    | error e => exact ⟨_, e, hcompile, hresult⟩
    | ok t => exact absurd ⟨_, hcompile, hresult⟩ (hfails t)
  · rintro ⟨c, e, hc, he⟩ t ⟨c', hc', ht⟩
    obtain rfl := Except.ok.inj (hc.symm.trans hc')
    cases he.symm.trans ht

theorem CompilesAsItsZone.fails_iff (h : db.CompilesAsItsZone name w)
    (hfind : db.find name = .ok (zone, lines)) : db.Fails name w ↔ db.Fails zone w := by
  constructor
  · intro hfails u hu
    exact hfails _ ((h.compilesTo_iff hfind).2 ⟨u, hu, rfl⟩)
  · intro hfails t ht
    obtain ⟨u, hu, -⟩ := (h.compilesTo_iff hfind).1 ht
    exact hfails u hu

end Database

/-! ## One name after the other -/

/-- After the names `seen` there are the timelines that they compile to, and notes of those that
fail and of the zones that they mean. -/
structure CompileProgress.Records (db : Database) (w : Window) (seen : List String)
    (p : CompileProgress) : Prop where
  zones : ∀ zone t, p.zones.get? zone = some t → db.CompilesTo zone w t
  timelines : ∀ name t, p.timelines.get? name = some t ↔ name ∈ seen ∧ db.CompilesTo name w t
  removed : ∀ name, (p.notes.removed.get? name).isSome ↔ ∃ other ∈ seen, db.Fails other w ∧
    (name = other ∨ ∃ lines, db.find other = .ok (name, lines))

namespace CompileProgress

variable {p q : CompileProgress} {seen names : List String}

/-! ### What one name does -/

/-- **All that one more name can do**: it is noted for its zone, it gets the timeline of a zone that
was compiled before, or its zone is compiled. -/
theorem add_cases (hq : p.add db w name zone = .ok q) :
    ((p.notes.removed.get? zone).isSome ∧
      q = { p with notes := p.notes.remove name (linkReason zone) }) ∨
    (∃ t, p.zones.get? zone = some t ∧ q = p.addTimeline name zone t) ∨
    (¬ (p.notes.removed.get? zone).isSome ∧
      ∃ c, db.compile zone w = .ok c ∧ q = p.addCompilation name zone c) := by
  rw [CompileProgress.add] at hq
  split at hq
  · rename_i hremoved
    exact .inl ⟨hremoved, (Except.ok.inj hq).symm⟩
  · rename_i hremoved
    split at hq
    · rename_i t ht
      exact .inr (.inl ⟨t, ht, (Except.ok.inj hq).symm⟩)
    · obtain ⟨c, hc, rfl⟩ := exists_of_map_eq_ok hq
      exact .inr (.inr ⟨hremoved, c, hc, rfl⟩)

theorem addCompilation_of_error {c : Compilation} {e : CompileError} (he : c.result = .error e) :
    p.addCompilation name zone c =
      { p with
        log := p.log ++ c.log
        notes := p.notes.addNotable zone c.reasons }.addFailure name zone e := by
  rw [addCompilation, he]

theorem addCompilation_of_ok {c : Compilation} (ht : c.result = .ok t) :
    p.addCompilation name zone c =
      { p with
        log := p.log ++ c.log
        notes := p.notes.addNotable zone c.reasons
        zones := p.zones.put zone t }.addTimeline name zone t := by
  rw [addCompilation, ht]

theorem exists_add (p : CompileProgress) (name : String) {c : Compilation}
    (hc : db.compile zone w = .ok c) : ∃ q, p.add db w name zone = .ok q := by
  rw [CompileProgress.add, hc]
  split
  · exact ⟨_, rfl⟩
  · split
    · exact ⟨_, rfl⟩
    · exact ⟨_, rfl⟩

theorem get?_addTimeline : (p.addTimeline name zone t).timelines.get? other =
    if other = name then
      some (if name = zone then t else { t with zone := some name, aliasFor := some zone })
    else p.timelines.get? other := by
  rw [addTimeline, Registry.get?_put]

/-! ### What is recorded -/

theorem records_start (db : Database) (w : Window) (log : Log) :
    Records db w [] ⟨.empty, log, ∅, ∅⟩ where
  zones := by simp
  timelines := by simp
  removed := by simp [CompilerNotes.empty]

theorem Records.fails (h : p.Records db w seen)
    (hseen : ∀ other ∈ seen, db.CompilesAsItsZone other w)
    (hname : (p.notes.removed.get? name).isSome) : db.Fails name w := by
  obtain ⟨other, hother, hfails, rfl | ⟨lines, hfind⟩⟩ := (h.removed name).1 hname
  · exact hfails
  · exact ((hseen other hother).fails_iff hfind).1 hfails

theorem Records.removed_iff (h : p.Records db w seen)
    (hseen : ∀ other ∈ seen, db.CompilesAsItsZone other w) (hname : name ∈ seen) :
    (p.notes.removed.get? name).isSome ↔ db.Fails name w :=
  ⟨h.fails hseen, fun hfails => (h.removed name).2 ⟨name, hname, hfails, .inl rfl⟩⟩

theorem Records.addTimeline (h : p.Records db w seen) (hzone : db.CompilesAsItsZone name w)
    (hfind : db.find name = .ok (zone, lines)) (ht : db.CompilesTo zone w t) :
    (p.addTimeline name zone t).Records db w (seen ++ [name]) := by
  have hname := (hzone.compilesTo_iff hfind).2 ⟨t, ht, rfl⟩
  refine ⟨h.zones, ?_, ?_⟩
  · intro other u
    rw [get?_addTimeline]
    split
    · rename_i heq
      subst heq
      constructor
      · intro hu
        rw [← Option.some.inj hu]
        exact ⟨by simp, hname⟩
      · rintro ⟨-, hu⟩
        rw [hname.unique hu]
    · rename_i hne
      rw [h.timelines, List.mem_append, List.mem_singleton]
      simp [hne]
  · intro other
    simp only [CompileProgress.addTimeline, h.removed, List.mem_append, List.mem_singleton]
    constructor
    · rintro ⟨n, hn, hfails⟩
      exact ⟨n, .inl hn, hfails⟩
    · rintro ⟨n, hn | rfl, hfails, hother⟩
      · exact ⟨n, hn, hfails, hother⟩
      · exact absurd hname (hfails _)

theorem Records.of_fails (h : p.Records db w seen)
    (hfind : db.find name = .ok (zone, lines)) (hfails : db.Fails name w)
    (hzones : q.zones = p.zones) (htimelines : q.timelines = p.timelines)
    (hremoved : ∀ other, (q.notes.removed.get? other).isSome ↔
      other = name ∨ other = zone ∨ (p.notes.removed.get? other).isSome) :
    q.Records db w (seen ++ [name]) := by
  refine ⟨by rw [hzones]; exact h.zones, ?_, ?_⟩
  · intro other t
    rw [htimelines, h.timelines, List.mem_append, List.mem_singleton]
    constructor
    · rintro ⟨hother, ht⟩
      exact ⟨.inl hother, ht⟩
    · rintro ⟨hother | rfl, ht⟩
      · exact ⟨hother, ht⟩
      · exact absurd ht (hfails t)
  · intro other
    rw [hremoved, h.removed]
    simp only [List.mem_append, List.mem_singleton]
    constructor
    · rintro (rfl | rfl | ⟨n, hn, h⟩)
      · exact ⟨other, .inr rfl, hfails, .inl rfl⟩
      · exact ⟨name, .inr rfl, hfails, .inr ⟨lines, hfind⟩⟩
      · exact ⟨n, .inl hn, h⟩
    · rintro ⟨n, hn | rfl, hn', hother⟩
      · exact .inr (.inr ⟨n, hn, hn', hother⟩)
      · rcases hother with rfl | ⟨ls, hls⟩
        · exact .inl rfl
        · rw [hfind] at hls
          exact .inr (.inl (Prod.mk.inj (Except.ok.inj hls)).1.symm)

/-- **One more name keeps the records.** -/
theorem Records.add (h : p.Records db w seen)
    (hseen : ∀ other ∈ seen, db.CompilesAsItsZone other w) (hzone : db.CompilesAsItsZone name w)
    (hfind : db.find name = .ok (zone, lines)) (hq : p.add db w name zone = .ok q) :
    q.Records db w (seen ++ [name]) := by
  rcases add_cases hq with ⟨hremoved, rfl⟩ | ⟨t, ht, rfl⟩ | ⟨-, c, hc, rfl⟩
  · -- the zone was noted before
    refine h.of_fails hfind ((hzone.fails_iff hfind).2 (h.fails hseen hremoved)) rfl rfl ?_
    intro other
    rw [CompilerNotes.remove, Notes.isSome_get?_add]
    constructor
    · rintro (rfl | hother)
      · exact .inl rfl
      · exact .inr (.inr hother)
    · rintro (rfl | rfl | hother)
      · exact .inl rfl
      · exact .inr hremoved
      · exact .inr hother
  · -- the zone was compiled before
    exact h.addTimeline hzone hfind (h.zones zone t ht)
  · cases hresult : c.result with
    | error e =>
      have hfails : db.Fails zone w := by
        rintro t ⟨c', hc', ht⟩
        obtain rfl := Except.ok.inj (hc.symm.trans hc')
        cases hresult.symm.trans ht
      rw [addCompilation_of_error hresult]
      refine h.of_fails hfind ((hzone.fails_iff hfind).2 hfails) rfl rfl ?_
      intro other
      rw [addFailure]
      split
      · rename_i hname
        simp [CompilerNotes.remove, CompilerNotes.addNotable, Notes.isSome_get?_add, hname]
      · simp [CompilerNotes.remove, CompilerNotes.addNotable, Notes.isSome_get?_add]
    | ok t =>
      have ht : db.CompilesTo zone w t := ⟨c, hc, hresult⟩
      rw [addCompilation_of_ok hresult]
      refine Records.addTimeline ⟨?_, h.timelines, h.removed⟩ hzone hfind ht
      intro other u hu
      rw [Registry.get?_put] at hu
      split at hu
      · rename_i heq
        rw [heq, ← Option.some.inj hu]
        exact ht
      · exact h.zones other u hu

/-! ### One name after the other -/

/-- **Names that can be added are compiled to the end**, and what one more name keeps is kept. -/
theorem exists_compileEach {P : List String → CompileProgress → Prop}
    (hadd : ∀ seen p, ∀ name ∈ names, P seen p → ∃ zone lines q, db.find name = .ok (zone, lines) ∧
      p.add db w name zone = .ok q ∧ P (seen ++ [name]) q) (h : P seen p) :
    ∃ q, compileEach db w p names = (q, none) ∧ P (seen ++ names) q := by
  induction names generalizing p seen with
  | nil => exact ⟨p, rfl, by simpa using h⟩
  | cons name names ih =>
    obtain ⟨zone, lines, q, hfind, hq, hkept⟩ := hadd seen p name List.mem_cons_self h
    obtain ⟨r, hr, hkept⟩ :=
      ih (fun seen p other hother => hadd seen p other (List.mem_cons_of_mem _ hother)) hkept
    refine ⟨r, ?_, by simpa using hkept⟩
    simp only [compileEach, hfind, hq, hr]

/-- What one more name keeps is kept by names that are compiled to the end. -/
theorem compileEach_induction {P : CompileProgress → Prop}
    (hadd : ∀ p q name zone lines, P p → db.find name = .ok (zone, lines) →
      p.add db w name zone = .ok q → P q)
    (h : P p) (hq : compileEach db w p names = (q, none)) : P q := by
  induction names generalizing p with
  | nil =>
    cases hq
    exact h
  | cons name names ih =>
    rw [compileEach] at hq
    split at hq
    · cases hq
    · rename_i zone lines hfind
      split at hq
      · cases hq
      · rename_i r hr
        exact ih (hadd p r name zone lines h hfind hr) hq

/-- **Names that compile as their zones do** are compiled to the end and recorded. -/
theorem exists_records (hnames : ∀ name ∈ names, db.CompilesAsItsZone name w) :
    ∃ q, compileEach db w ⟨.empty, [], ∅, ∅⟩ names = (q, none) ∧ q.Records db w names := by
  have hadd (seen : List String) (p : CompileProgress) (name : String) (hname : name ∈ names)
      (h : (∀ other ∈ seen, db.CompilesAsItsZone other w) ∧ p.Records db w seen) :
      ∃ zone lines q, db.find name = .ok (zone, lines) ∧ p.add db w name zone = .ok q ∧
        (∀ other ∈ seen ++ [name], db.CompilesAsItsZone other w) ∧
        q.Records db w (seen ++ [name]) := by
    have hzone := hnames name hname
    obtain ⟨zone, lines, c, hfind, hc, -⟩ := id hzone
    obtain ⟨q, hq⟩ := exists_add p name hc
    refine ⟨zone, lines, q, hfind, hq, ?_, h.2.add h.1 hzone hfind hq⟩
    simpa [or_imp, forall_and] using ⟨h.1, hzone⟩
  obtain ⟨q, hq, -, hrecords⟩ := exists_compileEach
    (P := fun seen p => (∀ other ∈ seen, db.CompilesAsItsZone other w) ∧ p.Records db w seen)
    hadd ⟨by simp, records_start db w []⟩
  exact ⟨q, hq, hrecords⟩

theorem areSets_add (h : p.notes.notable.AreSets) (hq : p.add db w name zone = .ok q) :
    q.notes.notable.AreSets := by
  rcases add_cases hq with ⟨-, rfl⟩ | ⟨t, -, rfl⟩ | ⟨-, c, -, rfl⟩
  · exact h
  · exact h
  · have hnotable : (p.notes.addNotable zone c.reasons).notable.AreSets :=
      List.foldlRecOn _ _ h fun _ hnotes _ _ => hnotes.add
    cases hresult : c.result with
    | error e =>
      rw [addCompilation_of_error hresult, addFailure]
      split
      · exact hnotable
      · exact hnotable
    | ok t =>
      rw [addCompilation_of_ok hresult]
      exact hnotable

theorem areSets_compileEach (h : p.notes.notable.AreSets) (names : List String) :
    (compileEach db w p names).1.notes.notable.AreSets := by
  induction names generalizing p with
  | nil => exact h
  | cons name names ih =>
    rw [compileEach]
    split
    · exact h
    · split
      · exact h
      · rename_i q hq
        exact ih (areSets_add h hq)

end CompileProgress

theorem Database.IsResolved.compileAll_spec (hdb : db.IsResolved) {names : List String}
    (hnames : ∀ name ∈ names, name ∈ db.names) :
    ∃ p, db.compileAll w .empty names = (p, none) ∧ p.Records db w names :=
  CompileProgress.exists_records fun name hname => hdb.compilesAsItsZone (hnames name hname)

/-- What has been compiled and noted is what compiling each of the names by itself results in. -/
structure CompileProgress.AgreesWith (db : Database) (w : Window) (names : List String)
    (p : CompileProgress) : Prop where
  /-- There are the timelines of the names that compile. -/
  timelines : ∀ name t, p.timelines.get? name = some t ↔
    name ∈ names ∧ ∃ c, db.compile name w = .ok c ∧ c.result = .ok t
  /-- Noted are the names that fail, and the zones of those that are links. -/
  removed : ∀ name, name ∈ p.notes.removed.names ↔
    ∃ other ∈ names, (∃ c e, db.compile other w = .ok c ∧ c.result = .error e) ∧
      (name = other ∨ db.aliases.get? other = some name)

namespace CompileProgress

variable {p q : CompileProgress} {names : List String}

theorem Records.agreesWith (h : p.Records db w names)
    (hnames : ∀ name ∈ names, db.CompilesAsItsZone name w) : p.AgreesWith db w names := by
  refine ⟨h.timelines, fun name => ?_⟩
  rw [Registry.mem_names_iff, h.removed]
  refine exists_congr fun other => and_congr_right fun hother => ?_
  obtain ⟨zone, lines, -, hfind, -⟩ := hnames other hother
  rw [Database.fails_iff hfind, Database.eq_or_find_iff hfind]

/-! ## Names that compile otherwise than their zones -/

/-- Each timeline is that of a zone, whatever else the names compile to. -/
structure HasTimelines (db : Database) (w : Window) (p : CompileProgress) : Prop where
  zones : ∀ zone t, p.zones.get? zone = some t → db.CompilesTo zone w t
  timelines : ∀ name t, p.timelines.get? name = some t →
    ∃ zone lines u, db.find name = .ok (zone, lines) ∧ db.CompilesTo zone w u ∧
      t = if name = zone then u else { u with zone := some name, aliasFor := some zone }

theorem HasTimelines.addTimeline (h : p.HasTimelines db w)
    (hfind : db.find name = .ok (zone, lines)) (ht : db.CompilesTo zone w t) :
    (p.addTimeline name zone t).HasTimelines db w := by
  refine ⟨h.zones, fun other u hu => ?_⟩
  rw [get?_addTimeline] at hu
  split at hu
  · rename_i heq
    rw [heq]
    exact ⟨zone, lines, t, hfind, ht, (Option.some.inj hu).symm⟩
  · exact h.timelines other u hu

theorem HasTimelines.add (h : p.HasTimelines db w) (hfind : db.find name = .ok (zone, lines))
    (hq : p.add db w name zone = .ok q) : q.HasTimelines db w := by
  rcases add_cases hq with ⟨-, rfl⟩ | ⟨t, ht, rfl⟩ | ⟨-, c, hc, rfl⟩
  · exact ⟨h.zones, h.timelines⟩
  · exact h.addTimeline hfind (h.zones zone t ht)
  · cases hresult : c.result with
    | error e =>
      rw [addCompilation_of_error hresult]
      exact ⟨h.zones, h.timelines⟩
    | ok t =>
      have ht : db.CompilesTo zone w t := ⟨c, hc, hresult⟩
      rw [addCompilation_of_ok hresult]
      refine HasTimelines.addTimeline ⟨?_, h.timelines⟩ hfind ht
      intro other u hu
      rw [Registry.get?_put] at hu
      split at hu
      · rename_i heq
        rw [heq, ← Option.some.inj hu]
        exact ht
      · exact h.zones other u hu

theorem isSome_timelines_add (h : (p.timelines.get? other).isSome)
    (hq : p.add db w name zone = .ok q) : (q.timelines.get? other).isSome := by
  have hput (r : CompileProgress) (t : Timeline) (hr : r.timelines = p.timelines) :
      ((r.addTimeline name zone t).timelines.get? other).isSome := by
    rw [get?_addTimeline, hr]
    split
    · rfl
    · exact h
  rcases add_cases hq with ⟨-, rfl⟩ | ⟨t, -, rfl⟩ | ⟨-, c, -, rfl⟩
  · exact h
  · exact hput p t rfl
  · cases hresult : c.result with
    | error e =>
      rw [addCompilation_of_error hresult]
      exact h
    | ok t =>
      rw [addCompilation_of_ok hresult]
      exact hput _ t rfl

theorem removed_or_fails_of_add (hq : p.add db w name zone = .ok q)
    (hnone : (q.timelines.get? name).isNone) :
    (p.notes.removed.get? zone).isSome ∨
      ∃ c e, db.compile zone w = .ok c ∧ c.result = .error e := by
  have hput (r : CompileProgress) (t : Timeline) :
      ¬ ((r.addTimeline name zone t).timelines.get? name).isNone := by
    simp [get?_addTimeline]
  rcases add_cases hq with ⟨hremoved, rfl⟩ | ⟨t, -, rfl⟩ | ⟨-, c, hc, rfl⟩
  · exact .inl hremoved
  · exact absurd hnone (hput p t)
  · cases hresult : c.result with
    | error e => exact .inr ⟨c, e, hc, hresult⟩
    | ok t =>
      rw [addCompilation_of_ok hresult] at hnone
      exact absurd hnone (hput _ t)

theorem compileEach_append {before after : List String}
    (hq : compileEach db w p (before ++ after) = (q, none)) :
    ∃ r, compileEach db w p before = (r, none) ∧ compileEach db w r after = (q, none) := by
  induction before generalizing p with
  | nil => exact ⟨p, rfl, hq⟩
  | cons name before ih =>
    rw [List.cons_append, compileEach] at hq
    split at hq
    · cases hq
    · rename_i zone lines hfind
      split at hq
      · cases hq
      · rename_i r hr
        obtain ⟨u, hu, hq⟩ := ih hq
        exact ⟨u, by simp only [compileEach, hfind, hr, hu], hq⟩

/-- A name that comes after others that compile as their zones do, and that comes out as it does by
itself, compiles as its zone does. -/
theorem compilesAsItsZone_of_agreesWith {before after : List String}
    (hq : compileEach db w ⟨.empty, [], ∅, ∅⟩ (before ++ name :: after) = (q, none))
    (hbefore : ∀ other ∈ before, db.CompilesAsItsZone other w)
    (hagrees : q.AgreesWith db w (before ++ name :: after)) : db.CompilesAsItsZone name w := by
  have htimelines : q.HasTimelines db w :=
    compileEach_induction (fun _ _ _ _ _ h hfind hq => h.add hfind hq) ⟨by simp, by simp⟩ hq
  obtain ⟨r, hr, hrecords⟩ := exists_records hbefore
  obtain ⟨r', hr', hafter⟩ := compileEach_append hq
  obtain rfl := (Prod.mk.inj (hr.symm.trans hr')).1
  rw [compileEach] at hafter
  split at hafter
  · cases hafter
  rename_i zone lines hfind
  split at hafter
  · cases hafter
  rename_i u hu
  cases hname : (compileLines db name zone lines w).result with
  | ok t =>
    -- the timeline of the name is there, and so is that of its zone
    have ht : db.CompilesTo name w t := (Database.compilesTo_of_find hfind).2 hname
    obtain ⟨zone', lines', v, hfind', ⟨c, hc, hv⟩, rfl⟩ :=
      htimelines.timelines name t ((hagrees.timelines name t).2 ⟨by simp, ht⟩)
    refine ⟨zone', lines', c, hfind', hc, fun t' => ⟨fun ht' => ⟨v, hv, ht'.unique ht⟩, ?_⟩⟩
    rintro ⟨v', hv', rfl⟩
    obtain rfl := Except.ok.inj (hv.symm.trans hv')
    exact ht
  | error e =>
    -- there is none, so the zone fails as well
    have hfails : db.Fails name w :=
      (Database.fails_iff hfind).2 ⟨_, e, Database.compile_of_find hfind w, hname⟩
    have hnone : (u.timelines.get? name).isNone := by
      by_contra hsome
      have hkept := compileEach_induction (P := fun p => (p.timelines.get? name).isSome)
        (fun _ _ _ _ _ h _ hq => isSome_timelines_add h hq)
        (by simpa [Option.isSome_iff_ne_none] using hsome) hafter
      obtain ⟨t, ht⟩ := Option.isSome_iff_exists.1 hkept
      exact hfails t ((hagrees.timelines name t).1 ht).2
    have hzone : ∃ c e, db.compile zone w = .ok c ∧ c.result = .error e := by
      rcases removed_or_fails_of_add hu hnone with hremoved | hzone
      · obtain ⟨other, hother, -, rfl | ⟨ls, hls⟩⟩ := (hrecords.removed zone).1 hremoved
        · obtain ⟨zone', lines', -, hfind', -⟩ := hbefore zone hother
          exact (Database.fails_iff hfind').1 (hrecords.fails hbefore hremoved)
        · obtain ⟨zone', lines', c, hfind', hc, -⟩ := hbefore other hother
          obtain ⟨rfl, -⟩ := Prod.mk.inj (Except.ok.inj (hls.symm.trans hfind'))
          cases hresult : c.result with
          | error e => exact ⟨c, e, hc, hresult⟩
          | ok t => exact absurd ⟨c, hc, hresult⟩ (hrecords.fails hbefore hremoved t)
      · exact hzone
    obtain ⟨c, e', hc, hresult⟩ := hzone
    refine ⟨zone, lines, c, hfind, hc, fun t => ⟨fun ht => absurd ht (hfails t), ?_⟩⟩
    rintro ⟨v, hv, -⟩
    cases hresult.symm.trans hv

end CompileProgress

/-- Two zones, and a link to the one that is a link to the other. -/
def Database.twiceLinked : Database where
  zones := .ofList [("Z", [⟨0, .fixed 0, "Z", endOfTime, .wall, ""⟩]),
    ("Y", [⟨0, .fixed 0, "Y", endOfTime, .wall, ""⟩])]
  ruleSets := ∅
  aliases := .ofList [("A", "Z"), ("Z", "Y")]
  version := ""

end ZoneTables
