import Mathlib.Data.List.Nodup
import ZoneTables.Proofs.Compilation.Several
import ZoneTables.Proofs.Source.Acceptance

/-!
# Notes of failures

Zones and links that are compiled one after the other leave notes of those that fail. A zone is
noted for its error, and a link for the zone that it leads to. So is a zone itself if it comes
again, that is, after a name that means it (`Database.IsNoted`): one name after the other adds no
other notes (`CompileProgress.NotesFailures.add`). A list in another order therefore leaves the same
notes exactly if the zones that fail and come after a link to them are the same
(`Database.removed_sameAs_iff`).
-/

namespace ZoneTables

open Replay Source

theorem pair_sublist_append_singleton {α : Type} {a b c : α} {xs : List α} :
    [a, b].Sublist (xs ++ [c]) ↔ [a, b].Sublist xs ∨ a ∈ xs ∧ b = c := by
  constructor
  · intro h
    obtain ⟨front, back, hsplit, hfront, hback⟩ := List.sublist_append_iff.1 h
    rcases List.sublist_singleton.1 hback with rfl | rfl
    · rw [List.append_nil] at hsplit
      exact .inl (hsplit ▸ hfront)
    · rw [← List.singleton_append] at hsplit
      obtain ⟨hinit, hlast⟩ := List.append_inj' hsplit rfl
      rw [← hinit, List.singleton_sublist] at hfront
      exact .inr ⟨hfront, List.singleton_inj.1 hlast⟩
  · rintro (h | ⟨ha, rfl⟩)
    · exact h.trans (List.sublist_append_left xs [c])
    · exact (List.singleton_sublist.2 ha).append (List.Sublist.refl [b])

variable {db : Database} {w : Window} {name zone other reason : String} {lines : List ZoneLine}
  {seen names others : List String}

/-! ## What is noted of failures -/

namespace Database

/-- Compiling a name results in an error. -/
def FailsWith (db : Database) (name : String) (w : Window) (e : CompileError) : Prop :=
  ∃ c, db.compile name w = .ok c ∧ c.result = .error e

/-- One of the names means the zone. -/
def IsMeant (db : Database) (names : List String) (zone : String) : Prop :=
  ∃ other ∈ names, ∃ lines, db.find other = .ok (zone, lines)

/-- The zone comes among the names after one that means it. -/
def ComesAgain (db : Database) (names : List String) (zone : String) : Prop :=
  ∃ other lines, db.find other = .ok (zone, lines) ∧ [other, zone].Sublist names

/-- The zone comes among the names after a link to it. -/
def FollowsLink (db : Database) (names : List String) (zone : String) : Prop :=
  ∃ link ∈ names, db.aliases.get? link = some zone ∧ [link, zone].Sublist names

instance (db : Database) (names : List String) (zone : String) :
    Decidable (db.FollowsLink names zone) :=
  inferInstanceAs (Decidable (∃ link ∈ names,
    db.aliases.get? link = some zone ∧ [link, zone].Sublist names))

/-- What is noted of a name after names that are compiled one after the other. -/
inductive IsNoted (db : Database) (w : Window) (seen : List String) (name reason : String) : Prop
  /-- A zone that fails is noted for its error. -/
  | error (e : CompileError) (fails : db.FailsWith name w e) (meant : db.IsMeant seen name)
      (reason_eq : reason = e.message)
  /-- A link is noted for the zone that fails, and so is the zone itself when it comes again. -/
  | link (zone : String) (lines : List ZoneLine) (mem : name ∈ seen)
      (find : db.find name = .ok (zone, lines)) (fails : db.Fails zone w)
      (again : name ≠ zone ∨ db.ComesAgain seen zone)
      (reason_eq : reason = CompileProgress.linkReason zone)

theorem FailsWith.fails {e : CompileError} (h : db.FailsWith name w e) : db.Fails name w := by
  obtain ⟨c, hc, he⟩ := h
  rintro t ⟨c', hc', ht⟩
  obtain rfl := Except.ok.inj (hc.symm.trans hc')
  cases he.symm.trans ht

theorem FailsWith.zone_eq {e : CompileError} (h : db.FailsWith name w e) : e.zone = name := by
  obtain ⟨c, hc, he⟩ := h
  rw [compile] at hc
  obtain ⟨⟨zone, lines⟩, -, hc⟩ := exists_of_bind_eq_ok hc
  cases hc
  simp only [compileLines] at he
  split at he
  · cases he
    rfl
  · cases he

theorem isMeant_append_singleton (hfind : db.find name = .ok (zone, lines)) :
    db.IsMeant (seen ++ [name]) other ↔ db.IsMeant seen other ∨ other = zone := by
  unfold IsMeant
  simp only [List.mem_append, List.mem_singleton, or_and_right, exists_or, exists_eq_left, hfind]
  refine or_congr_right ⟨?_, ?_⟩
  · rintro ⟨ls, hls⟩
    exact (Prod.mk.inj (Except.ok.inj hls)).1.symm
  · rintro rfl
    exact ⟨lines, rfl⟩

theorem comesAgain_append_singleton :
    db.ComesAgain (seen ++ [name]) zone ↔
      db.ComesAgain seen zone ∨ db.IsMeant seen zone ∧ zone = name := by
  unfold ComesAgain IsMeant
  simp only [pair_sublist_append_singleton, and_or_left, exists_or]
  refine or_congr_right ⟨?_, ?_⟩
  · rintro ⟨other, ls, hfind, hmem, rfl⟩
    exact ⟨⟨other, hmem, ls, hfind⟩, rfl⟩
  · rintro ⟨⟨other, hmem, ls, hfind⟩, rfl⟩
    exact ⟨other, ls, hfind, hmem, rfl⟩

/-- **What one more name adds to the notes**: the error of its zone, and the name itself unless it
is a zone that comes for the first time. -/
theorem isNoted_append_singleton (hfind : db.find name = .ok (zone, lines)) :
    db.IsNoted w (seen ++ [name]) other reason ↔ db.IsNoted w seen other reason ∨
      (other = zone ∧ ∃ e, db.FailsWith zone w e ∧ reason = e.message) ∨
      (other = name ∧ db.Fails zone w ∧ (name ≠ zone ∨ db.IsMeant seen zone) ∧
        reason = CompileProgress.linkReason zone) := by
  constructor
  · intro h
    cases h with
    | error e fails meant reason_eq =>
      rcases (isMeant_append_singleton hfind).1 meant with meant | rfl
      · exact .inl (.error e fails meant reason_eq)
      · exact .inr (.inl ⟨rfl, e, fails, reason_eq⟩)
    | link target ls mem find fails again reason_eq =>
      rw [comesAgain_append_singleton] at again
      rcases List.mem_append.1 mem with mem | mem
      · by_cases hagain : other ≠ target ∨ db.ComesAgain seen target
        · exact .inl (.link target ls mem find fails hagain reason_eq)
        · -- the zone was there before, and comes again now
          obtain ⟨hother, hnot⟩ := not_or.1 hagain
          obtain ⟨hmeant, htarget⟩ := (again.resolve_left hother).resolve_left hnot
          rw [not_not] at hother
          obtain rfl : other = name := hother.trans htarget
          obtain ⟨rfl, -⟩ := Prod.mk.inj (Except.ok.inj (hfind.symm.trans find))
          exact .inr (.inr ⟨rfl, fails, .inr hmeant, reason_eq⟩)
      · obtain rfl := List.mem_singleton.1 mem
        obtain ⟨rfl, -⟩ := Prod.mk.inj (Except.ok.inj (hfind.symm.trans find))
        refine .inr (.inr ⟨rfl, fails, ?_, reason_eq⟩)
        rcases again with hne | ⟨o, ls', ho, hsub⟩ | ⟨hmeant, -⟩
        · exact .inl hne
        · exact .inr ⟨o, hsub.subset (by simp), ls', ho⟩
        · exact .inr hmeant
  · rintro (h | ⟨rfl, e, fails, reason_eq⟩ | ⟨rfl, fails, again, reason_eq⟩)
    · cases h with
      | error e fails meant reason_eq =>
        exact .error e fails ((isMeant_append_singleton hfind).2 (.inl meant)) reason_eq
      | link target ls mem find fails again reason_eq =>
        refine .link target ls (List.mem_append_left _ mem) find fails ?_ reason_eq
        exact again.imp_right fun hagain => comesAgain_append_singleton.2 (.inl hagain)
    · exact .error e fails ((isMeant_append_singleton hfind).2 (.inr rfl)) reason_eq
    · refine .link zone lines (by simp) hfind fails ?_ reason_eq
      by_cases hname : other = zone
      · refine .inr (comesAgain_append_singleton.2 (.inr ⟨?_, hname.symm⟩))
        exact again.resolve_left (not_not.2 hname)
      · exact .inl hname

theorem isNoted_append_singleton_of_not_fails (hfind : db.find name = .ok (zone, lines))
    (hnot : ¬ db.Fails zone w) :
    db.IsNoted w (seen ++ [name]) other reason ↔ db.IsNoted w seen other reason := by
  rw [isNoted_append_singleton hfind]
  constructor
  · rintro (hnoted | ⟨-, e, hfailsWith, -⟩ | ⟨-, hfails, -⟩)
    · exact hnoted
    · exact absurd hfailsWith.fails hnot
    · exact absurd hfails hnot
  · exact .inl

end Database

/-! ## One name after the other -/

namespace CompileProgress

variable {p q : CompileProgress}

/-- After the names `seen` there are the records of them, and the reasons that are noted of their
failures. -/
structure NotesFailures (db : Database) (w : Window) (seen : List String) (p : CompileProgress) :
    Prop where
  records : p.Records db w seen
  tells : ∀ name reason, p.notes.removed.Tells name reason ↔ db.IsNoted w seen name reason

theorem notesFailures_start (db : Database) (w : Window) (log : Log) :
    NotesFailures db w [] ⟨.empty, log, ∅, ∅⟩ where
  records := records_start db w log
  tells name reason := by
    refine iff_of_false (Notes.not_tells_empty name reason) ?_
    rintro (⟨e, -, ⟨other, hother, -⟩, -⟩ | ⟨zone, lines, mem, -⟩)
    · cases hother
    · cases mem

theorem Records.removed_zone_iff (h : p.Records db w seen) (hdb : db.LinksAreDirect)
    (hfind : db.find zone = .ok (zone, lines)) :
    (p.notes.removed.get? zone).isSome ↔ db.Fails zone w ∧ db.IsMeant seen zone := by
  rw [h.removed]
  constructor
  · rintro ⟨other, hother, hfails, rfl | ⟨ls, hls⟩⟩
    · exact ⟨hfails, zone, hother, lines, hfind⟩
    · exact ⟨((hdb.compilesAsItsZone hls).fails_iff hls).1 hfails, other, hother, ls, hls⟩
  · rintro ⟨hfails, other, hother, ls, hls⟩
    exact ⟨other, hother, ((hdb.compilesAsItsZone hls).fails_iff hls).2 hfails, .inr ⟨ls, hls⟩⟩

/-- **One more name adds its notes.** -/
theorem NotesFailures.add (h : p.NotesFailures db w seen) (hdb : db.LinksAreDirect)
    (hseen : ∀ other ∈ seen, ∃ zone lines, db.find other = .ok (zone, lines))
    (hfind : db.find name = .ok (zone, lines)) (hq : p.add db w name zone = .ok q) :
    q.NotesFailures db w (seen ++ [name]) := by
  have hcompiles : ∀ other ∈ seen, db.CompilesAsItsZone other w := by
    intro other hother
    obtain ⟨zone, lines, hfind⟩ := hseen other hother
    exact hdb.compilesAsItsZone hfind
  refine ⟨h.records.add hcompiles (hdb.compilesAsItsZone hfind) hfind hq, fun other reason => ?_⟩
  have hzone := hdb.find_zone hfind
  have hremoved := h.records.removed_zone_iff hdb hzone
  rcases add_cases hq with ⟨hcontains, rfl⟩ | ⟨t, ht, rfl⟩ | ⟨hcontains, c, hc, rfl⟩
  · -- the zone was noted before
    obtain ⟨hfails, hmeant⟩ := hremoved.1 hcontains
    rw [Database.isNoted_append_singleton hfind, ← h.tells, CompilerNotes.remove, Notes.tells_add]
    constructor
    · rintro (⟨rfl, rfl⟩ | htells)
      · exact .inr (.inr ⟨rfl, hfails, .inr hmeant, rfl⟩)
      · exact .inl htells
    · rintro (htells | ⟨rfl, e, hfailsWith, rfl⟩ | ⟨rfl, -, -, rfl⟩)
      · exact .inr htells
      · exact .inr ((h.tells _ _).2 (.error e hfailsWith hmeant rfl))
      · exact .inl ⟨rfl, rfl⟩
  · -- the zone was compiled before
    have hnot : ¬ db.Fails zone w := fun hfails => hfails t (h.records.zones zone t ht)
    rw [Database.isNoted_append_singleton_of_not_fails hfind hnot, ← h.tells]
    exact Iff.rfl
  · cases hresult : c.result with
    | error e =>
      have hfailsWith (e' : CompileError) : db.FailsWith zone w e' ↔ e' = e := by
        constructor
        · rintro ⟨c', hc', he'⟩
          obtain rfl := Except.ok.inj (hc.symm.trans hc')
          exact Except.error.inj (he'.symm.trans hresult)
        · rintro rfl
          exact ⟨c, hc, hresult⟩
      have hfails : db.Fails zone w := ((hfailsWith e).2 rfl).fails
      have hmeant : ¬ db.IsMeant seen zone := fun hmeant =>
        hcontains (hremoved.2 ⟨hfails, hmeant⟩)
      rw [addCompilation_of_error hresult, Database.isNoted_append_singleton hfind, ← h.tells,
        addFailure]
      split
      · rename_i hname
        simp [CompilerNotes.remove, CompilerNotes.addNotable, Notes.tells_add, hfailsWith,
          hfails, hmeant, hname, or_comm]
      · rename_i hname
        simp only [CompilerNotes.remove, CompilerNotes.addNotable, Notes.tells_add, hfailsWith,
          hfails, hname, exists_eq_left, ne_eq, not_false_eq_true, true_or, true_and]
        tauto
    | ok t =>
      have hnot : ¬ db.Fails zone w := fun hfails => hfails t ⟨c, hc, hresult⟩
      rw [addCompilation_of_ok hresult, Database.isNoted_append_singleton_of_not_fails hfind hnot,
        ← h.tells]
      exact Iff.rfl

end CompileProgress

theorem Database.LinksAreDirect.compileAll_notesFailures (hdb : db.LinksAreDirect)
    (hnames : ∀ name ∈ names, ∃ zone lines, db.find name = .ok (zone, lines)) :
    ∃ p, db.compileAll w .empty names = (p, none) ∧ p.NotesFailures db w names := by
  have hadd (seen : List String) (p : CompileProgress) (name : String) (hname : name ∈ names)
      (h : (∀ other ∈ seen, ∃ zone lines, db.find other = .ok (zone, lines)) ∧
        p.NotesFailures db w seen) :
      ∃ zone lines q, db.find name = .ok (zone, lines) ∧ p.add db w name zone = .ok q ∧
        (∀ other ∈ seen ++ [name], ∃ zone lines, db.find other = .ok (zone, lines)) ∧
        q.NotesFailures db w (seen ++ [name]) := by
    obtain ⟨zone, lines, hfind⟩ := hnames name hname
    obtain ⟨q, hq⟩ := CompileProgress.exists_add p name (compile_of_find (hdb.find_zone hfind) w)
    refine ⟨zone, lines, q, hfind, hq, ?_, h.2.add hdb h.1 hfind hq⟩
    simpa [or_imp, forall_and] using ⟨h.1, zone, lines, hfind⟩
  obtain ⟨q, hq, -, hnotes⟩ := CompileProgress.exists_compileEach
    (P := fun seen p => (∀ other ∈ seen, ∃ zone lines, db.find other = .ok (zone, lines)) ∧
      p.NotesFailures db w seen)
    hadd ⟨by simp, CompileProgress.notesFailures_start db w []⟩
  exact ⟨q, hq, hnotes⟩

/-! ## Texts of the reasons -/

theorem CompileError.toList_message (e : CompileError) :
    e.message.toList =
      e.zone.toList ++ (": unknown Rule \"".toList ++ e.rules.toList ++ ['"']) := by
  simp [message, FieldError.quote, toString]

theorem CompileProgress.toList_linkReason (zone : String) :
    (linkReason zone).toList = "Link to failed ".toList ++ zone.toList := by
  simp [linkReason, toString]

/-- **The error of a zone does not read as that of a link**, if the zone's name is a word: it would
be the first word of the reason, but for a colon. -/
theorem CompileError.message_ne_linkReason {e : CompileError} (h : Text.IsWord e.zone.toList)
    (zone : String) : e.message ≠ CompileProgress.linkReason zone := by
  intro heq
  have htext := congrArg (fun s => s.toList.takeWhile (fun c => !Text.isBlank c)) heq
  simp only [toList_message, CompileProgress.toList_linkReason] at htext
  have hword : ∀ c ∈ e.zone.toList, (!Text.isBlank c) = true := by
    intro c hc
    rw [h c hc]
    rfl
  rw [List.takeWhile_append_of_pos hword] at htext
  have hlast := congrArg List.getLast? htext
  simp [Text.isBlank] at hlast

/-! ## Lists in another order -/

namespace Database

theorem IsResolved.comesAgain_iff (h : db.IsResolved) (hnodup : names.Nodup) :
    db.ComesAgain names zone ↔ db.FollowsLink names zone := by
  constructor
  · rintro ⟨other, lines, hfind, hsub⟩
    have hzone := zone_of_find hfind
    cases halias : db.aliases.get? other with
    | none =>
      rw [halias, Option.getD_none] at hzone
      rw [hzone] at hsub
      exact absurd hsub (List.nodup_iff_sublist.1 hnodup other)
    | some target =>
      rw [halias, Option.getD_some] at hzone
      exact ⟨other, hsub.subset (by simp), hzone ▸ halias, hsub⟩
  · rintro ⟨link, -, halias, hsub⟩
    have hsome := h.zone link zone halias
    obtain ⟨lines, hlines⟩ := Option.isSome_iff_exists.1 hsome
    refine ⟨link, lines, ?_, hsub⟩
    simp only [find, halias, Option.getD_some, hlines]

theorem IsResolved.find_of_mem_zones (h : db.IsResolved) (hzone : zone ∈ db.zones.names) :
    ∃ lines, db.find zone = .ok (zone, lines) := by
  obtain ⟨lines, hlines⟩ := Option.isSome_iff_exists.1 ((Registry.mem_names_iff _ _).1 hzone)
  refine ⟨lines, ?_⟩
  have halias : db.aliases.get? zone = none := by
    cases halias : db.aliases.get? zone with
    | none => rfl
    | some target => cases (h.not_zone zone target halias).symm.trans hlines
  simp only [find, halias, Option.getD_none, hlines]

/-- What is noted of a name is noted for a list in another order, in which a zone that fails follows
a link as before. -/
theorem IsNoted.of_perm (h : db.IsNoted w names name reason) (hdb : db.IsResolved)
    (hnodup : names.Nodup) (hperm : names.Perm others)
    (hfollows : name ∈ names → db.Fails name w → db.FollowsLink names name →
      db.FollowsLink others name) :
    db.IsNoted w others name reason := by
  cases h with
  | error e fails meant reason_eq =>
    obtain ⟨other, hother, hfind⟩ := meant
    exact .error e fails ⟨other, hperm.mem_iff.1 hother, hfind⟩ reason_eq
  | link zone lines mem find fails again reason_eq =>
    refine .link zone lines (hperm.mem_iff.1 mem) find fails ?_ reason_eq
    by_cases hname : name = zone
    · subst hname
      have hagain := again.resolve_left (not_not.2 rfl)
      rw [hdb.comesAgain_iff hnodup] at hagain
      rw [hdb.comesAgain_iff (hperm.nodup_iff.1 hnodup)]
      exact .inr (hfollows mem fails hagain)
    · exact .inl hname

/-- **A zone is noted as a link** exactly if it fails and follows a link to it. -/
theorem IsResolved.isNoted_linkReason_iff (hdb : db.IsResolved)
    (hword : Text.IsWord zone.toList) (hzone : zone ∈ db.zones.names) (hnodup : names.Nodup) :
    (∃ other, db.IsNoted w names zone (CompileProgress.linkReason other)) ↔
      db.Fails zone w ∧ db.FollowsLink names zone := by
  obtain ⟨lines, hfind⟩ := hdb.find_of_mem_zones hzone
  rw [← hdb.comesAgain_iff hnodup]
  constructor
  · rintro ⟨other, hnoted⟩
    cases hnoted with
    | error e fails meant reason_eq =>
      rw [← fails.zone_eq] at hword
      exact absurd reason_eq.symm (CompileError.message_ne_linkReason hword other)
    | link target ls mem find fails again reason_eq =>
      obtain ⟨rfl, -⟩ := Prod.mk.inj (Except.ok.inj (hfind.symm.trans find))
      exact ⟨fails, again.resolve_left (not_not.2 rfl)⟩
  · rintro ⟨hfails, hagain⟩
    obtain ⟨other, ls, hother, hsub⟩ := hagain
    exact ⟨zone, .link zone lines (hsub.subset (by simp)) hfind hfails
      (.inr ⟨other, ls, hother, hsub⟩) rfl⟩

theorem IsResolved.mem_zones_of_followsLink (hdb : db.IsResolved)
    (h : db.FollowsLink names zone) : zone ∈ db.zones.names := by
  obtain ⟨link, -, halias, -⟩ := h
  exact (Registry.mem_names_iff _ _).2 (hdb.zone link zone halias)

/-- **When the order of names makes no difference to what is noted of failures**: if the zones that
fail and follow a link to them are the same. They are noted as links, and no other zones are. -/
theorem removed_sameAs_iff {options : Options} {sources : Registry String}
    {selected : Option (List String)} {log : Log}
    (hdb : ofSources options sources selected = (log, .ok db))
    (hnames : ∀ name ∈ names, name ∈ db.names) (hnodup : names.Nodup) (hperm : names.Perm others) :
    ∃ p q, db.compileAll w .empty names = (p, none) ∧ db.compileAll w .empty others = (q, none) ∧
      (p.notes.removed.SameAs q.notes.removed ↔ ∀ zone ∈ names, db.Fails zone w →
        (db.FollowsLink names zone ↔ db.FollowsLink others zone)) ∧
      ∀ zone ∈ db.zones.names,
        (∃ other, p.notes.removed.Tells zone (CompileProgress.linkReason other)) ↔
          db.Fails zone w ∧ db.FollowsLink names zone := by
  have hresolved := isResolved_of_ofSources hdb
  have hfound : ∀ name ∈ names, ∃ zone lines, db.find name = .ok (zone, lines) :=
    fun name hname => hresolved.exists_find (hnames name hname)
  obtain ⟨p, hp, hnotes⟩ := hresolved.linksAreDirect.compileAll_notesFailures (w := w) hfound
  obtain ⟨q, hq, hnotes'⟩ := hresolved.linksAreDirect.compileAll_notesFailures (w := w)
    (fun name hname => hfound name (hperm.mem_iff.2 hname))
  have hlink {ns : List String} {r : CompileProgress} (hr : r.NotesFailures db w ns)
      (hns : ns.Nodup) (zone : String) (hzone : zone ∈ db.zones.names) :
      (∃ other, r.notes.removed.Tells zone (CompileProgress.linkReason other)) ↔
        db.Fails zone w ∧ db.FollowsLink ns zone := by
    simp only [hr.tells]
    exact hresolved.isNoted_linkReason_iff (isWord_of_ofSources hdb hzone) hzone hns
  refine ⟨p, q, hp, hq, ⟨fun hsame zone _ hfails => ?_, fun hfollows => ?_⟩, hlink hnotes hnodup⟩
  · have htells : (∃ other, p.notes.removed.Tells zone (CompileProgress.linkReason other)) ↔
        ∃ other, q.notes.removed.Tells zone (CompileProgress.linkReason other) :=
      exists_congr fun other => hsame.tells zone _
    have hnodup' := hperm.nodup_iff.1 hnodup
    constructor
    · intro hfirst
      have hzone := hresolved.mem_zones_of_followsLink hfirst
      exact ((hlink hnotes' hnodup' zone hzone).1
        (htells.1 ((hlink hnotes hnodup zone hzone).2 ⟨hfails, hfirst⟩))).2
    · intro hsecond
      have hzone := hresolved.mem_zones_of_followsLink hsecond
      exact ((hlink hnotes hnodup zone hzone).1
        (htells.2 ((hlink hnotes' hnodup' zone hzone).2 ⟨hfails, hsecond⟩))).2
  · refine ⟨fun name => ?_, fun name reason => ?_⟩
    · simp only [Registry.mem_names_iff, hnotes.records.removed, hnotes'.records.removed,
        hperm.mem_iff]
    · rw [hnotes.tells, hnotes'.tells]
      constructor
      · intro hnoted
        exact hnoted.of_perm hresolved hnodup hperm fun hname hfails =>
          (hfollows name hname hfails).1
      · intro hnoted
        exact hnoted.of_perm hresolved (hperm.nodup_iff.1 hnodup) hperm.symm fun hname hfails =>
          (hfollows name (hperm.mem_iff.2 hname) hfails).2

/-- A zone that fails comes before both of its links, once with another zone after them. -/
theorem removed_sameAs_links :
    ∃ log db p q, ofText "Zone A 1:00 - A\nZone C 0 R X\nLink C D\nLink C E\n" = (log, .ok db) ∧
      (∀ name ∈ ["C", "D", "E", "A"], name ∈ db.names) ∧ ["C", "D", "E", "A"].Nodup ∧
      ["C", "D", "E", "A"].Perm ["A", "C", "E", "D"] ∧
      db.compileAll ⟨2000, 2001⟩ .empty ["C", "D", "E", "A"] = (p, none) ∧
      db.compileAll ⟨2000, 2001⟩ .empty ["A", "C", "E", "D"] = (q, none) ∧
      p.notes.removed.SameAs q.notes.removed := by
  obtain ⟨log, db, t, hdb, -, hcheck⟩ := exists_compiled
    "Zone A 1:00 - A\nZone C 0 R X\nLink C D\nLink C E\n" "A" ⟨2000, 2001⟩
    (fun db _ => decide (∀ name ∈ ["C", "D", "E", "A"],
        name ∈ db.zones.names ∨ name ∈ db.aliases.names) &&
      decide (∀ zone ∈ ["C", "D", "E", "A"], db.FollowsLink ["C", "D", "E", "A"] zone ↔
        db.FollowsLink ["A", "C", "E", "D"] zone)) (by decide +kernel)
  simp only [Bool.and_eq_true, decide_eq_true_eq] at hcheck
  obtain ⟨hknown, hfollows⟩ := hcheck
  have hnames : ∀ name ∈ ["C", "D", "E", "A"], name ∈ db.names :=
    fun name hname => mem_names_iff.2 (hknown name hname)
  have hnodup : ["C", "D", "E", "A"].Nodup := by decide
  have hperm : ["C", "D", "E", "A"].Perm ["A", "C", "E", "D"] := by decide
  obtain ⟨p, q, hp, hq, hsame, -⟩ :=
    removed_sameAs_iff (w := ⟨2000, 2001⟩) hdb hnames hnodup hperm
  exact ⟨log, db, p, q, hdb, hnames, hnodup, hperm, hp, hq,
    hsame.2 fun zone hzone _ => hfollows zone hzone⟩

/-- A zone that fails, after its link and before it. -/
theorem removed_linkFirst :
    ∃ log db p q, ofText "Zone Z 0 R X\nLink Z A\n" = (log, .ok db) ∧
      (∀ name ∈ ["A", "Z"], name ∈ db.names) ∧ ["A", "Z"].Nodup ∧ ["A", "Z"].Perm ["Z", "A"] ∧
      db.compileAll ⟨2000, 2001⟩ .empty ["A", "Z"] = (p, none) ∧
      db.compileAll ⟨2000, 2001⟩ .empty ["Z", "A"] = (q, none) ∧ "Z" ∈ db.zones.names ∧
      p.notes.removed.Tells "Z" (CompileProgress.linkReason "Z") ∧
      ¬ q.notes.removed.Tells "Z" (CompileProgress.linkReason "Z") ∧
      ¬ p.notes.removed.SameAs q.notes.removed := by
  obtain ⟨log, db, hdb, hcheck⟩ := exists_database "Zone Z 0 R X\nLink Z A\n"
    (fun db => decide (db.zones.names = ["Z"]) && decide (db.aliases.names = ["A"]) &&
      decide (db.compiled? "Z" ⟨2000, 2001⟩ = none) &&
      decide (db.FollowsLink ["A", "Z"] "Z") && decide (¬ db.FollowsLink ["Z", "A"] "Z"))
    (by decide +kernel)
  simp only [Bool.and_eq_true, decide_eq_true_eq] at hcheck
  obtain ⟨⟨⟨⟨hzones, hlinks⟩, hcompiled⟩, hfirst⟩, hsecond⟩ := hcheck
  have hresolved := isResolved_of_ofSources hdb
  have hnames : ∀ name ∈ ["A", "Z"], name ∈ db.names := by
    intro name hname
    rw [mem_names_iff, hzones, hlinks]
    simpa [or_comm] using hname
  have hfails : db.Fails "Z" ⟨2000, 2001⟩ := by
    intro t ht
    cases hcompiled.symm.trans (compilesTo_iff.1 ht)
  have hzone : "Z" ∈ db.zones.names := by simp [hzones]
  have hword := isWord_of_ofSources hdb hzone
  obtain ⟨lines, hfind⟩ := hresolved.find_of_mem_zones hzone
  have hfound : ∀ name ∈ ["A", "Z"], ∃ zone lines, db.find name = .ok (zone, lines) :=
    fun name hname => hresolved.exists_find (hnames name hname)
  have hfound' : ∀ name ∈ ["Z", "A"], ∃ zone lines, db.find name = .ok (zone, lines) :=
    fun name hname => hfound name (by simpa [or_comm] using hname)
  obtain ⟨p, hp, hnotes⟩ :=
    hresolved.linksAreDirect.compileAll_notesFailures (w := ⟨2000, 2001⟩) hfound
  obtain ⟨q, hq, hnotes'⟩ :=
    hresolved.linksAreDirect.compileAll_notesFailures (w := ⟨2000, 2001⟩) hfound'
  have htells : p.notes.removed.Tells "Z" (CompileProgress.linkReason "Z") :=
    (hnotes.tells _ _).2 (.link "Z" lines (by decide) hfind hfails
      (.inr ((hresolved.comesAgain_iff (by decide)).2 hfirst)) rfl)
  have hnot : ¬ q.notes.removed.Tells "Z" (CompileProgress.linkReason "Z") := fun h =>
    hsecond ((hresolved.isNoted_linkReason_iff hword hzone (by decide)).1
      ⟨"Z", (hnotes'.tells _ _).1 h⟩).2
  exact ⟨log, db, p, q, hdb, hnames, by decide, by decide, hp, hq, hzone, htells, hnot,
    fun hsame => hnot ((hsame.tells _ _).1 htells)⟩

end Database
end ZoneTables
