import ZoneTables.Proofs.Compilation.Evaluation
import ZoneTables.Proofs.Source.Contents
import ZoneTables.Proofs.Table.Validation

/-!
# Whether compiled zones pass against their tables

Names and offsets of a compiled list come from the lines and rules of its zone, so that its table
can be read back (`Database.CompilesTo.kind_isPlain`). What is left to say is when the list that is
read back is the same (`Database.CompilesTo.validate_iff`): a list that is trimmed down to one
transition passes only if that has the standard offset of the last line, in case the latter has no
daylight saving.
-/

namespace ZoneTables

open Replay Table

/-- The format has no semicolon, and the amounts are below 26 hours. -/
structure ZoneLine.IsPlain (l : ZoneLine) : Prop where
  format : ';' ∉ l.format.toList
  stdoff : l.stdoff.natAbs < 93600
  amount : ∀ amount, l.saving = .fixed amount → amount.natAbs < 93600

/-- The letters have no semicolon, and the amount is below 26 hours. -/
structure Rule.IsPlain (r : Rule) : Prop where
  letters : ';' ∉ r.letters.toList
  save : r.save.natAbs < 93600

instance (l : ZoneLine) : Decidable l.IsPlain :=
  decidable_of_iff (';' ∉ l.format.toList ∧ l.stdoff.natAbs < 93600 ∧
      ∀ amount, l.saving = .fixed amount → amount.natAbs < 93600)
    ⟨fun h => ⟨h.1, h.2.1, h.2.2⟩, fun h => ⟨h.format, h.stdoff, h.amount⟩⟩

instance (r : Rule) : Decidable r.IsPlain :=
  decidable_of_iff (';' ∉ r.letters.toList ∧ r.save.natAbs < 93600)
    ⟨fun h => ⟨h.1, h.2⟩, fun h => ⟨h.letters, h.save⟩⟩

namespace Database

/-- All formats and letters are words. -/
abbrev HasWords (db : Database) : Prop :=
  db.Holds (fun l => Text.IsWord l.format.toList) fun r => Text.IsWord r.letters.toList

variable {db : Database} {name : String} {w : Window} {t : Timeline} {s : Segment} {c : Change}

theorem forall_changes {P : ZoneLine → Prop} {Q : Rule → Prop} (h : db.Holds P Q)
    {B : Int → Prop} {L : String → Prop} (hzero : B 0) (hunknown : L unknownLetters)
    (hline : ∀ l amount, P l → l.saving = .fixed amount → B amount)
    (hrule : ∀ r, Q r → B r.save ∧ L r.letters) (hs : s ∈ db.segments name w) :
    P s.line ∧ ∀ c ∈ s.changes, B c.save ∧ L c.letters := by
  obtain ⟨zone, lines, hzone, hmem, handover, hsegment⟩ := exists_of_mem_segments hs
  have hP := h.zones zone lines hzone s.line hmem
  refine ⟨hP, ?_⟩
  exact forall_changes_of_segment hzero hunknown (fun amount => hline s.line amount hP)
    (fun set rules hrules r hr => hrule r (h.ruleSets set rules hrules r hr)) hsegment

theorem hasWord_transition (hwords : db.HasWords) (hs : s ∈ db.segments name w)
    (hc : c ∈ s.changes) : (Kind.of (c.transition s.line)).HasWord := by
  obtain ⟨hformat, hletters⟩ := forall_changes hwords (B := fun _ => True) trivial
    (L := fun l => Text.IsWord l.toList) (by decide +kernel) (fun _ _ _ _ => trivial)
    (fun r hr => ⟨trivial, hr⟩) hs
  exact fun n hn => lacks_formatName hformat (hletters c hc).2 hn

theorem isPlain_transition (hwords : db.HasWords) (hplain : db.Holds ZoneLine.IsPlain Rule.IsPlain)
    (hs : s ∈ db.segments name w) (hc : c ∈ s.changes) :
    (Kind.of (c.transition s.line)).IsPlain := by
  obtain ⟨hline, hsemicolon⟩ := forall_changes hplain (B := fun _ => True) trivial
    (L := fun l => ';' ∉ l.toList) (by decide +kernel) (fun _ _ _ _ => trivial)
    (fun r hr => ⟨trivial, hr.letters⟩) hs
  intro n hn
  obtain ⟨hne, hword⟩ := hasWord_transition hwords hs hc n hn
  obtain ⟨-, hlacks⟩ := lacks_formatName (Text.lacks_beq.2 hline.format)
    (Text.lacks_beq.2 (hsemicolon c hc).2) hn
  exact ⟨hne, hword, Text.lacks_beq.1 hlacks⟩

theorem offsets_transition (hplain : db.Holds ZoneLine.IsPlain Rule.IsPlain)
    (hs : s ∈ db.segments name w) (hc : c ∈ s.changes) :
    (c.transition s.line).utcOffset.natAbs < 360000 ∧
      ((c.transition s.line).utcOffset - (c.transition s.line).dstOffset).natAbs < 360000 := by
  obtain ⟨hline, hsave⟩ := forall_changes hplain (B := fun x => x.natAbs < 93600) (by decide)
    (L := fun _ => True) trivial (fun l amount hl => hl.amount amount)
    (fun r hr => ⟨hr.save, trivial⟩) hs
  have hstdoff := hline.stdoff
  have hamount := (hsave c hc).1
  show (s.line.stdoff + c.save).natAbs < _ ∧ (s.line.stdoff + c.save - c.save).natAbs < _
  omega

namespace CompilesTo

variable (h : db.CompilesTo name w t)

include h

theorem namesAreWords (hwords : db.HasWords) : NamesAreWords t.transitions := by
  intro u hu
  rcases h.exists_change hu with ⟨s, hs, c, hc, rfl | rfl⟩
  · exact hasWord_transition hwords hs hc
  · exact hasWord_transition hwords hs hc

/-- **Names of compiled lists are plain**, where formats and letters have no semicolon. -/
theorem namesArePlain (hwords : db.HasWords) (hplain : db.Holds ZoneLine.IsPlain Rule.IsPlain) :
    NamesArePlain t.transitions := by
  intro u hu
  rcases h.exists_change hu with ⟨s, hs, c, hc, rfl | rfl⟩
  · exact isPlain_transition hwords hplain hs hc
  · exact isPlain_transition hwords hplain hs hc

theorem offsets_of_mem (hplain : db.Holds ZoneLine.IsPlain Rule.IsPlain) {u : Transition}
    (hu : u ∈ t.transitions) :
    u.utcOffset.natAbs < 360000 ∧ (u.utcOffset - u.dstOffset).natAbs < 360000 := by
  rcases h.exists_change hu with ⟨s, hs, c, hc, rfl | rfl⟩
  · exact offsets_transition hplain hs hc
  · exact offsets_transition hplain hs hc

theorem lastLine_isPlain (hplain : db.Holds ZoneLine.IsPlain Rule.IsPlain) {line : ZoneLine}
    (hline : t.lastLine = some line) : line.IsPlain := by
  obtain ⟨zone, lines, hfind, rfl⟩ := h.exists_lines
  exact hplain.zones zone lines (get?_of_find hfind) line (List.mem_of_getLast? hline)

/-- The standard offset beyond a compiled list: that of the last line if it has no daylight saving,
or else that of the last transition. -/
theorem stdOffset_cases (hne : t.transitions ≠ []) :
    (∃ line, t.lastLine = some line ∧ line.saving = .fixed 0 ∧
        (Nominal.ofTimeline t).stdOffset = line.stdoff) ∨
      (∀ line, t.lastLine = some line → line.saving ≠ .fixed 0) ∧
        ∃ u, t.transitions.getLast? = some u ∧
          (Nominal.ofTimeline t).stdOffset = u.utcOffset - u.dstOffset := by
  by_cases hfixed : ∃ line, t.lastLine = some line ∧ line.saving = .fixed 0
  · obtain ⟨line, hline, hsaving⟩ := hfixed
    exact Or.inl ⟨line, hline, hsaving, Nominal.stdOffset_of_fixed h.nominal_eq_none hline hsaving⟩
  · have hline : ∀ line, t.lastLine = some line → line.saving ≠ .fixed 0 :=
      fun line hline hsaving => hfixed ⟨line, hline, hsaving⟩
    have hlast := List.getLast?_eq_some_getLast hne
    exact Or.inr ⟨hline, _, hlast, Nominal.stdOffset_of_last h.nominal_eq_none hline hlast⟩

theorem headerInRange (hplain : db.Holds ZoneLine.IsPlain Rule.IsPlain) {first : Transition}
    {rest : List Transition} (hts : t.transitions = first :: rest) :
    HeaderInRange first (.ofTimeline t) := by
  refine ⟨(h.offsets_of_mem hplain (by simp [hts])).1, ?_⟩
  rcases h.stdOffset_cases (by simp [hts]) with ⟨line, hline, -, heq⟩ | ⟨-, u, hu, heq⟩
  · have := (h.lastLine_isPlain hplain hline).stdoff
    omega
  · rw [heq]
    exact (h.offsets_of_mem hplain (List.mem_of_getLast? hu)).2

/-- **When the table of a compiled zone passes**: if the list starts at the beginning of time and,
where it has one transition only and the last line of the zone has no daylight saving at all, that
line has the standard offset of the transition. -/
theorem validate_iff {options : Source.Options} {sources : Registry String}
    {names : Option (List String)} {log : Log}
    (hdb : Database.ofSources options sources names = (log, .ok db))
    (hplain : db.Holds ZoneLine.IsPlain Rule.IsPlain) {fix : Bool} {text : List Char}
    (htext : encode fix t = .ok text) :
    (validate text t).2 = .ok true ↔
      ∃ first rest, t.transitions = first :: rest ∧ first.time = beginningOfTime ∧
        (rest = [] → ∀ line, t.lastLine = some line → line.saving = .fixed 0 →
          line.stdoff = first.utcOffset - first.dstOffset) := by
  have hwords : db.HasWords := Source.holds_of_ofSources (fun _ _ => Source.Line.holds_isWord) hdb
  cases hts : t.transitions with
  | nil =>
    rw [encode, hts] at htext
    cases htext
  | cons first rest =>
    have hrange := h.headerInRange hplain hts
    by_cases hrest : rest = []
    · subst hrest
      have hstd : (Nominal.ofTimeline t).stdOffset = first.utcOffset - first.dstOffset ↔
          ∀ line, t.lastLine = some line → line.saving = .fixed 0 →
            line.stdoff = first.utcOffset - first.dstOffset := by
        have hne : t.transitions ≠ [] := by simp [hts]
        rcases h.stdOffset_cases hne with ⟨line, hline, hsaving, heq⟩ | ⟨hline, u, hu, heq⟩
        · rw [heq, hline]
          simp [hsaving]
        · rw [hts] at hu
          obtain rfl := Option.some.inj hu
          exact iff_of_true heq fun line hlast hsaving => absurd hsaving (hline line hlast)
      rw [validate_of_singleton hts hrange htext, hstd]
      simp
    · have hnames := h.namesArePlain hwords hplain
      rw [hts] at hnames
      rw [validate_of_changes hts hrest hnames hrange htext]
      simp [hrest]

end CompilesTo

/-- All lines and rules are plain, as a check. -/
def isPlain (db : Database) : Bool :=
  (db.zones.entries.all fun (_, lines) => lines.all fun l => decide l.IsPlain) &&
    db.ruleSets.entries.all fun (_, rules) => rules.all fun r => decide r.IsPlain

theorem holds_of_isPlain (h : db.isPlain = true) : db.Holds ZoneLine.IsPlain Rule.IsPlain := by
  simp only [isPlain, Bool.and_eq_true, List.all_eq_true, decide_eq_true_eq] at h
  have hmem {α : Type} {r : Registry α} {name : String} {value : α}
      (hget : r.get? name = some value) : (name, value) ∈ r.entries := by
    obtain ⟨before, after, heq, -⟩ := List.lookup_eq_some_iff.1 hget
    simp [heq]
  exact ⟨fun name lines hlines => h.1 _ (hmem hlines),
    fun name rules hrules => h.2 _ (hmem hrules)⟩

theorem validate_narvik :
    ∃ log db t text, ofText narvik = (log, .ok db) ∧
      db.Holds ZoneLine.IsPlain Rule.IsPlain ∧ db.CompilesTo "Narvik" ⟨1986, 1989⟩ t ∧
      t.transitions.length = 7 ∧ encode true t = .ok text ∧ (validate text t).2 = .ok true := by
  obtain ⟨log, db, t, hdb, ht, hcheck⟩ := exists_evaluated narvik "Narvik" ⟨1986, 1989⟩
    (fun db _ t => db.isPlain && (encode true t).toOption.isSome &&
      t.transitions.head?.any (fun first => decide (first.time = beginningOfTime)) &&
      decide (t.transitions.length = 7)) (by decide +kernel)
  simp only [Bool.and_eq_true, Option.isSome_iff_exists, Option.any_eq_true,
    decide_eq_true_eq] at hcheck
  obtain ⟨⟨⟨hplain, text, htext⟩, first, hhead, hfirst⟩, hlength⟩ := hcheck
  have hplain := holds_of_isPlain hplain
  have htext := eq_ok_of_toOption htext
  obtain ⟨rest, hts⟩ := List.head?_eq_some_iff.1 hhead
  refine ⟨log, db, t, text, hdb, hplain, ht, hlength, htext,
    (ht.validate_iff hdb hplain htext).2 ⟨first, rest, hts, hfirst, fun hnil => ?_⟩⟩
  rw [hts, hnil] at hlength
  cases hlength

/-- A zone that is trimmed down to its first line does not pass: the table tells the standard offset
of the last one. -/
theorem validate_trimmed :
    ∃ log db t text, ofText "Zone A 1:00 - A 2000\n\t2:00 - B\n" = (log, .ok db) ∧
      db.Holds ZoneLine.IsPlain Rule.IsPlain ∧ db.CompilesTo "A" ⟨1900, 1990⟩ t ∧
      encode true t = .ok text ∧ (validate text t).2 = .ok false := by
  obtain ⟨log, db, t, hdb, ht, hcheck⟩ := exists_compiled
    "Zone A 1:00 - A 2000\n\t2:00 - B\n" "A" ⟨1900, 1990⟩
    (fun db t => db.isPlain && (encode true t).toOption.any fun text =>
      decide ((validate text t).2 = .ok false)) (by decide +kernel)
  simp only [Bool.and_eq_true, Option.any_eq_true, decide_eq_true_eq] at hcheck
  obtain ⟨hplain, text, htext, hfalse⟩ := hcheck
  exact ⟨log, db, t, text, hdb, holds_of_isPlain hplain, ht, eq_ok_of_toOption htext, hfalse⟩

end Database
end ZoneTables
