import ZoneTables.Proofs.Compilation.NormalForm
import ZoneTables.Proofs.Replay.Minutes
import ZoneTables.Proofs.Table.Minutes

/-!
# Compiling rounded sources

What rounded sources compile to is in whole minutes if the times of day of their rules are, and so
is its table, before and after rollbacks are mended (`CompilesTo.inWholeMinutes`).
-/

namespace ZoneTables.Database

open Replay

variable {db : Database} {name : String} {w : Window} {t : Timeline} {options : Source.Options}
  {sources : Registry String} {names : Option (List String)} {log : Log} {s : Segment}

theorem dvd_offsets_transition (hwhole : db.Holds ZoneLine.IsWhole fun r => 60 ∣ r.save)
    (hs : s ∈ db.segments name w) {c : Change} (hc : c ∈ s.changes) :
    60 ∣ (c.transition s.line).utcOffset ∧ 60 ∣ (c.transition s.line).dstOffset := by
  obtain ⟨hline, hsave⟩ := forall_changes hwhole (B := fun x => 60 ∣ x) (Int.dvd_zero 60)
    (L := fun _ => True) trivial (fun l amount hl => hl.amount amount)
    (fun r hr => ⟨hr, trivial⟩) hs
  exact ⟨Int.dvd_add hline.stdoff (hsave c hc).1, (hsave c hc).1⟩

theorem CompilesTo.isWhole_changes (h : db.CompilesTo name w t)
    (hdb : ofSources options sources names = (log, .ok db)) (hround : options.toMinutes = true)
    (hrules : db.Holds (fun _ => True) fun r => 60 ∣ r.time) :
    IsWhole ((db.segments name w).flatMap Segment.transitions) := by
  have hwhole := Source.holds_whole_of_ofSources hdb hround
  have hrule (set : String) (rules : List Rule) (hset : db.ruleSets.get? set = some rules)
      (r : Rule) (hr : r ∈ rules) : r.IsWhole :=
    ⟨hrules.ruleSets set rules hset r hr, hwhole.ruleSets set rules hset r hr⟩
  obtain ⟨zone, lines, hfind, -⟩ := h.exists_lines
  have hlines := get?_of_find hfind
  have hclosed := Source.isClosed_of_ofSources hdb hlines
  obtain ⟨line, rest, rfl⟩ := List.exists_cons_of_ne_nil hclosed.ne_nil
  obtain ⟨s, ss, hs, hsegments⟩ := h.exists_segments hfind
  obtain ⟨hfirst, hlater⟩ := dvd_of_initial hrule (hwhole.zones zone _ hlines) hclosed hs
  rw [← segments_of_find hfind, hsegments, List.tail_cons] at hlater
  have hbegins : BeginsOnce ((db.segments name w).flatMap Segment.transitions) := by
    rw [hsegments]
    exact beginsOnce_flatMap (B := fun x => 60 ∣ x) not_dvd_beginningOfTime hfirst hlater
  obtain ⟨first, changes, hchanges, hbegin, hdvd⟩ := hfirst
  have htime : ∀ v ∈ db.segments name w, ∀ c ∈ v.changes,
      c.time ≠ beginningOfTime → 60 ∣ c.time := by
    rw [hsegments]
    refine List.forall_mem_cons.2 ⟨?_, fun v hv c hc _ => hlater v hv c hc⟩
    rw [hchanges]
    exact List.forall_mem_cons.2 ⟨fun hne => absurd hbegin hne, fun c hc _ => hdvd c hc⟩
  have horigin : ∀ u ∈ (db.segments name w).flatMap Segment.transitions,
      ∃ v ∈ db.segments name w, ∃ c ∈ v.changes, c.transition v.line = u := by
    intro u hu
    obtain ⟨v, hv, huv⟩ := List.mem_flatMap.1 hu
    exact ⟨v, hv, List.mem_map.1 huv⟩
  refine ⟨fun u hu => ?_, fun u hu => ?_, fun u hu hne => ?_, hbegins⟩
  · obtain ⟨v, hv, c, hc, rfl⟩ := horigin u hu
    exact (dvd_offsets_transition hwhole hv hc).1
  · obtain ⟨v, hv, c, hc, rfl⟩ := horigin u hu
    exact (dvd_offsets_transition hwhole hv hc).2
  · obtain ⟨v, hv, c, hc, rfl⟩ := horigin u hu
    exact htime v hv c hc hne

/-- **Rounded sources with rules at whole minutes compile to whole minutes.** So does the list with
its rollbacks mended, and the tables of both have no fractions. -/
theorem CompilesTo.inWholeMinutes (h : db.CompilesTo name w t)
    (hdb : ofSources options sources names = (log, .ok db)) (hround : options.toMinutes = true)
    (hrules : db.Holds (fun _ => True) fun r => 60 ∣ r.time) :
    IsWhole t.transitions ∧ Table.LacksFractions t ∧
      ∀ warn, (warn = true → CanWarn t.transitions) → ∃ status mended messages,
        findRollbacks t.zone true warn t.transitions = .ok (status, mended, messages) ∧
          IsWhole mended ∧ Table.LacksFractions { t with transitions := mended } := by
  have hwhole : IsWhole t.transitions := by
    rw [h.transitions_eq]
    exact (h.isWhole_changes hdb hround hrules).trimYears w.minYear w.maxYear
  refine ⟨hwhole, Table.lacksFractions_of_isWhole hwhole, fun warn hwarn => ?_⟩
  rcases findRollbacks_cases t.zone true warn t.transitions with
    ⟨⟨hw, hcannot⟩, -⟩ | ⟨-, messages, hok⟩
  · exact absurd (hwarn hw) hcannot
  · exact ⟨_, _, messages, hok, hwhole.fixRollbacks,
      Table.lacksFractions_of_isWhole hwhole.fixRollbacks⟩

/-- A source with seconds in the offset of a line, in its end and in the amount of a rule. At the
end of daylight saving clocks go back from half past midnight. -/
def uneven : String :=
  "Rule R 1990 max - Apr 1 0:00u 0:59:40 D\nRule R 1990 max - Oct 1 0:30 0 S\n" ++
    "Zone Ur 3:04:31 - LMT 1900 Jan 1 0:00:29\n\t3:00 R X%sT\n"

theorem inWholeMinutes_uneven :
    ∃ log db t, ofSources ⟨true, false⟩ (.ofList [("text", uneven)]) none = (log, .ok db) ∧
      (⟨true, false⟩ : Source.Options).toMinutes = true ∧
      db.Holds (fun _ => True) (fun r => 60 ∣ r.time) ∧ db.CompilesTo "Ur" ⟨1980, 1991⟩ t ∧
      t.transitions.length = 5 ∧ IsWhole t.transitions ∧
      (∃ text, Table.encode true t = .ok text) ∧ Table.LacksFractions t ∧
      ∃ mended messages, findRollbacks t.zone true false t.transitions =
        .ok (.fixed, mended, messages) ∧ IsWhole mended := by
  obtain ⟨log, db, t, hdb, ht, hcheck⟩ :=
    exists_evaluated_of_sources ⟨true, false⟩ (.ofList [("text", uneven)]) none "Ur" ⟨1980, 1991⟩
      (fun db _ t => decide (db.Holds (fun _ => True) (fun r => 60 ∣ r.time)) &&
        decide (t.transitions.length = 5) && (Table.encode true t).toOption.isSome &&
        decide (Rollbacks.ofList true t.transitions = .fixed))
      (by decide +kernel)
  simp only [Bool.and_eq_true, decide_eq_true_eq] at hcheck
  obtain ⟨⟨⟨hrules, hlength⟩, hencoded⟩, hfixed⟩ := hcheck
  obtain ⟨text, htext⟩ := Option.isSome_iff_exists.1 hencoded
  obtain ⟨hwhole, htable, hmends⟩ := ht.inWholeMinutes hdb rfl hrules
  obtain ⟨status, mended, messages, hok, hmended, -⟩ := hmends false (by simp)
  have hstatus : status = .fixed := by
    rcases findRollbacks_cases t.zone true false t.transitions with ⟨⟨hw, -⟩, -⟩ | ⟨-, _, hcases⟩
    · cases hw
    · exact (Prod.mk.inj (Except.ok.inj (hok.symm.trans hcases))).1.trans hfixed
  exact ⟨log, db, t, hdb, rfl, hrules, ht, hlength, hwhole, ⟨text, eq_ok_of_toOption htext⟩, htable,
    mended, messages, hstatus ▸ hok, hmended⟩

end ZoneTables.Database
