import ZoneTables.Proofs.Compilation.Evaluation
import ZoneTables.Proofs.Source.Acceptance
import ZoneTables.Proofs.Table.Tail

/-!
# Whether the tail of a table is that of the last line

The rules in the tail of a table are those of the set from which the last transition of the list
comes (`Database.CompilesTo.rules?_eq_some`). That need not be the set of the zone's last line, all
of whose transitions may have been dropped. The tail tells of the last line
(`Database.TailIsOfLastLine`) exactly if there is none, or the last line goes by that set
(`Database.CompilesTo.tailIsOfLastLine_iff`).
-/

namespace ZoneTables.Database

open Replay Source Table

variable {db : Database} {name : String} {w : Window} {t : Timeline} {std dst : Rule} {log : Log}

/-- The rules of a zone's last line; none if that has no rules. -/
def lastRules? (db : Database) (t : Timeline) : Option (List Rule) :=
  t.lastLine.bind fun line =>
    match line.saving with
    | .fixed _ => none
    | .ruled set => db.ruleSets.get? set

/-- What the tail of a table tells holds of the zone's last line: both rules are of its set of
rules, and there is no tail unless a rule of that set brings daylight saving for ever. -/
structure TailIsOfLastLine (db : Database) (t : Timeline) : Prop where
  mem : ∀ std dst, (Nominal.ofTimeline t).rules? = some (std, dst) →
    ∃ rules, db.lastRules? t = some rules ∧ std ∈ rules ∧ dst ∈ rules
  none : (∀ rules, db.lastRules? t = some rules →
      ∀ r ∈ rules, r.isOpenEnded = true → r.save = 0) →
    ∀ fix, tailSection fix (Nominal.ofTimeline t) = []

theorem tailIsOfLastLine_of_rules?_eq_none (hnone : (Nominal.ofTimeline t).rules? = none) :
    db.TailIsOfLastLine t := by
  refine ⟨fun std dst hrules => ?_, fun _ fix => (tailSection_eq_nil_iff fix _).2 hnone⟩
  rw [hnone] at hrules
  cases hrules

namespace CompilesTo

variable (h : db.CompilesTo name w t)

include h

/-- **The rules in the tail** have no end and are of one set, that of the rule of the last
transition. One is for standard time, the other for daylight saving. -/
theorem rules?_eq_some {options : Options} {sources : Registry String}
    {selected : Option (List String)}
    (hdb : ofSources options sources selected = (log, .ok db))
    (hrules : (Nominal.ofTimeline t).rules? = some (std, dst)) :
    ∃ last r rules, t.transitions.getLast? = some last ∧ last.rule = some r ∧
      db.ruleSets.get? r.name = some rules ∧ std ∈ rules ∧ dst ∈ rules ∧
      std.isOpenEnded = true ∧ dst.isOpenEnded = true ∧ std.save = 0 ∧ dst.save ≠ 0 := by
  obtain ⟨last, r, hlast, hr, ⟨hstdName, hstdOpen, v, hv, hvrule, hvsave⟩, hdstName, hdstOpen,
    u, hu, hurule, husave⟩ := Nominal.rules?_eq_some h.nominal_eq_none hrules
  obtain ⟨set, rules, hset, hstd, hsave⟩ := h.exists_rules hv hvrule
  obtain ⟨set', rules', hset', hdst, hsave'⟩ := h.exists_rules hu hurule
  have hname := name_of_mem_ruleSets hdb hset hstd
  have hname' := name_of_mem_ruleSets hdb hset' hdst
  rw [← hname, hstdName] at hset
  rw [← hname', hdstName] at hset'
  obtain rfl := Option.some.inj (hset.symm.trans hset')
  exact ⟨last, r, rules, hlast, hr, hset, hstd, hdst, hstdOpen, hdstOpen, hsave ▸ hvsave,
    hsave' ▸ husave⟩

theorem tailIsOfLastLine_of_saving {options : Options} {sources : Registry String}
    {selected : Option (List String)}
    (hdb : ofSources options sources selected = (log, .ok db)) {last : Transition} {r : Rule}
    {line : ZoneLine} (hlast : t.transitions.getLast? = some last) (hr : last.rule = some r)
    (hline : t.lastLine = some line) (hsaving : line.saving = .ruled r.name) :
    db.TailIsOfLastLine t := by
  have hmem : ∀ std dst, (Nominal.ofTimeline t).rules? = some (std, dst) →
      ∃ rules, db.lastRules? t = some rules ∧ std ∈ rules ∧ dst ∈ rules ∧
        dst.isOpenEnded = true ∧ dst.save ≠ 0 := by
    intro std dst hrules
    obtain ⟨last', r', rules, hlast', hr', hset, hstd, hdst, -, hopen, -, hsave⟩ :=
      h.rules?_eq_some hdb hrules
    obtain rfl := Option.some.inj (hlast.symm.trans hlast')
    obtain rfl := Option.some.inj (hr.symm.trans hr')
    refine ⟨rules, ?_, hstd, hdst, hopen, hsave⟩
    simp only [lastRules?, hline, Option.bind_some, hsaving, hset]
  refine ⟨fun std dst hrules => ?_, fun hstandard fix => ?_⟩
  · obtain ⟨rules, hlast, hstd, hdst, -⟩ := hmem std dst hrules
    exact ⟨rules, hlast, hstd, hdst⟩
  · rw [tailSection_eq_nil_iff]
    by_contra hsome
    obtain ⟨⟨std, dst⟩, hrules⟩ := Option.ne_none_iff_exists'.1 hsome
    obtain ⟨rules, hlast, -, hdst, hopen, hsave⟩ := hmem std dst hrules
    exact hsave (hstandard rules hlast dst hdst hopen)

/-- **When the tail of a table is that of the last line**: exactly if there is none, or the last
transition comes from a rule of the set by which the last line goes. -/
theorem tailIsOfLastLine_iff {options : Options} {sources : Registry String}
    {selected : Option (List String)}
    (hdb : ofSources options sources selected = (log, .ok db)) :
    db.TailIsOfLastLine t ↔ (Nominal.ofTimeline t).rules? = none ∨
      ∃ last r line, t.transitions.getLast? = some last ∧ last.rule = some r ∧
        t.lastLine = some line ∧ line.saving = .ruled r.name := by
  constructor
  · intro htail
    cases hrules : (Nominal.ofTimeline t).rules? with
    | none => exact .inl rfl
    | some pair =>
      obtain ⟨std, dst⟩ := pair
      right
      obtain ⟨last, r, rules, hlast, hr, hset, hstd, -⟩ := h.rules?_eq_some hdb hrules
      obtain ⟨rules', hlastRules, hstd', -⟩ := htail.mem std dst hrules
      obtain ⟨line, hline, hsaving⟩ := Option.bind_eq_some_iff.1 hlastRules
      split at hsaving
      · cases hsaving
      · rename_i set heq
        refine ⟨last, r, line, hlast, hr, hline, ?_⟩
        rw [heq, ← name_of_mem_ruleSets hdb hsaving hstd', name_of_mem_ruleSets hdb hset hstd]
  · rintro (hnone | ⟨last, r, line, hlast, hr, hline, hsaving⟩)
    · exact tailIsOfLastLine_of_rules?_eq_none hnone
    · exact h.tailIsOfLastLine_of_saving hdb hlast hr hline hsaving

theorem tailIsOfLastLine_of_change {options : Options} {sources : Registry String}
    {selected : Option (List String)}
    (hdb : ofSources options sources selected = (log, .ok db)) {s : Segment} {c : Change}
    {last : Transition} (hs : s ∈ db.segments name w) (hline : t.lastLine = some s.line)
    (hc : c ∈ s.changes) (hlast : t.transitions.getLast? = some last) (hrule : last.rule = c.rule) :
    db.TailIsOfLastLine t := by
  cases hrules : (Nominal.ofTimeline t).rules? with
  | none => exact tailIsOfLastLine_of_rules?_eq_none hrules
  | some pair =>
    obtain ⟨last', r, -, hlast', hr, -⟩ := h.rules?_eq_some hdb hrules
    obtain rfl := Option.some.inj (hlast.symm.trans hlast')
    obtain ⟨zone, lines, -, -, handover, hsegment⟩ := exists_of_mem_segments hs
    refine h.tailIsOfLastLine_of_saving hdb hlast hr hline ?_
    rw [hr] at hrule
    rcases segment_cases hsegment with ⟨amount, -, heq⟩ | ⟨set, rules, hsaving, hset, heq⟩
    · rw [heq] at hc
      rw [List.mem_singleton.1 hc] at hrule
      cases hrule
    · rw [heq] at hc
      have hmem := (rule_of_mem_ruledChanges hc hrule.symm).1
      rw [hsaving, name_of_mem_ruleSets hdb hset hmem]

end CompilesTo

/-- A zone that goes by its rules for ever. -/
def stockholm : String :=
  "Rule R 1990 max - Apr 1 0:00u 1:00 D\nRule R 1990 max - Oct 1 0:00u 0 S\n" ++
    "Zone Stockholm 0 R X%sT\n"

theorem tailIsOfLastLine_stockholm :
    ∃ log db t, ofText stockholm = (log, .ok db) ∧ db.CompilesTo "Stockholm" ⟨2000, 2010⟩ t ∧
      (Nominal.ofTimeline t).rules? ≠ none ∧ db.TailIsOfLastLine t := by
  obtain ⟨log, db, t, hdb, ht, hcheck⟩ := exists_evaluated stockholm "Stockholm" ⟨2000, 2010⟩
    (fun _ _ t => decide ((Nominal.ofTimeline t).rules? ≠ none) &&
      decide ((t.transitions.getLast?.bind (·.rule)).map (·.name) = some "R") &&
      decide (t.lastLine.map (·.saving) = some (.ruled "R"))) (by decide +kernel)
  simp only [Bool.and_eq_true, decide_eq_true_eq, Option.map_eq_some_iff,
    Option.bind_eq_some_iff] at hcheck
  obtain ⟨⟨hsome, r, ⟨last, hlast, hr⟩, hname⟩, line, hline, hsaving⟩ := hcheck
  refine ⟨log, db, t, hdb, ht, hsome, (ht.tailIsOfLastLine_iff hdb).2 (.inr ?_)⟩
  exact ⟨last, r, line, hlast, hr, hline, by rw [hsaving, hname]⟩

/-- A zone that has left its rules for others, whose only change repeats the one before it. -/
theorem tail_of_earlierLine :
    ∃ log db t, ofText ("Rule R 1990 max - Apr 1 0:00u 1:00 D\n" ++
        "Rule R 1990 max - Oct 1 0:00u 0 S\nRule Q 1980 only - Jan 1 0:00u 0 S\n" ++
        "Zone Z 0 R X%sT 2005\n\t0 Q X%sT\n") = (log, .ok db) ∧
      db.CompilesTo "Z" ⟨2000, 2010⟩ t ∧
      (db.segments "Z" ⟨2000, 2010⟩).getLast?.map (·.line) = t.lastLine ∧
      ¬ db.TailIsOfLastLine t := by
  obtain ⟨log, db, t, hdb, ht, hcheck⟩ := exists_evaluated
    ("Rule R 1990 max - Apr 1 0:00u 1:00 D\n" ++
      "Rule R 1990 max - Oct 1 0:00u 0 S\nRule Q 1980 only - Jan 1 0:00u 0 S\n" ++
      "Zone Z 0 R X%sT 2005\n\t0 Q X%sT\n") "Z" ⟨2000, 2010⟩
    (fun db ss t => decide (ss.getLast?.map (·.line) = t.lastLine) &&
      decide (((Nominal.ofTimeline t).rules?.map fun rules => rules.1.name) = some "R") &&
      (db.lastRules? t).any fun rules => rules.all (·.name != "R")) (by decide +kernel)
  simp only [Bool.and_eq_true, decide_eq_true_eq, Option.map_eq_some_iff, Option.any_eq_true,
    List.all_eq_true, bne_iff_ne] at hcheck
  obtain ⟨⟨hlast, ⟨std, dst⟩, hrules, hname⟩, rules, hset, hnames⟩ := hcheck
  refine ⟨log, db, t, hdb, ht, hlast, fun htail => ?_⟩
  obtain ⟨rules', hset', hstd, -⟩ := htail.mem std dst hrules
  obtain rfl := Option.some.inj (hset.symm.trans hset')
  exact hnames std hstd hname

end ZoneTables.Database
