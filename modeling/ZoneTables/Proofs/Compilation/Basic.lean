import ZoneTables.Compilation
import ZoneTables.Proofs.Replay.Basic
import ZoneTables.Proofs.Timeline.Basic

/-!
# What compiling a zone results in

`Database.CompilesTo`: the timeline of a zone over a range of years. It is the changes of the
zone's segments (`Database.segments`), less duplicates, trimmed to the years
(`Database.CompilesTo.transitions_eq`).
-/

namespace ZoneTables

open Replay

namespace Database

/-- The segments of the zone that a name means; none for an unknown name. -/
def segments (db : Database) (name : String) (w : Window) : List Segment :=
  match db.find name with
  | .ok (_, lines) => (replay db.ruleSets w .initial lines).segments
  | .error _ => []

/-- The zone that a name means compiles to a timeline. -/
def CompilesTo (db : Database) (name : String) (w : Window) (t : Timeline) : Prop :=
  ∃ c, db.compile name w = .ok c ∧ c.result = .ok t

variable {db : Database} {name : String} {w : Window} {t : Timeline}

theorem get?_of_find {zone : String} {lines : List ZoneLine}
    (h : db.find name = .ok (zone, lines)) : db.zones.get? zone = some lines := by
  rw [find] at h
  split at h
  · rename_i ls hls
    obtain ⟨rfl, rfl⟩ := Prod.mk.inj (Except.ok.inj h)
    exact hls
  · cases h

theorem compile_of_find {zone : String} {lines : List ZoneLine}
    (hfind : db.find name = .ok (zone, lines)) (w : Window) :
    db.compile name w = .ok (compileLines db name zone lines w) := by
  rw [compile, hfind]
  rfl

theorem compilesTo_of_find {zone : String} {lines : List ZoneLine}
    (hfind : db.find name = .ok (zone, lines)) :
    db.CompilesTo name w t ↔ (compileLines db name zone lines w).result = .ok t := by
  rw [CompilesTo, compile_of_find hfind]
  constructor
  · rintro ⟨c, hc, ht⟩
    cases hc
    exact ht
  · intro ht
    exact ⟨_, rfl, ht⟩

theorem CompilesTo.exists_lines (h : db.CompilesTo name w t) :
    ∃ zone lines, db.find name = .ok (zone, lines) ∧
      t = timelineOf name zone lines w ((db.segments name w).flatMap Segment.transitions) := by
  cases hfind : db.find name with
  | error e =>
    obtain ⟨c, hc, -⟩ := h
    rw [compile, hfind] at hc
    cases hc
  | ok found =>
    obtain ⟨zone, lines⟩ := found
    have ht := (compilesTo_of_find hfind).1 h
    refine ⟨zone, lines, rfl, ?_⟩
    simp only [compileLines] at ht
    split at ht
    · cases ht
    · rw [← Except.ok.inj ht, segments, hfind]
      rfl

theorem CompilesTo.nominal_eq_none (h : db.CompilesTo name w t) : t.nominal = none := by
  obtain ⟨zone, lines, -, rfl⟩ := h.exists_lines
  rfl

/-- **A compiled list is the changes of the segments**, less duplicates, within the years. -/
theorem CompilesTo.transitions_eq (h : db.CompilesTo name w t) :
    t.transitions = trimYears (some w.minYear) w.maxYear
      (removeDuplicates ((db.segments name w).flatMap Segment.transitions)) := by
  obtain ⟨zone, lines, -, ht⟩ := h.exists_lines
  rw [ht]
  rfl

/-- A transition of a compiled list is a change of a segment, or there at another time. -/
theorem CompilesTo.exists_change (h : db.CompilesTo name w t) {u : Transition}
    (hu : u ∈ t.transitions) :
    ∃ s ∈ db.segments name w, ∃ c ∈ s.changes, u = c.transition s.line ∨
      u = { c.transition s.line with time := beginningOfTime } := by
  rw [h.transitions_eq] at hu
  obtain ⟨v, hv, huv⟩ := exists_of_mem_trimYears hu
  obtain ⟨s, hs, hvs⟩ := List.mem_flatMap.1 ((removeDuplicates_sublist _).subset hv)
  obtain ⟨c, hc, rfl⟩ := List.mem_map.1 hvs
  exact ⟨s, hs, c, hc, huv⟩

/-- The timeline that a name compiles to, if it does. -/
def compiled? (db : Database) (name : String) (w : Window) : Option Timeline :=
  (db.compile name w).toOption.bind (·.result.toOption)

theorem eq_ok_of_toOption {ε α : Type} {x : Except ε α} {a : α} (h : x.toOption = some a) :
    x = .ok a := by
  cases x with
  | error e => cases h
  | ok b => exact congrArg Except.ok (Option.some.inj h)

theorem exists_of_toOption {ε α : Type} {x : Log × Except ε α} {a : α}
    (h : x.2.toOption = some a) : ∃ log, x = (log, .ok a) :=
  ⟨x.1, Prod.ext rfl (eq_ok_of_toOption h)⟩

theorem compilesTo_iff : db.CompilesTo name w t ↔ db.compiled? name w = some t := by
  unfold compiled?
  rw [Option.bind_eq_some_iff]
  constructor
  · rintro ⟨c, hc, ht⟩
    exact ⟨c, by rw [hc]; rfl, by rw [ht]; rfl⟩
  · rintro ⟨c, hc, ht⟩
    exact ⟨c, eq_ok_of_toOption hc, eq_ok_of_toOption ht⟩

theorem CompilesTo.unique {u : Timeline} (ht : db.CompilesTo name w t)
    (hu : db.CompilesTo name w u) : t = u :=
  Option.some.inj ((compilesTo_iff.1 ht).symm.trans (compilesTo_iff.1 hu))

/-- The database of one text. -/
def ofText (text : String) : Log × Except Source.Error Database :=
  ofSources ⟨false, false⟩ (.ofList [("text", text)]) none

/-- A zone that goes from local mean time to standard time. -/
def oslo : String := "Zone Oslo 0:43 - LMT 1895\n\t1:00 - CET\n"

theorem exists_database (text : String) (check : Database → Bool)
    (h : (ofText text).2.toOption.any check = true) :
    ∃ log db, ofText text = (log, .ok db) ∧ check db = true := by
  obtain ⟨db, hdb, hcheck⟩ := (Option.any_eq_true ..).1 h
  obtain ⟨log, hlog⟩ := exists_of_toOption hdb
  exact ⟨log, db, hlog, hcheck⟩

/-- A zone of a text compiles to a timeline that passes a check, if running both says so. -/
theorem exists_compiled (text name : String) (w : Window) (check : Database → Timeline → Bool)
    (h : ((ofText text).2.toOption.any fun db => (db.compiled? name w).any (check db)) = true) :
    ∃ log db t, ofText text = (log, .ok db) ∧ db.CompilesTo name w t ∧ check db t = true := by
  obtain ⟨log, db, hdb, hcompiled⟩ := exists_database text _ h
  obtain ⟨t, ht, hcheck⟩ := (Option.any_eq_true ..).1 hcompiled
  exact ⟨log, db, t, hdb, compilesTo_iff.2 ht, hcheck⟩

/-! ## Segments of a database -/

variable {s : Segment}

theorem segments_of_find {zone : String} {lines : List ZoneLine}
    (hfind : db.find name = .ok (zone, lines)) :
    db.segments name w = (replay db.ruleSets w .initial lines).segments := by
  rw [segments, hfind]

theorem line_mem_of_find {zone : String} {lines : List ZoneLine}
    (hfind : db.find name = .ok (zone, lines)) (hs : s ∈ db.segments name w) :
    s.line ∈ lines ∧ ∃ h, segment db.ruleSets w h s.line = .ok s := by
  have hsegment : ∀ line ∈ lines, ∀ h u, segment db.ruleSets w h line = .ok u →
      u.line ∈ lines ∧ ∃ h, segment db.ruleSets w h u.line = .ok u := by
    intro line hline h u hu
    rw [line_of_segment hu]
    exact ⟨hline, h, hu⟩
  rw [segments_of_find hfind] at hs
  exact forall_segments hsegment .initial s hs

theorem exists_of_mem_segments (hs : s ∈ db.segments name w) :
    ∃ zone lines, db.zones.get? zone = some lines ∧ s.line ∈ lines ∧
      ∃ h, segment db.ruleSets w h s.line = .ok s := by
  cases hfind : db.find name with
  | error e =>
    rw [segments, hfind] at hs
    cases hs
  | ok found => exact ⟨found.1, found.2, get?_of_find hfind, line_mem_of_find hfind hs⟩

/-- **A transition that a rule gave rise to** comes from a line under a set of rules, and has the
amount of that rule of the set. -/
theorem CompilesTo.exists_rules (h : db.CompilesTo name w t) {u : Transition} {r : Rule}
    (hu : u ∈ t.transitions) (hr : u.rule = some r) :
    ∃ set rules, db.ruleSets.get? set = some rules ∧ r ∈ rules ∧ u.dstOffset = r.save := by
  obtain ⟨s, hs, c, hc, hcu⟩ := h.exists_change hu
  have hrule : c.rule = some r := by
    rcases hcu with rfl | rfl
    · exact hr
    · exact hr
  have hsave : u.dstOffset = c.save := by
    rcases hcu with rfl | rfl
    · rfl
    · rfl
  obtain ⟨zone, lines, -, -, handover, hsegment⟩ := exists_of_mem_segments hs
  rcases segment_cases hsegment with ⟨amount, -, heq⟩ | ⟨set, rules, -, hrules, heq⟩
  · rw [heq] at hc
    rw [List.mem_singleton.1 hc] at hrule
    cases hrule
  · rw [heq] at hc
    obtain ⟨hmem, heq⟩ := rule_of_mem_ruledChanges hc hrule
    exact ⟨set, rules, hrules, hmem, hsave.trans heq⟩

theorem isSound_of_mem_segments (hs : s ∈ db.segments name w) : s.IsSound := by
  obtain ⟨zone, lines, -, -, h, hsegment⟩ := exists_of_mem_segments hs
  exact isSound_of_segment hsegment

theorem isChain_segments : (db.segments name w).IsChain fun s u => u.start = s.ending := by
  unfold segments
  split
  · exact Replay.isChain_segments _ _
  · exact .nil

theorem start_of_head?_segments (db : Database) (name : String) (w : Window) :
    ∀ s ∈ (db.segments name w).head?, s.start = beginningOfTime := by
  unfold segments
  split
  · exact start_of_head? _ _
  · simp

theorem beginningOfTime_le_start (hstarts : StartsIncrease (db.segments name w))
    (hs : s ∈ db.segments name w) : beginningOfTime ≤ s.start := by
  have hhead := start_of_head?_segments db name w
  cases hss : db.segments name w with
  | nil => simp [hss] at hs
  | cons v vs =>
    rw [hss] at hs hhead hstarts
    have hv : v.start = beginningOfTime := hhead v rfl
    rcases List.mem_cons.1 hs with rfl | hs
    · exact Int.le_of_eq hv.symm
    · have := (List.pairwise_cons.1 hstarts).1 s hs
      omega

end Database
end ZoneTables
