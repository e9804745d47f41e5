import Mathlib.Data.List.Perm.Basic
import ZoneTables.Proofs.Compilation.Windows

/-!
# Rules in another order

The rules of a set may come in any order as long as no two of their firings for a line are at one
instant on its standard clock. Sorted by their instants the firings are then the same
(`firings_eq_of_perm`), so that each line has the same segment and hands over the same to the next
(`segment_eq_of_perm`, `replay_eq_of_perm`), and a zone compiles to the same, or fails alike
(`Database.Rearranges.compile_eq`).
-/

namespace ZoneTables

namespace Replay

variable {ruleSets ruleSets' : Registry (List Rule)} {rules rules' : List Rule} {line : ZoneLine}
  {h : Handover} {w : Window}

/-- No two firings of the rules for a line are at one instant on its standard clock. -/
def FireApart (rules : List Rule) (line : ZoneLine) (h : Handover) (w : Window) : Prop :=
  ((candidates rules line h w).map Firing.time).Nodup

instance (rules : List Rule) (line : ZoneLine) (h : Handover) (w : Window) :
    Decidable (FireApart rules line h w) :=
  inferInstanceAs (Decidable ((candidates rules line h w).map Firing.time).Nodup)

/-- The rules of a line, if it has any, fire apart. -/
def RulesFireApart (ruleSets : Registry (List Rule)) (w : Window) (h : Handover)
    (line : ZoneLine) : Prop :=
  ∀ set rules, line.saving = .ruled set → ruleSets.get? set = some rules →
    FireApart rules line h w

instance (ruleSets : Registry (List Rule)) (w : Window) (h : Handover) (line : ZoneLine) :
    Decidable (RulesFireApart ruleSets w h line) :=
  match hsaving : line.saving with
  | .fixed _ => isTrue fun set _ hset => by cases hsaving.symm.trans hset
  | .ruled set =>
    match hrules : ruleSets.get? set with
    | none => isTrue fun other _ hother => by
        obtain rfl := Saving.ruled.inj (hsaving.symm.trans hother)
        simp [hrules]
    | some rules => decidable_of_iff (FireApart rules line h w) <| by
        constructor
        · intro hapart other found hother hfound
          obtain rfl := Saving.ruled.inj (hsaving.symm.trans hother)
          obtain rfl := Option.some.inj (hrules.symm.trans hfound)
          exact hapart
        · exact fun hapart => hapart set rules hsaving hrules

/-- Both have rules under the same names, in whatever order. -/
def Rearranges (ruleSets ruleSets' : Registry (List Rule)) : Prop :=
  ∀ set, Option.Rel List.Perm (ruleSets.get? set) (ruleSets'.get? set)

/-- The rules under one name in another order. -/
def IsReordered (e e' : String × List Rule) : Prop := e.1 = e'.1 ∧ e.2.Perm e'.2

instance : DecidableRel IsReordered := fun e e' =>
  inferInstanceAs (Decidable (e.1 = e'.1 ∧ e.2.Perm e'.2))

theorem rel_lookup {es es' : List (String × List Rule)} (h : List.Forall₂ IsReordered es es')
    (set : String) : Option.Rel List.Perm (es.lookup set) (es'.lookup set) := by
  induction h with
  | nil => exact .none
  | @cons e e' _ _ hhead _ ih =>
    obtain ⟨name, rules⟩ := e
    obtain ⟨name', rules'⟩ := e'
    obtain ⟨rfl, hperm⟩ := hhead
    rw [Registry.lookup_cons, Registry.lookup_cons]
    split
    · exact .some hperm
    · exact ih

/-! ## One line -/

theorem candidates_perm (hperm : rules.Perm rules') :
    (candidates rules line h w).Perm (candidates rules' line h w) :=
  hperm.flatMap fun _ _ => .refl _

/-- **Rules that fire apart have the same firings in whatever order they come.** -/
theorem firings_eq_of_perm (hperm : rules.Perm rules') (hapart : FireApart rules line h w) :
    firings rules' line h w = firings rules line h w := by
  have hsame : (sortedCandidates rules line h w).Perm (candidates rules line h w) :=
    List.mergeSort_perm _ _
  have hsorted : (sortedCandidates rules' line h w).Perm (sortedCandidates rules line h w) :=
    (List.mergeSort_perm _ _).trans ((candidates_perm hperm).symm.trans hsame.symm)
  refine congrArg chain (hsorted.eq_of_pairwise ?_ pairwise_sortedCandidates
    pairwise_sortedCandidates)
  -- Two firings of which neither is later are at one instant, and so are the same.
  intro f g hf hg hfg hgf
  have hf := hsame.subset (hsorted.subset hf)
  have hg := hsame.subset hg
  exact List.inj_on_of_nodup_map hapart hf hg (Int.le_antisymm hfg hgf)

theorem segment_eq_of_perm (hsets : Rearranges ruleSets ruleSets')
    (hapart : RulesFireApart ruleSets w h line) :
    segment ruleSets' w h line = segment ruleSets w h line := by
  cases hsaving : line.saving with
  | fixed amount => simp only [segment, hsaving]
  | ruled set =>
    have hset := hsets set
    simp only [segment, hsaving]
    generalize hrules : ruleSets.get? set = found at hset ⊢
    generalize ruleSets'.get? set = found' at hset ⊢
    cases hset with
    | none => rfl
    | some hperm =>
      simp only [ruledSegment, ruledChanges, firings_eq_of_perm hperm (hapart set _ hsaving hrules)]

/-! ## All lines -/

/-- **A replay is the same where the rules of each of its lines fire apart.** -/
theorem replay_eq_of_perm {lines : List ZoneLine} (hsets : Rearranges ruleSets ruleSets')
    (hapart : ∀ k s, (replay ruleSets w h lines).segments[k]? = some s →
      RulesFireApart ruleSets w
        (handoverAfter h ((replay ruleSets w h lines).segments.take k)) s.line) :
    replay ruleSets' w h lines = replay ruleSets w h lines := by
  induction lines generalizing h with
  | nil => rfl
  | cons line rest ih =>
    cases hs : segment ruleSets w h line with
    | error name =>
      -- The line has no rules, so that there are none that could fire together.
      have hnone : RulesFireApart ruleSets w h line := by
        intro set rules hsaving hrules
        simp only [segment, hsaving, hrules] at hs
        cases hs
      simp only [replay, segment_eq_of_perm hsets hnone, hs]
    | ok s =>
      rw [segments_replay_cons hs] at hapart
      have hhead : RulesFireApart ruleSets w h line := by
        have := hapart 0 s rfl
        rw [line_of_segment hs] at this
        exact this
      simp only [replay, segment_eq_of_perm hsets hhead, hs]
      split
      · rfl
      · rename_i hbeyond
        rw [if_neg hbeyond] at hapart
        rw [ih]
        intro k u hu
        have := hapart (k + 1) u hu
        rw [List.take_succ_cons, handoverAfter_cons] at this
        exact this

end Replay

namespace Database

open Replay

variable {db db' : Database} {name : String} {w : Window}

/-- A database has the zones and links of another, and in each of its sets of rules those of the
other, in whatever order. -/
structure Rearranges (db db' : Database) : Prop where
  zones : db'.zones = db.zones
  aliases : db'.aliases = db.aliases
  ruleSets : Replay.Rearranges db.ruleSets db'.ruleSets

/-- For each line of the zone under rules, as the replay comes to it, no two firings of its rules
are at one instant on its standard clock. -/
def FiresApart (db : Database) (name : String) (w : Window) : Prop :=
  ∀ k s, (db.segments name w)[k]? = some s →
    RulesFireApart db.ruleSets w (db.handoverTo name w k) s.line

/-- **Rules are unordered.** A zone compiles to the same with its rules in any order, or fails with
the same error, unless two of the firings for one of its lines are at one instant. -/
theorem Rearranges.compile_eq (h : db.Rearranges db') (hapart : db.FiresApart name w) :
    db'.compile name w = db.compile name w := by
  have hfind' : db'.find name = db.find name := by rw [find, find, h.zones, h.aliases]
  cases hfind : db.find name with
  | error e =>
    rw [compile, compile, hfind', hfind]
    rfl
  | ok found =>
    obtain ⟨zone, lines⟩ := found
    have hreplay : replay db'.ruleSets w .initial lines = replay db.ruleSets w .initial lines := by
      apply replay_eq_of_perm h.ruleSets
      intro k s hs
      have := hapart k s
      rw [handoverTo, segments_of_find hfind] at this
      exact this hs
    rw [compile_of_find hfind, compile_of_find (hfind'.trans hfind)]
    simp only [compileLines, hreplay]

/-- A zone of two lines with the rules of summer time in one order. -/
def springFirst : String :=
  "Rule R 1990 max - Apr 1 1:00u 1:00 S\nRule R 1990 max - Oct 1 1:00u 0 -\n" ++
    "Zone Z 1:00 R CE%sT 2001 Feb\n\t2:00 R EE%sT\n"

/-- The same zone with the rules in the other order. -/
def autumnFirst : String :=
  "Rule R 1990 max - Oct 1 1:00u 0 -\nRule R 1990 max - Apr 1 1:00u 1:00 S\n" ++
    "Zone Z 1:00 R CE%sT 2001 Feb\n\t2:00 R EE%sT\n"

theorem compile_autumnFirst :
    ∃ log log' db db' t, ofText springFirst = (log, .ok db) ∧
      ofText autumnFirst = (log', .ok db') ∧ db.ruleSets.get? "R" ≠ db'.ruleSets.get? "R" ∧
      db.Rearranges db' ∧ db.FiresApart "Z" ⟨2000, 2001⟩ ∧
      db.CompilesTo "Z" ⟨2000, 2001⟩ t ∧ t.transitions.length = 6 ∧
      db'.compile "Z" ⟨2000, 2001⟩ = db.compile "Z" ⟨2000, 2001⟩ := by
  obtain ⟨log, db, t, hdb, ht, hcheck⟩ := exists_evaluated springFirst "Z" ⟨2000, 2001⟩
    (fun db ss t => decide (t.transitions.length = 6) &&
      decide (∀ k < ss.length, ∀ s ∈ ss[k]?,
        RulesFireApart db.ruleSets ⟨2000, 2001⟩ (handoverAfter .initial (ss.take k)) s.line) &&
      (ofText autumnFirst).2.toOption.any fun (db' : Database) =>
        decide (db.ruleSets.get? "R" ≠ db'.ruleSets.get? "R") &&
        decide (db'.zones.entries = db.zones.entries) &&
        decide (db'.aliases.entries = db.aliases.entries) &&
        decide (List.Forall₂ IsReordered db.ruleSets.entries db'.ruleSets.entries))
    (by decide +kernel)
  simp only [Bool.and_eq_true, decide_eq_true_eq, Option.any_eq_true] at hcheck
  obtain ⟨⟨hlength, hchecked⟩, db', hdb', ⟨⟨hdiffer, hzones⟩, haliases⟩, hrules⟩ := hcheck
  have hrearranges : db.Rearranges db' :=
    ⟨Registry.eq_of_entries hzones, Registry.eq_of_entries haliases, rel_lookup hrules⟩
  have hapart : db.FiresApart "Z" ⟨2000, 2001⟩ := fun k s hs =>
    hchecked k (List.getElem?_eq_some_iff.1 hs).1 s hs
  obtain ⟨log', hdb'⟩ := exists_of_toOption hdb'
  exact ⟨log, log', db, db', t, hdb, hdb', hdiffer, hrearranges, hapart, ht, hlength,
    hrearranges.compile_eq hapart⟩

end Database
end ZoneTables
