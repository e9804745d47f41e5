import ZoneTables.Output.Render
import ZoneTables.Proofs.Batch.Accounting
import ZoneTables.Proofs.Compilation.Validation
import ZoneTables.Proofs.Table.Equality

/-!
# The listings of a batch

The catalogue of a batch lists a name that shares a table by the timeline of the name that it shares
the table with. Every name keeps a timeline whose table is the one that it is said to have
(`Result.SharesTables`, carried along the names by `SharesTables.addEach`), so that both timelines
have the same table. What the listing of the one tells of the other is then a question about tables:
`process_listing_iff`.
-/

namespace ZoneTables

open Table

/-! ## Listings of a catalogue -/

namespace Catalog

/-- What a catalogue has in text for a name. -/
def block? (c : Catalog) (timelines : Registry Timeline) (name : String) : Option String :=
  (timelines.get? ((c.duplicates.lookup name).getD name)).map fun t => t.listing ++ "\n\n"

theorem renderText_eq (c : Catalog) (names : List String) (timelines : Registry Timeline) :
    c.renderText names timelines = String.join (names.filterMap (c.block? timelines)) := rfl

/-- The name whose timeline is listed is the one whose table is shared. -/
theorem block?_ofTables (settings : CatalogSettings) (tables duplicates : Registry String)
    (notable : Notes) (remarks : Remarks) (timelines : Registry Timeline) (name : String) :
    (ofTables settings tables duplicates notable remarks).block? timelines name =
      (timelines.get? ((duplicates.get? name).getD name)).map fun t => t.listing ++ "\n\n" := by
  rw [block?, ofTables, Registry.lookup_sorted]

end Catalog

namespace Batch

open Replay

variable {s : Settings} {r q : Result} {name other : String} {t : Timeline}
  {names all : List String} {table : List Char}

/-! ## Names and words -/

theorem namesAreWords_iff {ts : List Transition} : NamesAreWords ts ↔
    ∀ name, some name ∈ ts.map Transition.name → name ≠ "" ∧ Text.IsWord name.toList := by
  simp only [NamesAreWords, Kind.HasWord, Kind.of, List.mem_map, forall_exists_index, and_imp]
  exact ⟨fun h name t ht heq => h t ht name heq, fun h t ht name heq => h name t ht heq⟩

theorem namesAreWords_mended (h : NamesAreWords t.transitions) :
    NamesAreWords (s.mended t).transitions := by
  show NamesAreWords (if s.fix then fixRollbacks t.transitions else t.transitions)
  split
  · rw [namesAreWords_iff, map_name_fixRollbacks, ← namesAreWords_iff]
    exact h
  · exact h

/-! ## One name -/

/-- The name has a timeline that is mended and has this table. -/
def Result.HasTable (s : Settings) (r : Result) (name : String) (table : List Char) : Prop :=
  ∃ t, r.timelines.get? name = some t ∧ s.mended t = t ∧ encode s.fix t = .ok table

theorem Result.HasTable.mono (h : r.HasTable s other table) (ht : r.timelines.get? name = some t)
    (hq : q.timelines = r.timelines.put name (s.mended t)) : q.HasTable s other table := by
  obtain ⟨u, hu, hmended, hencode⟩ := h
  refine ⟨u, ?_, hmended, hencode⟩
  rw [hq, Registry.get?_put]
  split
  · rename_i heq
    subst heq
    obtain rfl := Option.some.inj (ht.symm.trans hu)
    rw [hmended]
  · exact hu

/-- The names of a batch have the tables that they are said to have. -/
structure Result.SharesTables (s : Settings) (all : List String) (r : Result) : Prop where
  own : ∀ name table, r.tables.get? name = some table → r.HasTable s name table.toList
  shared : ∀ name first, r.duplicates.get? name = some first →
    ∃ table, r.HasTable s name table ∧ r.HasTable s first table
  words : ∀ name t, r.timelines.get? name = some t → NamesAreWords t.transitions
  kept : ∀ name ∈ all, r.removed.get? name = none → ∃ t, r.timelines.get? name = some t

/-- **What names are said to have they still have** after a step. -/
theorem Result.SharesTables.putTimeline (h : r.SharesTables s all)
    (ht : r.timelines.get? name = some t) {validation : Notes} {remark : Option String}
    (hputs : ({ r with validation } : Result).Puts s name remark (s.mended t) q) :
    q.SharesTables s all := by
  have htimelines := hputs.timelines_eq
  have hget (other : String) : q.timelines.get? other =
      if other = name then some (s.mended t) else r.timelines.get? other := by
    rw [htimelines, Registry.get?_put]
  have hold {other : String} {table : List Char} (hother : r.HasTable s other table) :
      q.HasTable s other table := hother.mono ht htimelines
  have hnew {table : List Char} (hencode : encode s.fix (s.mended t) = .ok table) :
      q.HasTable s name table :=
    ⟨s.mended t, by rw [hget, if_pos rfl], mended_mended s t, hencode⟩
  constructor
  case own =>
    intro other text hother
    cases hputs with
    | own hencode =>
      rw [Registry.get?_put] at hother
      split at hother
      · rename_i heq
        rw [heq, ← Option.some.inj hother, String.toList_ofList]
        exact hnew hencode
      · exact hold (h.own other text hother)
    | shared | removed => exact hold (h.own other text hother)
  case shared =>
    intro other first hother
    have hkeeps (hother : r.duplicates.get? other = some first) :
        ∃ table, q.HasTable s other table ∧ q.HasTable s first table := by
      obtain ⟨table, hown, hfirst⟩ := h.shared other first hother
      exact ⟨table, hold hown, hold hfirst⟩
    cases hputs with
    | own | removed => exact hkeeps hother
    | @shared table found hencode hfound =>
      rw [Registry.get?_put] at hother
      split at hother
      · rename_i heq
        have hown := hold (h.own found _ hfound)
        rw [String.toList_ofList] at hown
        rw [heq, ← Option.some.inj hother]
        exact ⟨table, hnew hencode, hown⟩
      · exact hkeeps hother
  case words =>
    intro other u hu
    rw [hget] at hu
    split at hu
    · rw [← Option.some.inj hu]
      exact namesAreWords_mended (h.words name t ht)
    · exact h.words other u hu
  case kept =>
    intro other hall hother
    have hnone : r.removed.get? other = none := by
      cases hputs with
      | own | shared => exact hother
      | removed =>
        rw [← Option.not_isSome_iff_eq_none] at hother ⊢
        exact fun hsome => hother ((Notes.isSome_get?_add _ _ _ _).2 (.inr hsome))
    rw [hget]
    split
    · exact ⟨_, rfl⟩
    · exact h.kept other hall hnone

/-! ## All names -/

/-- **What names are said to have they have in the end.** -/
theorem Result.SharesTables.addEach (h : r.SharesTables s all)
    (hq : (addEach s r names).2 = .ok q) : q.SharesTables s all := by
  induction names generalizing r with
  | nil =>
    cases hq
    exact h
  | cons name names ih =>
    rcases addEach_cons_eq_ok_iff.1 hq with ⟨-, hq⟩ | ⟨t, reasons, more, r', ht, -, hstep, hq⟩
    · exact ih h hq
    · obtain ⟨validation, remark, hputs⟩ := exists_of_addName hstep
      exact ih (h.putTimeline ht hputs) hq

theorem sharesTables_start {db : Database} {p : CompileProgress} (h : p.Records db s.window names)
    (hdb : db.IsResolved) (hwords : db.HasWords) (hnames : ∀ name ∈ names, name ∈ db.names)
    (total : Nat) :
    (Result.start names total p).SharesTables s names where
  own := by simp [Result.start]
  shared := by simp [Result.start]
  words name t ht := by
    have hcompiles := ((h.timelines name t).1 ht).2
    exact hcompiles.namesAreWords hwords
  kept name hname hremoved := by
    have haccounts := accounts_start (s := s) h hdb hnames total
    exact Option.isSome_iff_exists.1 ((haccounts.removed name hname (by simp)).1 hremoved)

end Batch
end ZoneTables
