import ZoneTables.Output.Catalog
import ZoneTables.Proofs.Batch.Reports
import ZoneTables.Proofs.Batch.Step
import ZoneTables.Proofs.Compilation.Several
import ZoneTables.Proofs.Source.Acceptance

/-!
# What becomes of the names of a batch

Each name of a batch gets a table of its own, or shares the table of a name before it, or is
removed (`Batch.Result.Fate`), and never more than one of these. `Batch.Result.Accounts` carries
that along the names. A batch comes to its end exactly if all its reports can be written
(`Batch.process_isAccounted_iff`).
-/

namespace ZoneTables

/-! ## Catalogues -/

namespace Catalog

/-- The table that a catalogue leads to from a name: its own, or that of the name whose table it
shares. -/
def reach? (c : Catalog) (name : String) : Option String :=
  if name ∈ c.duplicates.map Prod.fst then (c.zonesMap.get? name).bind c.zonesMap.get?
  else c.zonesMap.get? name

theorem get?_zonesMap_iff {settings : CatalogSettings} {tables duplicates : Registry String}
    {notable : Notes} {remarks : Remarks} {name : String}
    (hdisjoint : ∀ name ∈ tables.names, name ∉ duplicates.names) (value : String) :
    (ofTables settings tables duplicates notable remarks).zonesMap.get? name = some value ↔
      tables.get? name = some value ∨ duplicates.get? name = some value := by
  rw [zonesMap, Registry.get?_ofList_iff]
  · rw [List.mem_append]
    exact or_congr (Registry.mem_sorted_iff _ _ _) (Registry.mem_sorted_iff _ _ _)
  · show ((tables.sorted ++ duplicates.sorted).map Prod.fst).Nodup
    rw [List.map_append, List.nodup_append]
    refine ⟨tables.nodup_sorted, duplicates.nodup_sorted, ?_⟩
    rintro a ha b hb rfl
    exact hdisjoint a ((tables.mem_map_sorted_iff a).1 ha) ((duplicates.mem_map_sorted_iff a).1 hb)

end Catalog

namespace Batch

open Replay Source

variable {s : Settings} {r q : Result} {name other : String} {t : Timeline}
  {names seen all : List String} {log : Log}

/-! ## One name -/

/-- What became of one of the names `seen`. -/
inductive Result.Fate (s : Settings) (seen : List String) (r : Result) (name : String) : Prop
  /-- It has a table of its own. -/
  | own {t : Timeline} {table : List Char} : r.timelines.get? name = some t →
      Table.encode s.fix t = .ok table → r.tables.get? name = some (String.ofList table) →
      r.duplicates.get? name = none → r.removed.get? name = none → Fate s seen r name
  /-- It shares the table of an earlier name. -/
  | shared {t : Timeline} {table : List Char} {first : String} : r.timelines.get? name = some t →
      Table.encode s.fix t = .ok table → r.tables.get? name = none →
      r.duplicates.get? name = some first → r.removed.get? name = none →
      r.tables.get? first = some (String.ofList table) → [first, name].Sublist seen →
      Fate s seen r name
  /-- It was removed. -/
  | removed : r.tables.get? name = none → r.duplicates.get? name = none →
      (r.removed.get? name).isSome → Fate s seen r name

theorem Result.Fate.mono (h : r.Fate s seen name) {more : List String}
    (htimelines : q.timelines.get? name = r.timelines.get? name)
    (htables : ∀ other table, r.tables.get? other = some table → q.tables.get? other = some table)
    (hown : q.tables.get? name = r.tables.get? name)
    (hduplicates : q.duplicates.get? name = r.duplicates.get? name)
    (hremoved : q.removed.get? name = r.removed.get? name) :
    q.Fate s (seen ++ more) name := by
  cases h with
  | own ht htable hname hdup hrem =>
    exact .own (htimelines.trans ht) htable (hown.trans hname) (hduplicates.trans hdup)
      (hremoved.trans hrem)
  | shared ht htable hname hdup hrem hfirst hbefore =>
    exact .shared (htimelines.trans ht) htable (hown.trans hname) (hduplicates.trans hdup)
      (hremoved.trans hrem) (htables _ _ hfirst)
      (hbefore.trans (List.sublist_append_left seen more))
  | removed hname hdup hrem =>
    exact .removed (hown.trans hname) (hduplicates.trans hdup) (hremoved ▸ hrem)

/-- What is known of a batch of the names `all` after those that were seen. -/
structure Result.Accounts (s : Settings) (all seen : List String) (r : Result) : Prop where
  fate : ∀ name ∈ seen, r.Fate s seen name
  tables : ∀ name, name ∉ seen → r.tables.get? name = none
  duplicates : ∀ name, name ∉ seen → r.duplicates.get? name = none
  distinct : (r.tables.entries.map Prod.snd).Nodup
  removed : ∀ name ∈ all, name ∉ seen → (r.removed.get? name = none ↔ (r.timelines.get? name).isSome)

theorem Result.Accounts.skip (h : r.Accounts s all seen) (hall : name ∈ all) (hseen : name ∉ seen)
    (hnone : r.timelines.get? name = none) : r.Accounts s all (seen ++ [name]) := by
  have hnot {other : String} (hother : other ∉ seen ++ [name]) : other ∉ seen :=
    fun hmem => hother (List.mem_append_left _ hmem)
  refine ⟨?_, fun other hother => h.tables other (hnot hother),
    fun other hother => h.duplicates other (hnot hother), h.distinct,
    fun other hall hother => h.removed other hall (hnot hother)⟩
  intro other hother
  rcases List.mem_append.1 hother with hother | hother
  · exact (h.fate other hother).mono rfl (fun _ _ h => h) rfl rfl rfl
  · obtain rfl := List.mem_singleton.1 hother
    refine .removed (h.tables other hseen) (h.duplicates other hseen) ?_
    rw [Option.isSome_iff_ne_none]
    intro hremoved
    have hsome := (h.removed other hall hseen).1 hremoved
    rw [hnone] at hsome
    cases hsome

theorem Result.Accounts.step (h : r.Accounts s all seen) (hseen : name ∉ seen)
    (hfate : q.Fate s (seen ++ [name]) name)
    (htimelines : ∀ other, other ≠ name → q.timelines.get? other = r.timelines.get? other)
    (htables : ∀ other, other ≠ name → q.tables.get? other = r.tables.get? other)
    (hduplicates : ∀ other, other ≠ name → q.duplicates.get? other = r.duplicates.get? other)
    (hremoved : ∀ other, other ≠ name → q.removed.get? other = r.removed.get? other)
    (hdistinct : (q.tables.entries.map Prod.snd).Nodup) :
    q.Accounts s all (seen ++ [name]) := by
  have hnew {other : String} (hother : other ∉ seen ++ [name]) : other ∉ seen ∧ other ≠ name := by
    simpa using hother
  refine ⟨?_, ?_, ?_, hdistinct, ?_⟩
  · intro other hother
    rcases List.mem_append.1 hother with hother | hother
    · have hne : other ≠ name := fun heq => hseen (heq ▸ hother)
      refine (h.fate other hother).mono (htimelines other hne) ?_ (htables other hne)
        (hduplicates other hne) (hremoved other hne)
      intro n table hn
      rw [htables n, hn]
      rintro rfl
      simp [h.tables n hseen] at hn
    · rw [List.mem_singleton.1 hother]
      exact hfate
  · intro other hother
    rw [htables other (hnew hother).2]
    exact h.tables other (hnew hother).1
  · intro other hother
    rw [hduplicates other (hnew hother).2]
    exact h.duplicates other (hnew hother).1
  · intro other hall hother
    rw [hremoved other (hnew hother).2, htimelines other (hnew hother).2]
    exact h.removed other hall (hnew hother).1

/-- **A timeline that is put in its place is accounted for**: its table is new, or that of a name
before, or there is none. -/
theorem Result.Accounts.putTimeline (h : r.Accounts s all seen) (hall : name ∈ all)
    (hseen : name ∉ seen) (hsome : (r.timelines.get? name).isSome) {validation : Notes}
    {remark : Option String}
    (hputs : ({ r with validation } : Result).Puts s name remark t q) :
    q.Accounts s all (seen ++ [name]) := by
  have htable := h.tables name hseen
  have hduplicate := h.duplicates name hseen
  have hremoved := (h.removed name hall hseen).2 hsome
  have hother {α : Type} (values : Registry α) (value : α) (other : String) (hne : other ≠ name) :
      (values.put name value).get? other = values.get? other := by
    rw [Registry.get?_put, if_neg hne]
  have hself (t : Timeline) : (r.timelines.put name t).get? name = some t := by simp
  cases hputs with
  | @own table hencode hnew =>
    refine h.step hseen (.own (hself t) hencode (by simp) hduplicate hremoved) (hother _ _)
      (hother _ _) (fun _ _ => rfl) (fun _ _ => rfl) ?_
    show ((r.tables.put name (String.ofList table)).entries.map Prod.snd).Nodup
    rw [Registry.entries_put htable, List.map_append, List.map_singleton, List.nodup_append]
    refine ⟨h.distinct, by simp, ?_⟩
    rintro a ha b hb rfl
    obtain ⟨⟨other, text⟩, he, rfl⟩ := List.mem_map.1 ha
    obtain rfl : text = String.ofList table := List.mem_singleton.1 hb
    exact hnew other ((Registry.mem_entries_iff _ _ _).1 he)
  | @shared table first hencode hfirst =>
    have hbefore : first ∈ seen := by
      by_contra hnot
      cases (h.tables first hnot).symm.trans hfirst
    refine h.step hseen (.shared (hself t) hencode htable (by simp) hremoved hfirst ?_)
      (hother _ _) (fun _ _ => rfl) (hother _ _) (fun _ _ => rfl) h.distinct
    exact (List.singleton_sublist.2 hbefore).append (List.Sublist.refl [name])
  | removed hencode =>
    refine h.step hseen (.removed htable hduplicate ?_) (hother _ _) (fun _ _ => rfl)
      (fun _ _ => rfl) (hother _ _) h.distinct
    exact (Notes.isSome_get?_add _ _ _ _).2 (.inl rfl)

/-! ## One name after the other -/

theorem addName_isOk_iff (s : Settings) (r : Result) (name : String) (t : Timeline)
    (reasons : List String) : (∃ more q, r.addName s name t reasons = .ok (more, q)) ↔
      (s.warn = true → CanWarn t.transitions) := by
  rw [← checkRollbacks_isOk_iff s name t, Result.addName]
  split
  · rename_i h
    simp [h]
  · rename_i h
    simp [h]

theorem get?_timelines_of_addName {reasons : List String} {more : Log}
    (h : r.addName s name t reasons = .ok (more, q)) (hne : other ≠ name) :
    q.timelines.get? other = r.timelines.get? other := by
  obtain ⟨validation, remark, hputs⟩ := exists_of_addName h
  rw [hputs.timelines_eq, Registry.get?_put, if_neg hne]

theorem canReport_iff_addName (hs : s.OraclesAnswer) (r : Result) (name : String) (t : Timeline) :
    CanReport s name t ↔ ∃ reasons more q, (validate s name t).2 = .ok reasons ∧
      r.addName s name t reasons = .ok (more, q) := by
  rw [canReport_iff, ← validate_isOk_iff hs name t]
  constructor
  · rintro ⟨⟨reasons, hvalidate⟩, hrollbacks⟩
    obtain ⟨more, q, hadd⟩ := (addName_isOk_iff s r name t reasons).2 hrollbacks
    exact ⟨reasons, more, q, hvalidate, hadd⟩
  · rintro ⟨reasons, more, q, hvalidate, hadd⟩
    exact ⟨⟨reasons, hvalidate⟩, (addName_isOk_iff s r name t reasons).1 ⟨more, q, hadd⟩⟩

/-- What a batch does with a name: it skips one that has no timeline any more, and goes on from what
the step of another leaves. -/
theorem addEach_cons_eq_ok_iff : (addEach s r (name :: names)).2 = .ok q ↔
    r.timelines.get? name = none ∧ (addEach s r names).2 = .ok q ∨
      ∃ t reasons more r', r.timelines.get? name = some t ∧ (validate s name t).2 = .ok reasons ∧
        r.addName s name t reasons = .ok (more, r') ∧ (addEach s r' names).2 = .ok q := by
  rw [addEach_cons]
  cases r.timelines.get? name with
  | none => simp
  | some t =>
    cases hvalidate : (validate s name t).2 with
    | error e => simp [hvalidate, Except.bind]
    | ok reasons =>
      cases hadd : r.addName s name t reasons with
      | error e => simp [hvalidate, hadd, Except.bind]
      | ok step => simp [hvalidate, hadd, Except.bind, Prod.ext_iff]

/-- **A batch goes through all its names exactly if all reports can be written.** -/
theorem addEach_isOk_iff (hs : s.OraclesAnswer) (hnodup : names.Nodup) :
    (∃ q, (addEach s r names).2 = .ok q) ↔
      ∀ name ∈ names, ∀ t, r.timelines.get? name = some t → CanReport s name t := by
  induction names generalizing r with
  | nil => simp [addEach]
  | cons name names ih =>
    obtain ⟨hname, hnodup⟩ := List.nodup_cons.1 hnodup
    have hne : ∀ other ∈ names, other ≠ name := fun other hother heq => hname (heq ▸ hother)
    simp only [addEach_cons_eq_ok_iff, List.forall_mem_cons]
    constructor
    · rintro ⟨q, ⟨hnone, hq⟩ | ⟨t, reasons, more, r', ht, hvalidate, hadd, hq⟩⟩
      · exact ⟨by simp [hnone], (ih hnodup).1 ⟨q, hq⟩⟩
      · refine ⟨fun u hu => ?_, fun other hother u hu => ?_⟩
        · obtain rfl := Option.some.inj (ht.symm.trans hu)
          exact (canReport_iff_addName hs r name t).2 ⟨reasons, more, r', hvalidate, hadd⟩
        · rw [← get?_timelines_of_addName hadd (hne other hother)] at hu
          exact (ih hnodup).1 ⟨q, hq⟩ other hother u hu
    · rintro ⟨hfirst, hrest⟩
      cases ht : r.timelines.get? name with
      | none =>
        obtain ⟨q, hq⟩ := (ih hnodup).2 hrest
        exact ⟨q, .inl ⟨rfl, hq⟩⟩
      | some t =>
        obtain ⟨reasons, more, r', hvalidate, hadd⟩ :=
          (canReport_iff_addName hs r name t).1 (hfirst t ht)
        have hrest' : ∀ other ∈ names, ∀ u, r'.timelines.get? other = some u →
            CanReport s other u := by
          intro other hother u hu
          rw [get?_timelines_of_addName hadd (hne other hother)] at hu
          exact hrest other hother u hu
        obtain ⟨q, hq⟩ := (ih hnodup).2 hrest'
        exact ⟨q, .inr ⟨t, reasons, more, r', rfl, hvalidate, hadd, hq⟩⟩

/-- **All names of a batch are accounted for.** -/
theorem Result.Accounts.addEach (h : r.Accounts s all seen) (hall : ∀ name ∈ names, name ∈ all)
    (hnodup : names.Nodup) (hseen : ∀ name ∈ names, name ∉ seen)
    (hq : (addEach s r names).2 = .ok q) : q.Accounts s all (seen ++ names) := by
  induction names generalizing r seen with
  | nil =>
    cases hq
    simpa using h
  | cons name names ih =>
    obtain ⟨hname, hall⟩ := List.forall_mem_cons.1 hall
    obtain ⟨hnot, hseen⟩ := List.forall_mem_cons.1 hseen
    obtain ⟨hfresh, hnodup⟩ := List.nodup_cons.1 hnodup
    have hseen' : ∀ other ∈ names, other ∉ seen ++ [name] := by
      intro other hother hmem
      rcases List.mem_append.1 hmem with hmem | hmem
      · exact hseen other hother hmem
      · rw [List.mem_singleton.1 hmem] at hother
        exact hfresh hother
    rw [← List.singleton_append, ← List.append_assoc]
    rcases addEach_cons_eq_ok_iff.1 hq with
      ⟨hnone, hq⟩ | ⟨t, reasons, more, r', ht, -, hstep, hq⟩
    · exact ih (h.skip hname hnot hnone) hall hnodup hseen' hq
    · obtain ⟨validation, remark, hputs⟩ := exists_of_addName hstep
      have hsome : (r.timelines.get? name).isSome := by simp [ht]
      exact ih (h.putTimeline hname hnot hsome hputs) hall hnodup hseen' hq

/-! ## The whole batch -/

/-- Before its first name a batch has removed the names that do not compile. -/
theorem accounts_start {db : Database} {p : CompileProgress} (h : p.Records db s.window names)
    (hdb : db.IsResolved) (hnames : ∀ name ∈ names, name ∈ db.names) (total : Nat) :
    (Result.start names total p).Accounts s names [] where
  fate := by simp
  tables _ _ := rfl
  duplicates _ _ := rfl
  distinct := List.nodup_nil
  removed name hname _ := by
    show p.notes.removed.get? name = none ↔ (p.timelines.get? name).isSome
    have hremoved :=
      h.removed_iff (fun other hother => hdb.compilesAsItsZone (hnames other hother)) hname
    rw [Database.Fails] at hremoved
    rw [← not_iff_not, ← ne_eq, ← Option.isSome_iff_ne_none, hremoved,
      Option.not_isSome_iff_eq_none, Option.eq_none_iff_forall_ne_some]
    refine forall_congr' fun t => not_congr ?_
    rw [h.timelines]
    exact ⟨fun ht => ⟨hname, ht⟩, fun ht => ht.2⟩

theorem exists_checkTables (r : Result) :
    ∃ tableNotes, (checkTables r).2 = { r with tableNotes } := by
  rw [checkTables]
  refine List.foldlRecOn (motive := fun (x : Log × Result) =>
    ∃ tableNotes, x.2 = { r with tableNotes }) _ _ ⟨r.tableNotes, rfl⟩ ?_
  rintro ⟨log, result⟩ ⟨tableNotes, rfl⟩ e he
  dsimp only
  split
  · exact ⟨_, rfl⟩
  · split
    · exact ⟨_, rfl⟩
    · exact ⟨_, rfl⟩

theorem Result.Accounts.withTableNotes (h : r.Accounts s all seen) (tableNotes : Notes) :
    ({ r with tableNotes } : Result).Accounts s all seen := by
  refine ⟨fun name hname => ?_, h.tables, h.duplicates, h.distinct, h.removed⟩
  have hfate : ({ r with tableNotes } : Result).Fate s (seen ++ []) name :=
    (h.fate name hname).mono rfl (fun _ _ h => h) rfl rfl rfl
  rwa [List.append_nil] at hfate

/-- Every name of a batch is accounted for. -/
structure Result.IsAccounted (s : Settings) (names : List String) (r : Result) : Prop where
  /-- Each name is in exactly one of the three. -/
  once : ∀ name ∈ names,
    (name ∈ r.tables.names ∧ name ∉ r.duplicates.names ∧ name ∉ r.removed.names) ∨
    (name ∉ r.tables.names ∧ name ∈ r.duplicates.names ∧ name ∉ r.removed.names) ∨
    (name ∉ r.tables.names ∧ name ∉ r.duplicates.names ∧ name ∈ r.removed.names)
  /-- No two names have equal tables of their own. -/
  distinct : (r.tables.entries.map Prod.snd).Nodup
  /-- A duplicate comes after the name that has its table. -/
  first : ∀ name first, r.duplicates.get? name = some first →
    first ∈ r.tables.names ∧ [first, name].Sublist names
  /-- The catalogue leads from each name that is left to the table of its timeline. -/
  reached : ∀ name ∈ names, name ∉ r.removed.names →
    ∃ t table, r.timelines.get? name = some t ∧ Table.encode s.fix t = .ok table ∧
      ∀ settings notable remarks,
        (Catalog.ofTables settings r.tables r.duplicates notable remarks).reach? name =
          some (String.ofList table)

namespace Result.Accounts

open Registry

theorem once (h : r.Accounts s names names) (hname : name ∈ names) :
    (name ∈ r.tables.names ∧ name ∉ r.duplicates.names ∧ name ∉ r.removed.names) ∨
    (name ∉ r.tables.names ∧ name ∈ r.duplicates.names ∧ name ∉ r.removed.names) ∨
    (name ∉ r.tables.names ∧ name ∉ r.duplicates.names ∧ name ∈ r.removed.names) := by
  simp only [not_mem_names_iff]
  cases h.fate name hname with
  | own _ _ htable hduplicate hremoved =>
    exact .inl ⟨mem_names_of_get? htable, hduplicate, hremoved⟩
  | shared _ _ htable hduplicate hremoved =>
    exact .inr (.inl ⟨htable, mem_names_of_get? hduplicate, hremoved⟩)
  | removed htable hduplicate hremoved =>
    exact .inr (.inr ⟨htable, hduplicate, (mem_names_iff _ _).2 hremoved⟩)

/-- No name has both a table of its own and that of another. -/
theorem not_mem_duplicates (h : r.Accounts s names names) :
    ∀ name ∈ r.tables.names, name ∉ r.duplicates.names := by
  intro name hname
  have hmem : name ∈ names := by
    by_contra hnot
    exact (not_mem_names_iff _ _).2 (h.tables name hnot) hname
  rcases h.once hmem with ⟨-, hduplicate, -⟩ | ⟨htable, -, -⟩ | ⟨htable, -, -⟩
  · exact hduplicate
  · exact absurd hname htable
  · exact absurd hname htable

theorem first (h : r.Accounts s names names) {first : String}
    (hfirst : r.duplicates.get? name = some first) :
    first ∈ r.tables.names ∧ [first, name].Sublist names := by
  have hmem : name ∈ names := by
    by_contra hnot
    simp [h.duplicates name hnot] at hfirst
  cases h.fate name hmem with
  | own _ _ _ hduplicate => simp [hduplicate] at hfirst
  | shared _ _ _ hduplicate _ htable hbefore =>
    obtain rfl := Option.some.inj (hduplicate.symm.trans hfirst)
    exact ⟨mem_names_of_get? htable, hbefore⟩
  | removed _ hduplicate => simp [hduplicate] at hfirst

theorem reached (h : r.Accounts s names names) (hname : name ∈ names)
    (hnot : name ∉ r.removed.names) :
    ∃ t table, r.timelines.get? name = some t ∧ Table.encode s.fix t = .ok table ∧
      ∀ settings notable remarks,
        (Catalog.ofTables settings r.tables r.duplicates notable remarks).reach? name =
          some (String.ofList table) := by
  have hcatalog (settings : CatalogSettings) (notable : Notes) (remarks : Remarks) :
      name ∈ (Catalog.ofTables settings r.tables r.duplicates notable remarks).duplicates.map
        Prod.fst ↔ name ∈ r.duplicates.names :=
    mem_map_sorted_iff _ _
  cases h.fate name hname with
  | own ht htable hown hduplicate =>
    refine ⟨_, _, ht, htable, fun settings notable remarks => ?_⟩
    rw [Catalog.reach?, if_neg ((hcatalog _ _ _).not.2 ((not_mem_names_iff _ _).2 hduplicate)),
      Catalog.get?_zonesMap_iff h.not_mem_duplicates]
    exact .inl hown
  | shared ht htable _ hduplicate _ hfirst =>
    refine ⟨_, _, ht, htable, fun settings notable remarks => ?_⟩
    rw [Catalog.reach?, if_pos ((hcatalog _ _ _).2 (mem_names_of_get? hduplicate)),
      Option.bind_eq_some_iff]
    exact ⟨_, (Catalog.get?_zonesMap_iff h.not_mem_duplicates _).2 (.inr hduplicate),
      (Catalog.get?_zonesMap_iff h.not_mem_duplicates _).2 (.inl hfirst)⟩
  | removed _ _ hremoved => exact absurd ((mem_names_iff _ _).2 hremoved) hnot

/-- **Names whose fates are known are accounted for.** -/
theorem isAccounted (h : r.Accounts s names names) : r.IsAccounted s names where
  once _ := h.once
  distinct := h.distinct
  first _ _ := h.first
  reached _ := h.reached

end Result.Accounts

/-- **When a batch accounts for all its names**: exactly if each report about a timeline can be
written. The names are different and known, and the oracles answer. -/
theorem process_isAccounted_iff {options : Options} {sources : Registry String}
    {selected : Option (List String)} {db : Database}
    (hdb : Database.ofSources options sources selected = (log, .ok db)) (hnodup : names.Nodup)
    (hknown : ∀ name ∈ names, name ∈ db.names) (hs : s.OraclesAnswer) :
    (∃ more r, process s db names = (more, .ok r) ∧ r.IsAccounted s names) ↔
      ∀ name ∈ names, ∀ t, db.CompilesTo name s.window t → CanReport s name t := by
  have hresolved := Database.isResolved_of_ofSources hdb
  obtain ⟨p, hp, hrecords⟩ := hresolved.compileAll_spec (w := s.window) hknown
  have hstart := accounts_start (s := s) hrecords hresolved hknown db.size
  have hreports : (∃ q, (addEach s (.start names db.size p) names).2 = .ok q) ↔
      ∀ name ∈ names, ∀ t, db.CompilesTo name s.window t → CanReport s name t := by
    rw [addEach_isOk_iff hs hnodup]
    refine forall₂_congr fun name hname => forall_congr' fun t => imp_congr_left ?_
    show p.timelines.get? name = some t ↔ _
    rw [hrecords.timelines]
    exact ⟨fun h => h.2, fun h => ⟨hname, h⟩⟩
  rw [← hreports, process, hp]
  dsimp only
  constructor
  · rintro ⟨more, r, hr, -⟩
    split at hr
    · cases (Prod.mk.inj hr).2
    · rename_i q hq
      exact ⟨q, by rw [hq]⟩
  · rintro ⟨q, hq⟩
    have haccounts := hstart.addEach (fun _ h => h) hnodup (by simp) hq
    obtain ⟨tableNotes, hnotes⟩ := exists_checkTables q
    split
    · rename_i heq
      rw [heq] at hq
      cases hq
    · rename_i heq
      rw [heq] at hq
      cases hq
      refine ⟨_, _, rfl, ?_⟩
      rw [hnotes]
      exact (haccounts.withTableNotes tableNotes).isAccounted

/-- A batch that mends and reports rollbacks, without an oracle. -/
def plainSettings (w : Window) : Settings := ⟨w, true, true, false, none, none⟩

theorem oraclesAnswer_plainSettings (w : Window) : (plainSettings w).OraclesAnswer where
  oracle := by simp [plainSettings]
  fallback := by simp [plainSettings]

/-- A batch that is checked against an oracle with one timeline for all names. -/
def checkedSettings (w : Window) (reference : Timeline) : Settings :=
  { plainSettings w with oracle := some (fun _ _ => ([], .ok (some reference)), .zoneinfo) }

theorem oraclesAnswer_checkedSettings (w : Window) (reference : Timeline) :
    (checkedSettings w reference).OraclesAnswer where
  oracle := by
    rintro oracle preset heq name w'
    cases heq
    exact ⟨_, _, rfl⟩
  fallback := by simp [checkedSettings, plainSettings]

/-- The change to standard time in Oslo, an hour late. -/
def lateReference : Timeline :=
  ⟨none, [⟨beginningOfTime, 2580, 0, some "LMT", none⟩,
    ⟨-2366754180, 3600, 0, some "CET", none⟩], none, none, none⟩

/-- A batch of the names of a text has a result that passes a check, if running it up to the tables
says so. -/
theorem exists_result (text : String) (s : Settings) (names : List String)
    (check : Database → Result → Bool)
    (h : ((Database.ofText text).2.toOption.any fun db =>
      (names.all fun name => db.zones.contains name || db.aliases.contains name) &&
        match db.compileAll s.window .empty names with
        | (p, none) => (addEach s (.start names db.size p) names).2.toOption.any (check db)
        | (_, some _) => false) = true) :
    ∃ log db q tableNotes, Database.ofText text = (log, .ok db) ∧
      (∀ name ∈ names, name ∈ db.names) ∧
      (process s db names).2 = .ok { q with tableNotes } ∧ check db q = true := by
  obtain ⟨log, db, hdb, hcheck⟩ := Database.exists_database text _ h
  simp only [Bool.and_eq_true, List.all_eq_true, Bool.or_eq_true] at hcheck
  obtain ⟨hnames, hcheck⟩ := hcheck
  have hknown (name : String) (hname : name ∈ names) : name ∈ db.names :=
    Database.mem_names_iff.2 <| (hnames name hname).imp
      (Registry.mem_names_iff _ _).2 (Registry.mem_names_iff _ _).2
  split at hcheck
  · rename_i p hp
    obtain ⟨q, hq, hcheck⟩ := (Option.any_eq_true ..).1 hcheck
    obtain ⟨tableNotes, hnotes⟩ := exists_checkTables q
    refine ⟨log, db, q, tableNotes, hdb, hknown, ?_, hcheck⟩
    rw [process_of_compileAll hp, Database.eq_ok_of_toOption hq, ← hnotes]
    rfl
  · cases hcheck

/-- Two zones with the same history and a link to one of them, a zone under rules that are missing,
and one whose clocks are turned back over midnight. -/
def norway : String :=
  Database.oslo ++ "Zone Bergen 0:43 - LMT 1895\n\t1:00 - CET\nLink Oslo Moss\n" ++
    "Zone Narvik 1:00 Norway CE%sT\nZone Bodo 2:00 - A 2000 Jan 2 0:30\n\t1:00 - CET\n"

theorem isAccounted_norway :
    ∃ log db more r, Database.ofText norway = (log, .ok db) ∧
      ["Oslo", "Bergen", "Narvik", "Moss", "Bodo"].Nodup ∧
      (∀ name ∈ ["Oslo", "Bergen", "Narvik", "Moss", "Bodo"], name ∈ db.names) ∧
      (checkedSettings ⟨1890, 2010⟩ lateReference).OraclesAnswer ∧
      process (checkedSettings ⟨1890, 2010⟩ lateReference) db
        ["Oslo", "Bergen", "Narvik", "Moss", "Bodo"] = (more, .ok r) ∧
      r.tables.names = ["Oslo", "Bodo"] ∧
      r.duplicates.entries = [("Bergen", "Oslo"), ("Moss", "Oslo")] ∧
      r.removed.names = ["Narvik"] ∧ r.rollback.names = ["Bodo"] ∧
      r.validation.names = ["Oslo", "Bergen", "Moss"] ∧
      r.IsAccounted (checkedSettings ⟨1890, 2010⟩ lateReference)
        ["Oslo", "Bergen", "Narvik", "Moss", "Bodo"] := by
  obtain ⟨log, db, q, tableNotes, hdb, hknown, hq, hcheck⟩ := exists_result norway
    (checkedSettings ⟨1890, 2010⟩ lateReference) ["Oslo", "Bergen", "Narvik", "Moss", "Bodo"]
    (fun db q => decide (q.tables.names = ["Oslo", "Bodo"]) &&
      decide (q.duplicates.entries = [("Bergen", "Oslo"), ("Moss", "Oslo")]) &&
      decide (q.removed.names = ["Narvik"]) && decide (q.rollback.names = ["Bodo"]) &&
      decide (q.validation.names = ["Oslo", "Bergen", "Moss"]) &&
      ["Oslo", "Bergen", "Narvik", "Moss", "Bodo"].all fun name =>
        (db.compiled? name ⟨1890, 2010⟩).all fun t => decide (CanWarn t.transitions) &&
          decide ((Closeness.zoneinfo 0).CanReport t.transitions lateReference.transitions))
    (by decide +kernel)
  simp only [Bool.and_eq_true, decide_eq_true_eq, List.all_eq_true, Option.all_eq_true] at hcheck
  obtain ⟨⟨⟨⟨⟨htables, hduplicates⟩, hremoved⟩, hrollback⟩, hvalidation⟩, hreports⟩ := hcheck
  have hnodup : ["Oslo", "Bergen", "Narvik", "Moss", "Bodo"].Nodup := by decide
  have hanswer := oraclesAnswer_checkedSettings ⟨1890, 2010⟩ lateReference
  have hcan : ∀ name ∈ ["Oslo", "Bergen", "Narvik", "Moss", "Bodo"], ∀ t,
      db.CompilesTo name (checkedSettings ⟨1890, 2010⟩ lateReference).window t →
        CanReport (checkedSettings ⟨1890, 2010⟩ lateReference) name t := by
    intro name hname t ht
    obtain ⟨hwarn, hreport⟩ := hreports name hname t (Database.compilesTo_iff.1 ht)
    refine ⟨?_, fun _ => hwarn⟩
    rintro preset reference heq
    cases heq
    exact hreport
  obtain ⟨more, r, hr, haccounted⟩ := (process_isAccounted_iff hdb hnodup hknown hanswer).2 hcan
  rw [hr] at hq
  obtain rfl := Except.ok.inj hq
  exact ⟨log, db, more, _, hdb, hnodup, hknown, hanswer, hr, htables, hduplicates, hremoved,
    hrollback, hvalidation, haccounted⟩

/-- A zone whose clocks are turned back at the end of a year of 4300 digits. -/
def farYear : List Char :=
  "Zone Z 0 10:00 A ".toList ++ List.replicate 4300 '9' ++ " Dec 31 20:00u\n\t0 - B\n".toList

/-- Years that take in that one. -/
def farWindow : Window := ⟨1900, ((Nat.pow 10 4300 - 1 : Nat) : Int)⟩

/-- The database of one source with the given characters. -/
def databaseOf (cs : List Char) : Log × Except Source.Error Database :=
  match readLines false "text" .start 0 (numberedLines cs) with
  | .error e => ([], .error (.parse e))
  | .ok p =>
    let (log, aliases) := resolveLinks p.zones.contains p.links
    (log, (aliases.mapError .link).map fun aliases =>
      ⟨p.zones, p.ruleSets, aliases, String.ofList (Text.trim Text.isBlank "unknown".toList)⟩)

theorem ofText_ofList (cs : List Char) : Database.ofText (String.ofList cs) = databaseOf cs := by
  have hlines : numberedSource (.ofList [("text", String.ofList cs)]) "text" = numberedLines cs :=
    congrArg numberedLines String.toList_ofList
  rw [Database.ofText, ofSources_eq]
  have hnames : defaultNames (.ofList [("text", String.ofList cs)]) = ["text"] := rfl
  have hmem : "text" ∈ (Registry.ofList [("text", String.ofList cs)]).names := List.mem_cons_self
  rw [hnames, readSources_cons hmem, hlines, databaseOf]
  cases readLines false "text" .start 0 (numberedLines cs) <;> rfl

set_option maxRecDepth 100000 in
/-- The warning about the rollback would tell a year of 4301 digits: the batch breaks off. -/
theorem process_farYear :
    ∃ log db, Database.ofText (String.ofList farYear) = (log, .ok db) ∧
      (process (plainSettings farWindow) db ["Z"]).2 = .error (.report .unwritable) := by
  have h : ((databaseOf farYear).2.toOption.any fun db =>
      match (process (plainSettings farWindow) db ["Z"]).2 with
      | .error e => decide (e = .report .unwritable)
      | .ok _ => false) = true := by
    decide +kernel
  obtain ⟨db, hdb, hcheck⟩ := (Option.any_eq_true ..).1 h
  obtain ⟨log, hlog⟩ := Database.exists_of_toOption hdb
  refine ⟨log, db, (ofText_ofList farYear).trans hlog, ?_⟩
  split at hcheck
  · rename_i e he
    rw [he, of_decide_eq_true hcheck]
  · cases hcheck

end Batch
end ZoneTables
