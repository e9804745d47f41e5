import ZoneTables.Proofs.Batch.Accounting
import ZoneTables.Proofs.Notes
import ZoneTables.Remarks

/-!
# The notes of a batch put together

The notes that the stages of a batch leave are put together under their names, and the remarks show
the reasons of a zone with its links too. What is to be found under a name is told by the reasons
that the stages have noted of it (`Result.reasonsOf`) and by the zone that it is a link to
(`Result.zoneOf?`); `Remarks.get?_ofNotes` says what is found. `Result.MergesTo` puts this down:
nothing is lost, nothing comes twice, and once the notes are together they stay as they are
(`Result.mergeNotes_mergesTo`). It needs the reasons of a name to be a set, which they are in all
that a batch results in (`areSets_process`).
-/

namespace ZoneTables

/-! ## What is found under a name -/

namespace Remarks

/-- The remarks that a name has for its own reasons. -/
def own? (notes : Notes) (name : String) : Option (List Remark) :=
  (notes.get? name).map fun reasons => (reasons.mergeSort (· ≤ ·)).map .reason

/-- The remark that a link has for the reasons of its zone. -/
def ofZone? (notes : Notes) (zone : String) : Option Remark :=
  (notes.get? zone).map fun reasons => .ofZone zone (reasons.mergeSort (· ≤ ·))

theorem get?_addLink (notes : Notes) (remarks : Remarks) (link zone other : String) :
    (addLink notes remarks link zone).get? other =
      if other = link then
        (ofZone? notes zone).elim (remarks.get? link) fun remark =>
          some ((remarks.get? link).getD [] ++ [remark])
      else remarks.get? other := by
  cases hzone : notes.get? zone with
  | none =>
    simp only [addLink, ofZone?, hzone]
    exact Registry.get?_eq_ite ..
  | some reasons =>
    simp only [addLink, ofZone?, hzone]
    exact Registry.get?_put ..

/-- **What is found among the remarks**: those for the reasons of the name, then the one for its
zone. -/
theorem get?_ofNotes (notes : Notes) (links : Registry String) (name : String) :
    (ofNotes notes links).get? name =
      ((links.get? name).bind (ofZone? notes)).elim (own? notes name) fun remark =>
        some ((own? notes name).getD [] ++ [remark]) := by
  rw [ofNotes, Registry.get?_foldl
    (g := fun zone old => (ofZone? notes zone).elim old fun remark =>
      some (old.getD [] ++ [remark]))
    (fun _ _ _ _ => get?_addLink ..) links.nodup_sorted, Registry.lookup_sorted]
  -- the remarks to which those of the links are added
  rw [Notes.ordered, List.foldl_map, Registry.get?_foldl
    (g := fun reasons _ => some ((reasons.mergeSort (· ≤ ·)).map Remark.reason))
    (fun _ _ _ _ => Registry.get?_put ..) notes.nodup_sorted, Registry.lookup_sorted]
  cases hname : notes.get? name with
  | none => cases links.get? name <;> simp [own?, hname]
  | some reasons => cases links.get? name <;> simp [own?, hname]

/-! ## How many reasons there are -/

theorem count_eq (remarks : Remarks) :
    remarks.count =
      (remarks.names.map fun name => (((remarks.get? name).getD []).map Remark.count).sum).sum := by
  calc remarks.count
    _ = ((remarks.entries.flatMap Prod.snd).map Remark.count).sum := by
      rw [count, List.sum_eq_foldl, List.foldl_map]
    _ = (remarks.entries.map fun e => (e.2.map Remark.count).sum).sum := by
      rw [List.map_flatMap, List.flatMap_def, List.sum_flatten, List.map_map]
      rfl
    _ = _ := by
      rw [Registry.names, List.map_map]
      refine congrArg List.sum (List.map_congr_left fun e he => ?_)
      rw [Function.comp_apply, (Registry.mem_entries_iff remarks e.1 e.2).1 he, Option.getD_some]

theorem summary_eq (remarks : Remarks) : remarks.summary =
    [.info ("Zones: " ++ toString remarks.names.length ++ "; Comments: " ++
      toString remarks.count)] := by
  rw [summary, Registry.names, List.length_map]
  rfl

theorem sum_count_map_reason (reasons : List String) :
    ((reasons.map Remark.reason).map Remark.count).sum = reasons.length := by
  induction reasons with
  | nil => rfl
  | cons reason reasons ih =>
    simp only [List.map_cons, List.sum_cons, ih, List.length_cons]
    exact Nat.add_comm ..

end Remarks

namespace Batch

open Replay

variable {s : Settings} {r q : Result} {name zone : String} {names : List String}

/-! ## What a batch notes -/

theorem notable_of_addEach (hq : (addEach s r names).2 = .ok q) : q.notable = r.notable := by
  induction names generalizing r with
  | nil =>
    cases hq
    rfl
  | cons name names ih =>
    rcases addEach_cons_eq_ok_iff.1 hq with ⟨-, hq⟩ | ⟨t, reasons, more, r', -, -, hstep, hq⟩
    · exact ih hq
    · obtain ⟨validation, remark, hputs⟩ := exists_of_addName hstep
      rw [ih hq]
      cases hputs with
      | own | shared | removed => rfl

/-- **A batch notes no reason twice** while it compiles its names. -/
theorem areSets_process {db : Database} (h : (process s db names).2 = .ok r) :
    r.notable.AreSets := by
  have hcompiled : (db.compileAll s.window .empty names).1.notes.notable.AreSets :=
    CompileProgress.areSets_compileEach (p := ⟨.empty, [], ∅, ∅⟩) Notes.areSets_empty names
  cases hp : db.compileAll s.window .empty names with
  | mk p failure =>
    rw [hp] at hcompiled
    cases failure with
    | some e =>
      rw [process, hp] at h
      cases h
    | none =>
      rw [process_of_compileAll hp] at h
      obtain ⟨q, hq, rfl⟩ := Source.exists_of_map_eq_ok h
      obtain ⟨tableNotes, hnotes⟩ := exists_checkTables q
      rw [hnotes]
      show q.notable.AreSets
      rw [notable_of_addEach hq]
      exact hcompiled

/-! ## What the stages have noted -/

/-- One of the stages has noted the name. -/
def Result.IsNoted (r : Result) (name : String) : Prop :=
  name ∈ r.notable.names ∨ name ∈ r.validation.names ∨ name ∈ r.rollback.names ∨
    name ∈ r.tableNotes.names

/-- The reasons that the stages have noted of a name. -/
def Result.reasonsOf (r : Result) (name : String) : Finset String :=
  r.notable.reasonsOf name ∪ r.validation.reasonsOf name ∪ r.rollback.reasonsOf name ∪
    r.tableNotes.reasonsOf name

/-- The zone that a name is a link to. -/
def Result.zoneOf? (r : Result) (name : String) : Option String :=
  (r.timelines.get? name).bind Timeline.aliasFor

/-- How many reasons are shown with a name: its own and those of its zone. -/
def Result.reasonCount (r : Result) (name : String) : Nat :=
  (r.reasonsOf name).card + (r.zoneOf? name).elim 0 fun zone => (r.reasonsOf zone).card

theorem get?_links (r : Result) (name : String) : r.links.get? name = r.zoneOf? name := by
  rw [Result.links, Registry.get?_foldl
    (g := fun t old => t.aliasFor.elim old some) ?_ r.timelines.nodup]
  · show (r.timelines.get? name).elim none _ = (r.timelines.get? name).bind _
    cases r.timelines.get? name with
    | none => rfl
    | some t => cases h : t.aliasFor <;> simp [h]
  · intro links link t other
    dsimp only
    cases t.aliasFor with
    | none => exact Registry.get?_eq_ite ..
    | some zone => exact Registry.get?_put ..

/-! ## The notes put together -/

theorem mem_names_allNotes : name ∈ r.allNotes.names ↔ r.IsNoted name := by
  simp only [Result.allNotes, Result.IsNoted, Notes.mem_names_merge, or_assoc]

theorem reasonsOf_allNotes (r : Result) (name : String) :
    r.allNotes.reasonsOf name = r.reasonsOf name := by
  simp only [Result.allNotes, Result.reasonsOf, Notes.reasonsOf_merge]

theorem areSets_allNotes (h : r.notable.AreSets) : r.allNotes.AreSets :=
  ((h.merge r.validation).merge r.rollback).merge r.tableNotes

theorem reasonsOf_of_not_isNoted (h : ¬ r.IsNoted name) : r.reasonsOf name = ∅ := by
  rw [← reasonsOf_allNotes]
  exact Notes.reasonsOf_of_not_mem fun hname => h (mem_names_allNotes.1 hname)

theorem exists_get?_allNotes (hsets : r.notable.AreSets) (h : r.IsNoted name) :
    ∃ reasons, r.allNotes.get? name = some reasons ∧
      reasons.mergeSort (· ≤ ·) = (r.reasonsOf name).sort := by
  obtain ⟨reasons, hreasons⟩ := Option.isSome_iff_exists.1
    ((Registry.mem_names_iff _ _).1 (mem_names_allNotes.2 h))
  refine ⟨reasons, hreasons, ?_⟩
  rw [(areSets_allNotes hsets).mergeSort_eq hreasons, reasonsOf_allNotes]

theorem get?_allNotes_of_not_isNoted (h : ¬ r.IsNoted name) : r.allNotes.get? name = none :=
  (Registry.not_mem_names_iff _ _).1 fun hname => h (mem_names_allNotes.1 hname)

/-- Notes that the stages have left are not added once more. -/
theorem merge_allNotes {new : Notes} (hnames : ∀ name ∈ new.names, r.IsNoted name)
    (hreasons : ∀ name, new.reasonsOf name ⊆ r.reasonsOf name) :
    r.allNotes.merge new = r.allNotes := by
  refine Notes.merge_eq_self (fun name hname => mem_names_allNotes.2 (hnames name hname)) ?_
  intro name
  rw [reasonsOf_allNotes]
  exact hreasons name

/-- **Putting the notes together twice is putting them together once.** -/
theorem allNotes_allNotes (r : Result) :
    ({ r with notable := r.allNotes } : Result).allNotes = r.allNotes := by
  show ((r.allNotes.merge r.validation).merge r.rollback).merge r.tableNotes = r.allNotes
  have hvalidation : r.allNotes.merge r.validation = r.allNotes :=
    merge_allNotes (fun _ hname => .inr (.inl hname)) fun _ =>
      (Finset.subset_union_right.trans Finset.subset_union_left).trans Finset.subset_union_left
  have hrollback : r.allNotes.merge r.rollback = r.allNotes :=
    merge_allNotes (fun _ hname => .inr (.inr (.inl hname))) fun _ =>
      Finset.subset_union_right.trans Finset.subset_union_left
  have htableNotes : r.allNotes.merge r.tableNotes = r.allNotes :=
    merge_allNotes (fun _ hname => .inr (.inr (.inr hname))) fun _ => Finset.subset_union_right
  rw [hvalidation, hrollback, htableNotes]

/-! ## The remarks -/

theorem own?_allNotes (hsets : r.notable.AreSets) (h : r.IsNoted name) :
    Remarks.own? r.allNotes name = some ((r.reasonsOf name).sort.map .reason) := by
  obtain ⟨reasons, hreasons, hsort⟩ := exists_get?_allNotes hsets h
  rw [Remarks.own?, hreasons, Option.map_some, hsort]

theorem getD_own?_allNotes (hsets : r.notable.AreSets) (name : String) :
    (Remarks.own? r.allNotes name).getD [] = (r.reasonsOf name).sort.map .reason := by
  by_cases h : r.IsNoted name
  · rw [own?_allNotes hsets h, Option.getD_some]
  · rw [Remarks.own?, get?_allNotes_of_not_isNoted h, reasonsOf_of_not_isNoted h,
      Finset.sort_empty]
    rfl

theorem get?_remarks_link (hsets : r.notable.AreSets) (hzone : r.zoneOf? name = some zone)
    (h : r.IsNoted zone) : (Remarks.ofNotes r.allNotes r.links).get? name =
      some ((r.reasonsOf name).sort.map .reason ++ [.ofZone zone (r.reasonsOf zone).sort]) := by
  obtain ⟨reasons, hreasons, hsort⟩ := exists_get?_allNotes hsets h
  rw [Remarks.get?_ofNotes, get?_links, hzone, Option.bind_some, Remarks.ofZone?, hreasons,
    Option.map_some, hsort, Option.elim_some, getD_own?_allNotes hsets]

theorem get?_remarks_own (h : ∀ zone, r.zoneOf? name = some zone → ¬ r.IsNoted zone) :
    (Remarks.ofNotes r.allNotes r.links).get? name = Remarks.own? r.allNotes name := by
  rw [Remarks.get?_ofNotes, get?_links]
  cases hzone : r.zoneOf? name with
  | none => rfl
  | some zone =>
    rw [Option.bind_some, Remarks.ofZone?, get?_allNotes_of_not_isNoted (h zone hzone)]
    rfl

theorem mem_names_remarks (hsets : r.notable.AreSets) :
    name ∈ (Remarks.ofNotes r.allNotes r.links).names ↔
      r.IsNoted name ∨ ∃ zone, r.zoneOf? name = some zone ∧ r.IsNoted zone := by
  rw [Registry.mem_names_iff]
  by_cases hlink : ∃ zone, r.zoneOf? name = some zone ∧ r.IsNoted zone
  · obtain ⟨zone, hzone, hnoted⟩ := hlink
    rw [get?_remarks_link hsets hzone hnoted]
    exact iff_of_true rfl (.inr ⟨zone, hzone, hnoted⟩)
  · rw [or_iff_left hlink]
    simp only [not_exists, not_and] at hlink
    rw [get?_remarks_own hlink, Remarks.own?, Option.isSome_map, ← Registry.mem_names_iff,
      mem_names_allNotes]

theorem sum_count_remarks (hsets : r.notable.AreSets) (name : String) :
    ((((Remarks.ofNotes r.allNotes r.links).get? name).getD []).map Remark.count).sum =
      r.reasonCount name := by
  by_cases hlink : ∃ zone, r.zoneOf? name = some zone ∧ r.IsNoted zone
  · obtain ⟨zone, hzone, hnoted⟩ := hlink
    rw [get?_remarks_link hsets hzone hnoted, Option.getD_some, List.map_append, List.sum_append,
      Remarks.sum_count_map_reason, Finset.length_sort, Result.reasonCount, hzone]
    simp [Remark.count]
  · simp only [not_exists, not_and] at hlink
    rw [get?_remarks_own hlink, getD_own?_allNotes hsets, Remarks.sum_count_map_reason,
      Finset.length_sort, Result.reasonCount]
    cases hzone : r.zoneOf? name with
    | none => rfl
    | some zone =>
      rw [Option.elim_some, reasonsOf_of_not_isNoted (hlink zone hzone), Finset.card_empty,
        Nat.add_zero]

/-- **The remarks give as many reasons** as their names have, with those of their zones. -/
theorem count_remarks (hsets : r.notable.AreSets) :
    (Remarks.ofNotes r.allNotes r.links).count =
      ((Remarks.ofNotes r.allNotes r.links).names.map r.reasonCount).sum := by
  rw [Remarks.count_eq]
  exact congrArg List.sum (List.map_congr_left fun name _ => sum_count_remarks hsets name)

/-- The notes of a batch are put together without loss and without repetition. -/
structure Result.MergesTo (r merged : Result) (remarks : Remarks) : Prop where
  /-- Nothing but the notes changes. -/
  rest : merged = { r with notable := merged.notable }
  /-- A name is noted exactly if a stage has noted it. -/
  names : ∀ name, name ∈ merged.notable.names ↔ r.IsNoted name
  /-- It has the reasons of all stages, and none of them twice. -/
  reasons : ∀ name, merged.notable.reasonsOf name = r.reasonsOf name
  areSets : merged.notable.AreSets
  /-- There are remarks about the names that are noted and about the links to a zone that is. -/
  remarked : ∀ name, name ∈ remarks.names ↔
    r.IsNoted name ∨ ∃ zone, r.zoneOf? name = some zone ∧ r.IsNoted zone
  /-- Such a link shows its own reasons in ascending order, and then those of its zone. -/
  link : ∀ name zone, r.zoneOf? name = some zone → r.IsNoted zone → remarks.get? name =
    some ((r.reasonsOf name).sort.map .reason ++ [.ofZone zone (r.reasonsOf zone).sort])
  /-- Any other name shows its own reasons only. -/
  own : ∀ name ∈ remarks.names, (∀ zone, r.zoneOf? name = some zone → ¬ r.IsNoted zone) →
    remarks.get? name = some ((r.reasonsOf name).sort.map .reason)
  /-- The summary tells the number of names, and that of the reasons shown with them. -/
  summary : remarks.summary = [.info ("Zones: " ++ toString remarks.names.length ++
    "; Comments: " ++ toString (remarks.names.map r.reasonCount).sum)]
  /-- Put together once more, they are the same. -/
  again : merged.mergeNotes = (merged, remarks)

/-- **No reason is lost or repeated** when the notes of a batch are put together, and the remarks
show each link the reasons of its zone. -/
theorem Result.mergeNotes_mergesTo (hsets : r.notable.AreSets) :
    r.MergesTo r.mergeNotes.1 r.mergeNotes.2 where
  rest := rfl
  names _ := mem_names_allNotes
  reasons := reasonsOf_allNotes r
  areSets := areSets_allNotes hsets
  remarked _ := mem_names_remarks hsets
  link _ _ := get?_remarks_link hsets
  own name hname hnot := by
    have hnoted : r.IsNoted name := by
      rcases (mem_names_remarks hsets).1 hname with hnoted | ⟨zone, hzone, hnoted⟩
      · exact hnoted
      · exact absurd hnoted (hnot zone hzone)
    exact (get?_remarks_own hnot).trans (own?_allNotes hsets hnoted)
  summary := by
    have hcount : r.mergeNotes.2.count = (r.mergeNotes.2.names.map r.reasonCount).sum :=
      count_remarks hsets
    rw [Remarks.summary_eq, hcount]
  again := by
    show (({ r with notable := Result.allNotes { r with notable := r.allNotes } } : Result),
      Remarks.ofNotes (Result.allNotes { r with notable := r.allNotes }) r.links) = _
    rw [allNotes_allNotes]
    rfl

/-- A batch of a zone and two links to it. Two stages have noted the zone for the same reason, and
one of them a link. -/
def notedOslo : Result :=
  let link (name : String) : Timeline := ⟨some name, [], none, some "Oslo", none⟩
  let timelines := .ofList [("Bergen", link "Bergen"), ("Moss", link "Moss"),
    ("Oslo", ⟨some "Oslo", [], none, none, none⟩)]
  let rolls := "Calendar rollbacks"
  let start := Result.start ["Bergen", "Moss", "Oslo"] 3
    ⟨⟨(∅ : Notes).add "Oslo" "Unresolved name", ∅⟩, [], ∅, timelines⟩
  { start with
    validation := ((∅ : Notes).add "Oslo" "No reference transitions").add "Oslo" rolls
    rollback := ((∅ : Notes).add "Bergen" rolls).add "Oslo" rolls }

theorem mergeNotes_oslo : notedOslo.notable.AreSets ∧
    notedOslo.MergesTo notedOslo.mergeNotes.1 notedOslo.mergeNotes.2 ∧
    notedOslo.mergeNotes.2.get? "Bergen" = some [.reason "Calendar rollbacks",
      .ofZone "Oslo" ["Calendar rollbacks", "No reference transitions", "Unresolved name"]] := by
  have hsets : notedOslo.notable.AreSets := Notes.areSets_empty.add
  have hmerges := Result.mergeNotes_mergesTo hsets
  have hbergen : notedOslo.reasonsOf "Bergen" = ["Calendar rollbacks"].toFinset := by
    decide +kernel
  have hoslo : notedOslo.reasonsOf "Oslo" =
      ["Calendar rollbacks", "No reference transitions", "Unresolved name"].toFinset := by
    decide +kernel
  refine ⟨hsets, hmerges, ?_⟩
  rw [hmerges.link "Bergen" "Oslo" rfl (.inl (by decide)), hbergen, hoslo,
    (List.toFinset_sort (· ≤ ·) (by decide)).2 (by decide),
    (List.toFinset_sort (· ≤ ·) (by decide)).2 (by decide)]
  rfl

end Batch
end ZoneTables
