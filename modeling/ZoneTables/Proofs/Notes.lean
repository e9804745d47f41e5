import Mathlib.Data.Finset.Sort
import Mathlib.Data.String.Basic
import ZoneTables.Notes

/-!
# Reasons that are noted

Notes are told by their names and, under each name, by the set of its reasons (`Notes.reasonsOf`).
Merging adds names to names and reasons to reasons (`mem_names_merge`, `reasonsOf_merge`), keeps the
reasons of a name from being repeated (`AreSets.merge`), and leaves notes alone that have all that
is added (`merge_eq_self`). All of these come from what is found under one name (`get?_merge`).
-/

namespace ZoneTables.Notes

variable {notes new : Notes} {name reason other : String} {reasons added : List String}

/-! ## Names and reasons -/

/-- A reason is noted of a name. -/
def Tells (notes : Notes) (name reason : String) : Prop :=
  ∃ reasons, notes.get? name = some reasons ∧ reason ∈ reasons

/-- The same names are noted, each for the same set of reasons. -/
structure SameAs (m n : Notes) : Prop where
  names : ∀ name, name ∈ m.names ↔ name ∈ n.names
  tells : ∀ name reason, m.Tells name reason ↔ n.Tells name reason

/-- The reasons that are noted of a name. -/
def reasonsOf (notes : Notes) (name : String) : Finset String :=
  ((notes.get? name).getD []).toFinset

/-- No reason is noted of a name twice. -/
def AreSets (notes : Notes) : Prop :=
  ∀ name reasons, notes.get? name = some reasons → reasons.Nodup

theorem reasonsOf_of_get? (h : notes.get? name = some reasons) :
    notes.reasonsOf name = reasons.toFinset := by
  rw [reasonsOf, h, Option.getD_some]

theorem reasonsOf_of_not_mem (h : name ∉ notes.names) : notes.reasonsOf name = ∅ := by
  rw [reasonsOf, (Registry.not_mem_names_iff _ _).1 h]
  rfl

theorem AreSets.nodup_getD (h : notes.AreSets) (name : String) :
    ((notes.get? name).getD []).Nodup := by
  cases hname : notes.get? name with
  | none => exact List.nodup_nil
  | some reasons => exact h name reasons hname

theorem not_tells_empty (name reason : String) : ¬ Tells ∅ name reason := by
  rintro ⟨reasons, hreasons, -⟩
  cases hreasons

theorem areSets_empty : AreSets ∅ := by
  intro name reasons hreasons
  cases hreasons

/-- **Reasons in ascending order** are the sorted set. -/
theorem AreSets.mergeSort_eq (h : notes.AreSets) (hreasons : notes.get? name = some reasons) :
    reasons.mergeSort (· ≤ ·) = (notes.reasonsOf name).sort := by
  have hperm : (reasons.mergeSort (· ≤ ·)).Perm reasons := List.mergeSort_perm _ _
  have hnodup : (reasons.mergeSort (· ≤ ·)).Nodup := hperm.nodup_iff.2 (h name reasons hreasons)
  rw [reasonsOf_of_get? hreasons, ← List.toFinset_eq_of_perm _ _ hperm]
  exact ((List.toFinset_sort (· ≤ ·) hnodup).2 (List.pairwise_mergeSort' (· ≤ ·) reasons)).symm

/-! ## One more reason -/

theorem mem_insertReason :
    other ∈ insertReason reasons reason ↔ other = reason ∨ other ∈ reasons := by
  unfold insertReason
  split
  · rename_i hmem
    constructor
    · exact Or.inr
    · rintro (rfl | h)
      · exact hmem
      · exact h
  · rw [List.mem_append, List.mem_singleton, or_comm]

theorem nodup_insertReason (h : reasons.Nodup) : (insertReason reasons reason).Nodup := by
  unfold insertReason
  split
  · exact h
  · rename_i hmem
    rw [← List.concat_eq_append]
    exact h.concat hmem

theorem isSome_get?_add (notes : Notes) (name reason other : String) :
    ((notes.add name reason).get? other).isSome ↔ other = name ∨ (notes.get? other).isSome := by
  rw [add, Registry.update, Registry.get?_put]
  split
  · simp [*]
  · simp [*]

theorem tells_add (notes : Notes) (name reason other r : String) :
    (notes.add name reason).Tells other r ↔ other = name ∧ r = reason ∨ notes.Tells other r := by
  unfold Tells add Registry.update
  simp only [Registry.get?_put]
  split
  · rename_i heq
    subst heq
    cases notes.get? other <;> simp [mem_insertReason]
  · rename_i hne
    simp [hne]

theorem AreSets.add (h : notes.AreSets) : (notes.add name reason).AreSets := by
  intro other reasons hreasons
  rw [Notes.add, Registry.update, Registry.get?_put] at hreasons
  split at hreasons
  · obtain rfl := Option.some.inj hreasons
    exact nodup_insertReason (h.nodup_getD name)
  · exact h other reasons hreasons

/-! ## Merging -/

theorem mem_foldl_insertReason :
    other ∈ added.foldl insertReason reasons ↔ other ∈ reasons ∨ other ∈ added := by
  induction added generalizing reasons with
  | nil => simp
  | cons reason added ih =>
    rw [List.foldl_cons, ih, mem_insertReason, List.mem_cons, or_comm (a := other = reason),
      or_assoc]

theorem nodup_foldl_insertReason (h : reasons.Nodup) :
    (added.foldl insertReason reasons).Nodup :=
  List.foldlRecOn added insertReason h fun _ hnodup _ _ => nodup_insertReason hnodup

theorem foldl_insertReason_of_subset (h : added ⊆ reasons) :
    added.foldl insertReason reasons = reasons :=
  List.foldlRecOn (motive := (· = reasons)) added insertReason rfl fun old heq reason hreason => by
    subst heq
    exact if_pos (h hreason)

/-- **What is found in merged notes** under a name: the old reasons, then those that are new. -/
theorem get?_merge (notes new : Notes) (name : String) :
    (notes.merge new).get? name = (new.get? name).elim (notes.get? name) fun added =>
      some (added.foldl insertReason ((notes.get? name).getD [])) := by
  refine Registry.get?_foldl
    (g := fun added old => some (added.foldl insertReason (old.getD []))) ?_ new.nodup notes name
  intro r name added other
  exact Registry.get?_put ..

theorem mem_names_merge :
    name ∈ (notes.merge new).names ↔ name ∈ notes.names ∨ name ∈ new.names := by
  simp only [Registry.mem_names_iff, get?_merge]
  cases new.get? name with
  | none => simp
  | some added => simp

theorem reasonsOf_merge (notes new : Notes) (name : String) :
    (notes.merge new).reasonsOf name = notes.reasonsOf name ∪ new.reasonsOf name := by
  ext reason
  simp only [reasonsOf, get?_merge, Finset.mem_union, List.mem_toFinset]
  cases new.get? name with
  | none => simp
  | some added => exact mem_foldl_insertReason

theorem AreSets.merge (h : notes.AreSets) (new : Notes) : (notes.merge new).AreSets := by
  intro name reasons hreasons
  rw [get?_merge] at hreasons
  cases hnew : new.get? name with
  | none =>
    rw [hnew] at hreasons
    exact h name reasons hreasons
  | some added =>
    rw [hnew] at hreasons
    obtain rfl := Option.some.inj hreasons
    exact nodup_foldl_insertReason (h.nodup_getD name)

/-- **Notes that have all that is added are left alone.** -/
theorem merge_eq_self (hnames : ∀ name ∈ new.names, name ∈ notes.names)
    (hreasons : ∀ name, new.reasonsOf name ⊆ notes.reasonsOf name) : notes.merge new = notes := by
  refine List.foldlRecOn (motive := (· = notes)) new.entries _ rfl ?_
  rintro merged heq ⟨name, added⟩ hmem
  subst heq
  have hadded := (Registry.mem_entries_iff new name added).1 hmem
  obtain ⟨old, hold⟩ := Option.isSome_iff_exists.1
    ((Registry.mem_names_iff _ _).1 (hnames name (Registry.mem_names_of_get? hadded)))
  have hsubset : added ⊆ old := by
    intro reason hreason
    have hmem := hreasons name
    rw [reasonsOf_of_get? hadded, reasonsOf_of_get? hold] at hmem
    exact List.mem_toFinset.1 (hmem (List.mem_toFinset.2 hreason))
  apply Registry.put_eq_self
  rw [hold]
  exact congrArg some (foldl_insertReason_of_subset hsubset).symm

end ZoneTables.Notes
