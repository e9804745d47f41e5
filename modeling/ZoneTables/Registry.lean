/-!
# Registries

A registry holds values under names. The names keep the order in which they first came: a value
put under a name that is there already takes the place of the old one.
-/

namespace ZoneTables

/-- Values under distinct names, in the order in which the names first came. -/
structure Registry (α : Type) where
  entries : List (String × α)
  nodup : (entries.map Prod.fst).Nodup

namespace Registry

variable {α β : Type}

def empty : Registry α := ⟨[], by simp⟩

instance : EmptyCollection (Registry α) := ⟨empty⟩

instance : Inhabited (Registry α) := ⟨∅⟩

def names (r : Registry α) : List String := r.entries.map Prod.fst

def size (r : Registry α) : Nat := r.entries.length

def get? (r : Registry α) (name : String) : Option α := r.entries.lookup name

def contains (r : Registry α) (name : String) : Bool := (r.get? name).isSome

/-- Entries with `value` under `name`, in the place of the old value or at the end. -/
def putEntry (name : String) (value : α) : List (String × α) → List (String × α)
  | [] => [(name, value)]
  | (n, v) :: r => if n = name then (name, value) :: r else (n, v) :: putEntry name value r

theorem map_fst_putEntry (name : String) (value : α) (es : List (String × α)) :
    (putEntry name value es).map Prod.fst =
      if name ∈ es.map Prod.fst then es.map Prod.fst else es.map Prod.fst ++ [name] := by
  induction es with
  | nil => simp [putEntry]
  | cons e es ih =>
    obtain ⟨n, v⟩ := e
    by_cases h : n = name
    · simp [putEntry, h]
    · have h' : ¬ name = n := fun e => h e.symm
      simp only [putEntry, h, if_false, List.map_cons, ih, List.mem_cons, h', false_or]
      split <;> simp_all

def put (r : Registry α) (name : String) (value : α) : Registry α where
  entries := putEntry name value r.entries
  nodup := by
    rw [map_fst_putEntry]
    split
    · exact r.nodup
    · rw [List.nodup_append]
      refine ⟨r.nodup, by simp, fun a ha b hb => ?_⟩
      rw [List.mem_singleton] at hb
      rintro rfl
      simp_all

/-- The value under `name` replaced by what `f` makes of it. -/
def update (r : Registry α) (name : String) (f : Option α → α) : Registry α :=
  r.put name (f (r.get? name))

/-- The entries without the one under `name`. -/
def erase (r : Registry α) (name : String) : Registry α where
  entries := r.entries.filter (·.1 != name)
  nodup := r.nodup.sublist (List.filter_sublist.map _)

def ofList (entries : List (String × α)) : Registry α :=
  entries.foldl (fun r (name, value) => r.put name value) ∅

/-- The entries in the order of their names. -/
def sorted (r : Registry α) : List (String × α) :=
  r.entries.mergeSort fun a b => a.1 ≤ b.1

theorem names_nodup (r : Registry α) : r.names.Nodup := r.nodup

theorem lookup_cons (name other : String) (value : α) (es : List (String × α)) :
    ((name, value) :: es).lookup other = if other = name then some value else es.lookup other := by
  by_cases h : other = name
  · simp [h]
  · have h' : (other == name) = false := by simp [h]
    simp [List.lookup_cons, h, h']

theorem lookup_putEntry (name other : String) (value : α) (es : List (String × α)) :
    (putEntry name value es).lookup other =
      if other = name then some value else es.lookup other := by
  induction es with
  | nil => simp only [putEntry, lookup_cons]
  | cons e es ih =>
    obtain ⟨n, v⟩ := e
    simp only [putEntry]
    split <;> simp only [lookup_cons, ih] <;> grind

@[simp] theorem get?_put (r : Registry α) (name other : String) (value : α) :
    (r.put name value).get? other = if other = name then some value else r.get? other :=
  lookup_putEntry name other value r.entries

@[simp] theorem get?_empty (name : String) : (∅ : Registry α).get? name = none := rfl

theorem mem_names_iff (r : Registry α) (name : String) :
    name ∈ r.names ↔ (r.get? name).isSome := by
  obtain ⟨es, h⟩ := r
  simp only [names, get?]
  clear h
  induction es with
  | nil => simp
  | cons e es ih =>
    obtain ⟨n, v⟩ := e
    rw [lookup_cons, List.map_cons, List.mem_cons, ih]
    by_cases hn : name = n <;> simp [hn]

theorem not_mem_names_iff (r : Registry α) (name : String) :
    name ∉ r.names ↔ r.get? name = none := by
  rw [mem_names_iff, Option.not_isSome_iff_eq_none]

theorem mem_names_of_get? {r : Registry α} {name : String} {value : α}
    (h : r.get? name = some value) : name ∈ r.names := by
  rw [mem_names_iff, h]
  rfl

@[simp] theorem get?_erase (r : Registry α) (name other : String) :
    (r.erase name).get? other = if other = name then none else r.get? other := by
  obtain ⟨es, h⟩ := r
  simp only [erase, get?]
  clear h
  induction es with
  | nil => simp
  | cons e es ih =>
    obtain ⟨n, v⟩ := e
    by_cases hn : n = name
    · subst hn
      simp only [List.filter_cons, bne_self_eq_false, Bool.false_eq_true, if_false, ih, lookup_cons]
      split <;> rfl
    · simp only [List.filter_cons, bne_iff_ne, ne_eq, hn, not_false_iff, if_true, lookup_cons, ih]
      grind

theorem mem_entries_iff (r : Registry α) (name : String) (value : α) :
    (name, value) ∈ r.entries ↔ r.get? name = some value := by
  obtain ⟨es, h⟩ := r
  simp only [get?]
  induction es with
  | nil => simp
  | cons e es ih =>
    obtain ⟨n, v⟩ := e
    obtain ⟨hn, hes⟩ := List.nodup_cons.1 h
    rw [lookup_cons, List.mem_cons, ih hes]
    by_cases hname : name = n
    · subst hname
      have hnot : (name, value) ∉ es := fun hmem => hn (List.mem_map.2 ⟨_, hmem, rfl⟩)
      simp [← ih hes, hnot, eq_comm]
    · simp [hname]

theorem putEntry_of_not_mem {name : String} {es : List (String × α)}
    (h : name ∉ es.map Prod.fst) (value : α) : putEntry name value es = es ++ [(name, value)] := by
  induction es with
  | nil => rfl
  | cons e es ih =>
    obtain ⟨n, v⟩ := e
    simp only [List.map_cons, List.mem_cons, not_or] at h
    rw [putEntry, if_neg (Ne.symm h.1), ih h.2]
    rfl

theorem entries_put {r : Registry α} {name : String} (h : r.get? name = none) (value : α) :
    (r.put name value).entries = r.entries ++ [(name, value)] := by
  apply putEntry_of_not_mem
  intro hmem
  have hsome := (mem_names_iff r name).1 hmem
  rw [h] at hsome
  cases hsome

theorem mem_sorted_iff (r : Registry α) (name : String) (value : α) :
    (name, value) ∈ r.sorted ↔ r.get? name = some value := by
  rw [sorted, List.mem_mergeSort, mem_entries_iff]

theorem nodup_sorted (r : Registry α) : (r.sorted.map Prod.fst).Nodup :=
  ((List.mergeSort_perm _ _).map Prod.fst).nodup_iff.2 r.nodup

theorem mem_map_sorted_iff (r : Registry α) (name : String) :
    name ∈ r.sorted.map Prod.fst ↔ name ∈ r.names := by
  simp only [List.mem_map, sorted, List.mem_mergeSort, names]

theorem lookup_sorted (r : Registry α) (name : String) : r.sorted.lookup name = r.get? name := by
  let other : Registry α := ⟨r.sorted, r.nodup_sorted⟩
  show other.get? name = r.get? name
  refine Option.ext fun value => ?_
  rw [← other.mem_entries_iff]
  exact r.mem_sorted_iff name value

theorem eq_of_entries {r r' : Registry α} (h : r.entries = r'.entries) : r = r' := by
  cases r
  cases r'
  cases h
  rfl

theorem putEntry_eq_self {name : String} {value : α} {es : List (String × α)}
    (h : es.lookup name = some value) : putEntry name value es = es := by
  induction es with
  | nil => cases h
  | cons e es ih =>
    obtain ⟨n, v⟩ := e
    rw [lookup_cons] at h
    rw [putEntry]
    split at h
    · rename_i heq
      rw [if_pos heq.symm, heq, Option.some.inj h]
    · rename_i hne
      rw [if_neg (Ne.symm hne), ih h]

theorem put_eq_self {r : Registry α} {name : String} {value : α}
    (h : r.get? name = some value) : r.put name value = r :=
  eq_of_entries (putEntry_eq_self h)

/-- A step that changes nothing keeps what is found under a name, and under any other. -/
theorem get?_eq_ite (r : Registry α) (name other : String) :
    r.get? other = if other = name then r.get? name else r.get? other := by
  split
  · rename_i heq
    rw [heq]
  · rfl

/-- **What is found after many steps**, each of which changes what is found under a name of its
own. -/
theorem get?_foldl {step : Registry α → String × β → Registry α} {g : β → Option α → Option α}
    (hstep : ∀ r name b other, (step r (name, b)).get? other =
      if other = name then g b (r.get? name) else r.get? other)
    {es : List (String × β)} (hes : (es.map Prod.fst).Nodup) (r : Registry α) (name : String) :
    (es.foldl step r).get? name =
      (es.lookup name).elim (r.get? name) fun b => g b (r.get? name) := by
  induction es generalizing r with
  | nil => rfl
  | cons e es ih =>
    obtain ⟨n, b⟩ := e
    obtain ⟨hn, hrest⟩ := List.nodup_cons.1 hes
    rw [List.foldl_cons, ih hrest, hstep, lookup_cons]
    split
    · rename_i heq
      subst heq
      have hnone : es.lookup name = none := (not_mem_names_iff ⟨es, hrest⟩ name).1 hn
      rw [hnone]
      rfl
    · rfl

theorem get?_ofList_iff {es : List (String × α)} (h : (es.map Prod.fst).Nodup) (name : String)
    (value : α) : (ofList es).get? name = some value ↔ (name, value) ∈ es := by
  have hget : (ofList es).get? name = (es.lookup name).elim none fun value => some value :=
    get?_foldl (g := fun value _ => some value) (fun _ _ _ _ => get?_put ..) h ∅ name
  have hlookup : (ofList es).get? name = es.lookup name := by
    rw [hget]
    cases es.lookup name <;> rfl
  rw [hlookup]
  exact (mem_entries_iff ⟨es, h⟩ name value).symm

theorem size_erase_lt {r : Registry α} {name : String} {value : α} (h : r.get? name = some value) :
    (r.erase name).size < r.size := by
  have hm : name ∈ r.names := (mem_names_iff r name).2 (by simp [h])
  obtain ⟨e, he, rfl⟩ := List.mem_map.1 hm
  exact List.length_filter_lt_length_iff_exists.2 ⟨e, he, by simp⟩

end Registry
end ZoneTables
