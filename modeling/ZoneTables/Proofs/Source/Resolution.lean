import ZoneTables.Proofs.Source.Links
import ZoneTables.Database
import Mathlib.Data.String.Basic

/-!
# What becomes of links

Links that can be resolved become aliases (`IsResolution`): exactly the links that are no zones,
each with the first zone on its way, which is met after at most as many steps as there are links
(`LeadsIn.le_size`). Where a link leads says what its alias is (`IsResolution.get?_eq_some_iff`),
and that depends only on what is found under the names. So the order in which zones and links came
does not matter (`IsResolution.get?_congr`). In a database with these aliases a name is known if
and only if it means a zone, the one that it leads to (`IsResolution.find_eq_ok_iff`).
-/

namespace ZoneTables

theorem Registry.get?_eq_of_perm {α : Type} {r r' : Registry α} (h : r'.entries.Perm r.entries) :
    r'.get? = r.get? := by
  funext name
  ext value
  rw [← mem_entries_iff, ← mem_entries_iff, h.mem_iff]

namespace Source

variable {isZone : String → Bool} {links aliases : Registry String} {name zone : String} {log : Log}

/-! ## How far it is -/

/-- The links on the way to a zone are distinct, so that it is not longer than there are links. -/
theorem LeadsIn.le_size {n : Nat} (h : LeadsIn isZone links.get? n name zone) :
    n ≤ links.size := by
  -- Each step is taken in the links that are left once the link of the step before is erased.
  induction n generalizing links name with
  | zero => exact Nat.zero_le _
  | succ n ih =>
    cases h with
    | next hname hlink h =>
      have hrest := ih (h.erase (.next hname hlink h) (Nat.lt_succ_self n))
      have hsize := Registry.size_erase_lt hlink
      omega

/-! ## The aliases -/

/-- The aliases are the links that are no zones, each with the zone that it leads to. -/
structure IsResolution (isZone : String → Bool) (links aliases : Registry String) : Prop where
  mem_names_iff : ∀ name, name ∈ aliases.names ↔ name ∈ links.names ∧ isZone name = false
  leadsTo : ∀ name zone, aliases.get? name = some zone → LeadsTo isZone links.get? name zone

theorem mem_names_of_resolveEach {entries : List (String × String)} {result : Registry String}
    (h : resolveEach isZone links entries aliases = (log, .ok result)) :
    name ∈ result.names ↔
      name ∈ aliases.names ∨ name ∈ entries.map Prod.fst ∧ isZone name = false := by
  induction entries generalizing aliases log with
  | nil =>
    cases h
    simp
  | cons e rest ih =>
    obtain ⟨other, target⟩ := e
    rw [List.map_cons, List.mem_cons]
    rw [resolveEach] at h
    split at h
    · rename_i hother
      rw [ih (Prod.ext rfl (Prod.mk.inj h).2)]
      have hne : isZone name = false → name ≠ other := by
        rintro hname rfl
        rw [hname] at hother
        cases hother
      tauto
    · rename_i hother
      split at h
      · cases (Prod.mk.inj h).2
      · rw [ih h, Registry.mem_names_iff, Registry.get?_put, Registry.mem_names_iff]
        by_cases hname : name = other
        · simp [hname, hother]
        · simp [hname]

/-- **Links that can be resolved are resolved to where they lead.** -/
theorem isResolution_of_resolveLinks (h : resolveLinks isZone links = (log, .ok aliases)) :
    IsResolution isZone links aliases where
  mem_names_iff name := by
    have hempty : name ∉ (∅ : Registry String).names := (Registry.not_mem_names_iff _ _).2 rfl
    rw [mem_names_of_resolveEach h, or_iff_right hempty]
    exact Iff.rfl
  leadsTo name zone hzone := (leadsTo_of_resolveLinks h hzone).2

namespace IsResolution

variable (h : IsResolution isZone links aliases)
include h

theorem get?_eq_some_iff : aliases.get? name = some zone ↔
    isZone name = false ∧ LeadsTo isZone links.get? name zone := by
  constructor
  · intro hzone
    have hmem := (h.mem_names_iff name).1 (Registry.mem_names_of_get? hzone)
    exact ⟨hmem.2, h.leadsTo name zone hzone⟩
  · rintro ⟨hname, n, hleads⟩
    have hlink : name ∈ links.names := by
      cases hleads with
      | here hzone => simp [hname] at hzone
      | next _ hlink _ => exact Registry.mem_names_of_get? hlink
    have hmem := (h.mem_names_iff name).2 ⟨hlink, hname⟩
    obtain ⟨found, hfound⟩ := Option.isSome_iff_exists.1 ((Registry.mem_names_iff _ _).1 hmem)
    obtain ⟨m, hleads'⟩ := h.leadsTo name found hfound
    rw [hfound, (hleads.unique hleads').2]

theorem get?_congr {links' aliases' : Registry String} (hlinks : links'.get? = links.get?)
    (h' : IsResolution isZone links' aliases') : aliases'.get? = aliases.get? := by
  funext name
  ext zone
  rw [h'.get?_eq_some_iff, h.get?_eq_some_iff, hlinks]

end IsResolution

/-! ## The errors -/

theorem not_leadsTo_of_resolveEach {entries : List (String × String)} {e : UnresolvedLink}
    (hentries : ∀ e ∈ entries, links.get? e.1 = some e.2)
    (h : resolveEach isZone links entries aliases = (log, .error e)) :
    e.name ∈ entries.map Prod.fst ∧ isZone e.name = false ∧
      ∀ zone, ¬ LeadsTo isZone links.get? e.name zone := by
  induction entries generalizing aliases log with
  | nil => cases (Prod.mk.inj h).2
  | cons entry rest ih =>
    obtain ⟨name, target⟩ := entry
    obtain ⟨hlink, hrest⟩ := List.forall_mem_cons.1 hentries
    rw [List.map_cons, List.mem_cons]
    rw [resolveEach] at h
    split at h
    · obtain ⟨hmem, hnot⟩ := ih hrest (Prod.ext rfl (Prod.mk.inj h).2)
      exact ⟨.inr hmem, hnot⟩
    · rename_i hname
      have hname : isZone name = false := by simpa using hname
      split at h
      · rename_i error herror
        obtain rfl := Except.error.inj (Prod.mk.inj h).2
        obtain rfl : error.name = name := by
          rw [resolveLink] at herror
          cases hfollow : followLinks isZone (links.erase name) target with
          | error last =>
            rw [hfollow] at herror
            cases herror
            rfl
          | ok zone =>
            rw [hfollow] at herror
            cases herror
        refine ⟨.inl rfl, hname, fun zone hleads => ?_⟩
        rw [← resolveLink_eq_ok_iff hname hlink, herror] at hleads
        cases hleads
      · obtain ⟨hmem, hnot⟩ := ih hrest h
        exact ⟨.inr hmem, hnot⟩

/-- **The links cannot be resolved if and only if one that is no zone leads to none.** -/
theorem resolveLinks_isError_iff :
    (∃ log e, resolveLinks isZone links = (log, .error e)) ↔
      ∃ name ∈ links.names, isZone name = false ∧ ∀ zone, ¬ LeadsTo isZone links.get? name zone := by
  constructor
  · rintro ⟨log, e, h⟩
    exact ⟨e.name, not_leadsTo_of_resolveEach
      (fun e he => (Registry.mem_entries_iff links e.1 e.2).1 he) h⟩
  · rintro ⟨name, hmem, hname, hnot⟩
    cases hresult : resolveLinks isZone links with
    | mk log result =>
      cases result with
      | error e => exact ⟨log, e, rfl⟩
      | ok aliases =>
        obtain ⟨zone, hzone⟩ := resolveLinks_isOk_iff.1 ⟨log, aliases, hresult⟩ name hmem hname
        exact absurd hzone (hnot zone)

end Source

/-! ## The database -/

theorem pairwise_sortTexts {texts : List String} (h : texts.Nodup) :
    (sortTexts texts).Pairwise (· < ·) := by
  have hsorted : (sortTexts texts).Pairwise (· ≤ ·) := by
    refine (List.pairwise_mergeSort ?_ ?_ texts).imp ?_
    · intro a b c hab hbc
      exact decide_eq_true (le_trans (of_decide_eq_true hab) (of_decide_eq_true hbc))
    · intro a b
      simpa using le_total a b
    · intro a b hab
      exact of_decide_eq_true hab
  have hnodup : (sortTexts texts).Nodup := (List.mergeSort_perm texts _).nodup_iff.2 h
  exact hsorted.imp₂ (fun a b hle hne => lt_of_le_of_ne hle hne) hnodup

namespace Database

variable {db : Database} {name zone : String}

theorem mem_names_iff : name ∈ db.names ↔ name ∈ db.zones.names ∨ name ∈ db.aliases.names := by
  rw [names, sortTexts, List.mem_mergeSort, List.mem_append]

theorem exists_find_eq_ok_iff : (∃ lines, db.find name = .ok (zone, lines)) ↔
    (db.aliases.get? name).getD name = zone ∧ db.zones.contains zone = true := by
  unfold find Registry.contains
  constructor
  · rintro ⟨lines, h⟩
    dsimp only at h
    split at h
    · rename_i found hfound
      obtain ⟨rfl, -⟩ := Prod.mk.inj (Except.ok.inj h)
      exact ⟨rfl, Option.isSome_of_eq_some hfound⟩
    · cases h
  · rintro ⟨rfl, h⟩
    obtain ⟨lines, hlines⟩ := Option.isSome_iff_exists.1 h
    exact ⟨lines, by simp only [hlines]⟩

end Database

namespace Source

variable {links : Registry String} {name zone : String} {db : Database}

namespace IsResolution

variable (h : IsResolution db.zones.contains links db.aliases)
include h

theorem pairwise_names : db.names.Pairwise (· < ·) := by
  apply pairwise_sortTexts
  refine List.nodup_append.2 ⟨db.zones.names_nodup, db.aliases.names_nodup, ?_⟩
  rintro a hzone b halias rfl
  have hnot := ((h.mem_names_iff a).1 halias).2
  rw [Registry.contains, (Registry.mem_names_iff _ _).1 hzone] at hnot
  cases hnot

/-- **A name means the zone that it leads to.** -/
theorem find_eq_ok_iff :
    (∃ lines, db.find name = .ok (zone, lines)) ↔ LeadsTo db.zones.contains links.get? name zone := by
  rw [Database.exists_find_eq_ok_iff]
  cases hname : db.zones.contains name with
  | true =>
    have hnone : db.aliases.get? name = none := by
      rw [← Registry.not_mem_names_iff, h.mem_names_iff, hname]
      simp
    rw [hnone, Option.getD_none]
    constructor
    · rintro ⟨rfl, hzone⟩
      exact ⟨0, .here hzone⟩
    · rintro ⟨n, hleads⟩
      obtain ⟨-, rfl⟩ := hleads.unique (.here hname)
      exact ⟨rfl, hname⟩
  | false =>
    constructor
    · rintro ⟨hget, hzone⟩
      cases halias : db.aliases.get? name with
      | none =>
        rw [halias, Option.getD_none] at hget
        rw [hget, hzone] at hname
        cases hname
      | some found =>
        rw [halias, Option.getD_some] at hget
        exact hget ▸ h.leadsTo name found halias
    · intro hleads
      rw [h.get?_eq_some_iff.2 ⟨hname, hleads⟩, Option.getD_some]
      exact ⟨rfl, isZone_of_leadsTo hleads⟩

/-- **The names of the database are those that mean a zone.** -/
theorem exists_find_iff : (∃ zone lines, db.find name = .ok (zone, lines)) ↔ name ∈ db.names := by
  rw [exists_congr fun zone => h.find_eq_ok_iff, Database.mem_names_iff]
  constructor
  · rintro ⟨zone, hleads⟩
    cases hname : db.zones.contains name with
    | true => exact .inl ((Registry.mem_names_iff _ _).2 hname)
    | false => exact .inr (Registry.mem_names_of_get? (h.get?_eq_some_iff.2 ⟨hname, hleads⟩))
  · rintro (hzone | halias)
    · exact ⟨name, 0, .here ((Registry.mem_names_iff _ _).1 hzone)⟩
    · obtain ⟨zone, hzone⟩ := Option.isSome_iff_exists.1 ((Registry.mem_names_iff _ _).1 halias)
      exact ⟨zone, h.leadsTo name zone hzone⟩

end IsResolution

/-! ## All together -/

/-- **Links cannot be resolved exactly if one that is no zone leads to none. Otherwise the aliases
are the links that are no zones, each with the first zone on its way, whatever the order in which
zones and links came; and the database has its names in ascending order, those being the names
that mean a zone.** -/
theorem resolveLinks_spec (zones : Registry (List ZoneLine)) (links : Registry String) :
    ((∃ log e, resolveLinks zones.contains links = (log, .error e)) ↔
      ∃ name ∈ links.names, zones.contains name = false ∧
        ∀ zone, ¬ LeadsTo zones.contains links.get? name zone) ∧
    ∀ log aliases, resolveLinks zones.contains links = (log, .ok aliases) →
      (∀ name, name ∈ aliases.names ↔ name ∈ links.names ∧ zones.contains name = false) ∧
      (∀ name zone, aliases.get? name = some zone →
        ∃ n ≤ links.size, LeadsIn zones.contains links.get? n name zone) ∧
      (∀ (zones' : Registry (List ZoneLine)) (links' : Registry String),
        zones'.entries.Perm zones.entries → links'.entries.Perm links.entries →
        ∃ log' aliases', resolveLinks zones'.contains links' = (log', .ok aliases') ∧
          aliases'.get? = aliases.get?) ∧
      ∀ db : Database, db.zones = zones → db.aliases = aliases →
        db.names.Pairwise (· < ·) ∧
        ∀ name, (∃ zone lines, db.find name = .ok (zone, lines)) ↔ name ∈ db.names := by
  refine ⟨resolveLinks_isError_iff, fun log aliases haliases => ?_⟩
  have h := isResolution_of_resolveLinks haliases
  refine ⟨h.mem_names_iff, fun name zone hzone => ?_, fun zones' links' hzones hlinks => ?_, ?_⟩
  · obtain ⟨n, hleads⟩ := h.leadsTo name zone hzone
    exact ⟨n, hleads.le_size, hleads⟩
  · have hget := Registry.get?_eq_of_perm hlinks
    have hcontains : zones'.contains = zones.contains := by
      funext name
      rw [Registry.contains, Registry.contains, Registry.get?_eq_of_perm hzones]
    have hnames (name : String) : name ∈ links'.names ↔ name ∈ links.names :=
      (hlinks.map Prod.fst).mem_iff
    have hok : ∃ log' aliases', resolveLinks zones'.contains links' = (log', .ok aliases') := by
      rw [hcontains, resolveLinks_isOk_iff, hget]
      intro name hname
      exact resolveLinks_isOk_iff.1 ⟨log, aliases, haliases⟩ name ((hnames name).1 hname)
    obtain ⟨log', aliases', haliases'⟩ := hok
    have h' := isResolution_of_resolveLinks haliases'
    rw [hcontains] at h'
    exact ⟨log', aliases', haliases', h.get?_congr hget h'⟩
  · rintro db rfl rfl
    exact ⟨h.pairwise_names, fun name => h.exists_find_iff⟩

end Source
end ZoneTables
