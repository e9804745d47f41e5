import ZoneTables.Source.Link

/-!
# Where links lead

From a name the links lead on to the first zone on their way (`LeadsIn`), and to one zone only
(`LeadsIn.unique`). `followLinks` takes away each link that it has taken. That keeps no zone from
being reached (`LeadsIn.erase`), since a way that came back to a name would be longer than itself,
so it finds exactly the zones that links lead to (`followLinks_eq_ok_iff`).
-/

namespace ZoneTables.Source

/-- Links lead from a name to the first zone on their way, in so many steps. -/
inductive LeadsIn (isZone : String → Bool) (link? : String → Option String) :
    Nat → String → String → Prop
  | here {zone : String} : isZone zone = true → LeadsIn isZone link? 0 zone zone
  | next {n : Nat} {name target zone : String} : isZone name = false →
      link? name = some target → LeadsIn isZone link? n target zone →
      LeadsIn isZone link? (n + 1) name zone

/-- Links lead from a name to a zone. -/
def LeadsTo (isZone : String → Bool) (link? : String → Option String) (name zone : String) : Prop :=
  ∃ n, LeadsIn isZone link? n name zone

variable {isZone : String → Bool} {links : Registry String} {name other target zone : String}

theorem isZone_of_leadsTo (h : LeadsTo isZone links.get? name zone) : isZone zone = true := by
  obtain ⟨n, h⟩ := h
  induction h with
  | here hzone => exact hzone
  | next _ _ _ ih => exact ih

theorem LeadsIn.unique {n m : Nat} {zone' : String} (h : LeadsIn isZone links.get? n name zone)
    (h' : LeadsIn isZone links.get? m name zone') : n = m ∧ zone = zone' := by
  induction h generalizing m with
  | here hzone =>
    cases h' with
    | here => exact ⟨rfl, rfl⟩
    | next hname => simp [hzone] at hname
  | next hname hlink _ ih =>
    cases h' with
    | here hzone => simp [hname] at hzone
    | next _ hlink' h' =>
      obtain rfl := Option.some.inj (hlink.symm.trans hlink')
      obtain ⟨rfl, rfl⟩ := ih h'
      exact ⟨rfl, rfl⟩

/-- A way does not take the link of a name that is farther from its zone. -/
theorem LeadsIn.erase {n m : Nat} {zone' : String} (h : LeadsIn isZone links.get? n name zone)
    (hother : LeadsIn isZone links.get? m other zone') (hlt : n < m) :
    LeadsIn isZone (links.erase other).get? n name zone := by
  induction h with
  | here hzone => exact .here hzone
  | next hname hlink h ih =>
    refine .next hname ?_ (ih (by omega))
    rw [Registry.get?_erase, if_neg, hlink]
    rintro rfl
    have := (hother.unique (.next hname hlink h)).1
    omega

theorem LeadsIn.of_erase {n : Nat} (h : LeadsIn isZone (links.erase other).get? n name zone) :
    LeadsIn isZone links.get? n name zone := by
  induction h with
  | here hzone => exact .here hzone
  | next hname hlink _ ih =>
    refine .next hname ?_ ih
    rw [Registry.get?_erase] at hlink
    split at hlink
    · cases hlink
    · exact hlink

theorem leadsTo_erase_iff (hname : isZone name = false) (hlink : links.get? name = some target) :
    LeadsTo isZone (links.erase name).get? target zone ↔ LeadsTo isZone links.get? name zone := by
  constructor
  · rintro ⟨n, h⟩
    exact ⟨n + 1, .next hname hlink h.of_erase⟩
  · rintro ⟨m, h⟩
    cases h with
    | here hzone => simp [hname] at hzone
    | next hname' hlink' h =>
      obtain rfl := Option.some.inj (hlink.symm.trans hlink')
      exact ⟨_, h.erase (.next hname hlink h) (Nat.lt_succ_self _)⟩

/-- **What is found at the end of a chain of links is where they lead.** -/
theorem followLinks_eq_ok_iff :
    followLinks isZone links target = .ok zone ↔ LeadsTo isZone links.get? target zone := by
  fun_induction followLinks isZone links target with
  | case1 links target hzone =>
    constructor
    · intro h
      cases h
      exact ⟨0, .here hzone⟩
    · rintro ⟨n, h⟩
      rw [((LeadsIn.here hzone).unique h).2]
  | case2 links target hzone hnone =>
    constructor
    · intro h
      cases h
    · rintro ⟨n, h⟩
      cases h with
      | here hzone' => exact absurd hzone' hzone
      | next _ hlink => simp [hnone] at hlink
  | case3 links target hzone next hlink ih =>
    rw [ih]
    exact leadsTo_erase_iff (by simpa using hzone) hlink

theorem resolveLink_eq_ok_iff (hname : isZone name = false) (hlink : links.get? name = some target) :
    resolveLink isZone links name target = .ok zone ↔ LeadsTo isZone links.get? name zone := by
  rw [← leadsTo_erase_iff hname hlink, ← followLinks_eq_ok_iff, resolveLink]
  cases followLinks isZone (links.erase name) target with
  | error e =>
    constructor
    · intro h
      cases h
    · intro h
      cases h
  | ok found =>
    constructor
    · intro h
      cases h
      rfl
    · intro h
      cases h
      rfl

theorem resolveEach_isOk_iff {entries : List (String × String)}
    (hentries : ∀ e ∈ entries, links.get? e.1 = some e.2) (aliases : Registry String) :
    (∃ log result, resolveEach isZone links entries aliases = (log, .ok result)) ↔
      ∀ e ∈ entries, isZone e.1 = false → ∃ zone, LeadsTo isZone links.get? e.1 zone := by
  induction entries generalizing aliases with
  | nil => simp [resolveEach]
  | cons e rest ih =>
    obtain ⟨name, target⟩ := e
    obtain ⟨hlink, hrest⟩ := List.forall_mem_cons.1 hentries
    rw [List.forall_mem_cons, resolveEach]
    by_cases hname : isZone name = true
    · rw [if_pos hname, ← ih hrest aliases]
      simp only [hname, Bool.true_eq_false, false_implies, true_and]
      cases resolveEach isZone links rest aliases with
      | mk log result => cases result <;> simp
    · have hname : isZone name = false := by simpa using hname
      rw [if_neg (by simp [hname])]
      simp only [hname, true_implies, ← resolveLink_eq_ok_iff hname hlink]
      cases resolveLink isZone links name target with
      | error e => simp
      | ok zone => simp [ih hrest]

/-- **Links can be resolved exactly if each of them that is no zone leads to one.** -/
theorem resolveLinks_isOk_iff :
    (∃ log aliases, resolveLinks isZone links = (log, .ok aliases)) ↔
      ∀ name ∈ links.names, isZone name = false → ∃ zone, LeadsTo isZone links.get? name zone := by
  unfold resolveLinks
  rw [resolveEach_isOk_iff (fun e he => (Registry.mem_entries_iff links e.1 e.2).1 he)]
  simp only [Registry.names, List.forall_mem_map]

theorem leadsTo_of_resolveEach {entries : List (String × String)} {aliases result : Registry String}
    {log : Log} (hentries : ∀ e ∈ entries, links.get? e.1 = some e.2)
    (haliases : ∀ name zone, aliases.get? name = some zone →
      isZone name = false ∧ LeadsTo isZone links.get? name zone)
    (h : resolveEach isZone links entries aliases = (log, .ok result)) :
    ∀ name zone, result.get? name = some zone →
      isZone name = false ∧ LeadsTo isZone links.get? name zone := by
  induction entries generalizing aliases log with
  | nil =>
    cases h
    exact haliases
  | cons e rest ih =>
    obtain ⟨name, target⟩ := e
    obtain ⟨hlink, hrest⟩ := List.forall_mem_cons.1 hentries
    rw [resolveEach] at h
    split at h
    · exact ih hrest haliases (Prod.ext rfl (Prod.mk.inj h).2)
    · rename_i hname
      have hname : isZone name = false := by simpa using hname
      split at h
      · cases (Prod.mk.inj h).2
      · rename_i zone hzone
        refine ih hrest ?_ h
        intro other found hfound
        rw [Registry.get?_put] at hfound
        split at hfound
        · rename_i heq
          obtain rfl := Option.some.inj hfound
          rw [heq]
          exact ⟨hname, (resolveLink_eq_ok_iff hname hlink).1 hzone⟩
        · exact haliases other found hfound

/-- **Resolved links are no zones, and each leads to its zone.** -/
theorem leadsTo_of_resolveLinks {aliases : Registry String} {log : Log}
    (h : resolveLinks isZone links = (log, .ok aliases)) (hzone : aliases.get? name = some zone) :
    isZone name = false ∧ LeadsTo isZone links.get? name zone :=
  leadsTo_of_resolveEach (fun e he => (Registry.mem_entries_iff links e.1 e.2).1 he)
    (by simp) h name zone hzone

end ZoneTables.Source
