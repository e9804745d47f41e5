import ZoneTables.Batch
import ZoneTables.Proofs.Timeline.Matching
import ZoneTables.Proofs.Timeline.Rollback

/-!
# Reports about a timeline

A batch compares each timeline with a reference and looks for rollbacks in it. What it finds it
reports, and a report breaks off at a number of more than 4300 digits. `Batch.CanReport` says that
there is none in the reports about a timeline. Then, and with oracles that answer only then, both
checks come to an end (`validate_isOk_iff`, `checkRollbacks_isOk_iff`).
-/

namespace ZoneTables

open Text

theorem findRollbacks_isOk_iff (zone : Option String) (fix : Bool) {warn : Bool}
    {ts : List Transition} :
    (∃ result, findRollbacks zone fix warn ts = .ok result) ↔ (warn = true → CanWarn ts) := by
  rcases findRollbacks_cases zone fix warn ts with ⟨⟨hwarn, hcannot⟩, herror⟩ | ⟨hcan, log, hok⟩
  · refine iff_of_false ?_ fun h => hcannot (h hwarn)
    rintro ⟨result, hok⟩
    cases herror.symm.trans hok
  · exact iff_of_true ⟨_, hok⟩ hcan

namespace Batch

variable {s : Settings} {name : String} {t reference : Timeline} {preset : Preset}

/-- The oracles never fail. -/
structure Settings.OraclesAnswer (s : Settings) : Prop where
  oracle : ∀ oracle preset, s.oracle = some (oracle, preset) →
    ∀ name w, ∃ log answer, oracle name w = (log, .ok answer)
  fallback : ∀ oracle, s.fallback = some oracle →
    ∀ name w, ∃ log answer, oracle name w = (log, .ok answer)

/-- The timeline that the one of a name is compared with, and how. -/
def Settings.reference? (s : Settings) (name : String) : Option (Preset × Timeline) :=
  match s.oracle with
  | none => none
  | some (oracle, preset) =>
    match (oracle name (some s.window)).2 with
    | .error _ => none
    | .ok (some reference) => some (preset, reference)
    | .ok none =>
      match s.fallback with
      | none => none
      | some fallback =>
        match (fallback name (some s.window)).2 with
        | .ok (some reference) => some (.host, reference)
        | _ => none

/-- No number is too long in what is reported about the timeline of a name. -/
structure CanReport (s : Settings) (name : String) (t : Timeline) : Prop where
  mismatch : ∀ preset reference, s.reference? name = some (preset, reference) →
    (preset.closeness s.tolerance).CanReport t.transitions reference.transitions
  rollback : s.warn = true → ∀ prev u, firstRollback? t.transitions = some (prev, u) →
    u.hasWritableWarning prev = true

theorem compare_isOk_iff : (∃ reasons, (compare s preset name t reference).2 = .ok reasons) ↔
    (preset.closeness s.tolerance).CanReport t.transitions reference.transitions := by
  rw [← closelyMatches_isOk_iff t.zone, compare]
  split
  · rename_i h
    simp [h]
  · rename_i h
    simp [h]
  · rename_i h
    simp [h]

theorem exists_map_eq_ok_iff {ε α β : Type} {x : Except ε α} {f : α → β} :
    (∃ b, x.map f = .ok b) ↔ ∃ a, x = .ok a := by
  cases x with
  | error e =>
    constructor
    · rintro ⟨b, h⟩
      cases h
    · rintro ⟨a, h⟩
      cases h
  | ok a => exact ⟨fun _ => ⟨a, rfl⟩, fun _ => ⟨f a, rfl⟩⟩

theorem canReport_iff (s : Settings) (name : String) (t : Timeline) : CanReport s name t ↔
    (∀ preset reference, s.reference? name = some (preset, reference) →
      (preset.closeness s.tolerance).CanReport t.transitions reference.transitions) ∧
    (s.warn = true → CanWarn t.transitions) :=
  ⟨fun h => ⟨h.mismatch, h.rollback⟩, fun h => ⟨h.1, h.2⟩⟩

/-- **A comparison comes to an end exactly if its report can be written.** -/
theorem validate_isOk_iff (hs : s.OraclesAnswer) (name : String) (t : Timeline) :
    (∃ reasons, (validate s name t).2 = .ok reasons) ↔
      ∀ preset reference, s.reference? name = some (preset, reference) →
        (preset.closeness s.tolerance).CanReport t.transitions reference.transitions := by
  unfold validate Settings.reference?
  cases horacle : s.oracle with
  | none => simp
  | some pair =>
    obtain ⟨oracle, preset⟩ := pair
    obtain ⟨log, answer, hanswer⟩ := hs.oracle oracle preset horacle name (some s.window)
    simp only [hanswer]
    cases answer with
    | some reference =>
      simp only [compare_isOk_iff]
      constructor
      · rintro h _ _ heq
        cases heq
        exact h
      · intro h
        exact h preset reference rfl
    | none =>
      simp only [compareFallback]
      cases hfallback : s.fallback with
      | none => simp [noReference]
      | some fallback =>
        obtain ⟨more, answer, hanswer⟩ := hs.fallback fallback hfallback name (some s.window)
        simp only [hanswer]
        cases answer with
        | none => simp [noReference]
        | some reference =>
          simp only [exists_map_eq_ok_iff, compare_isOk_iff]
          constructor
          · rintro h _ _ heq
            cases heq
            exact h
          · intro h
            exact h .host reference rfl

/-- **A search for rollbacks comes to an end exactly if its report can be written.** -/
theorem checkRollbacks_isOk_iff (s : Settings) (name : String) (t : Timeline) :
    (∃ result, checkRollbacks s name t = .ok result) ↔
      (s.warn = true → CanWarn t.transitions) := by
  rw [checkRollbacks]
  split
  · rename_i hlooks
    refine iff_of_true ⟨_, rfl⟩ ?_
    intro hwarn
    simp [Settings.looksForRollbacks, hwarn] at hlooks
  · rw [← findRollbacks_isOk_iff t.zone s.fix]
    split
    · rename_i h
      simp [h]
    · rename_i status ts log h
      refine iff_of_true ?_ ⟨_, h⟩
      cases status with
      | none => exact ⟨_, rfl⟩
      | found => exact ⟨_, rfl⟩
      | fixed => exact ⟨_, rfl⟩
      | remain => exact ⟨_, rfl⟩

end Batch
end ZoneTables
