import ZoneTables.Proofs.Table.RoundTrip
import ZoneTables.Proofs.Timeline.Matching

/-!
# Tables against their lists

When a table is read back and compared with the list that it was made from. A list with changes
passes if it starts at the beginning of time (`validate_of_changes`). The table of a single
transition has the standard offset beyond the list in the place of that transition's own
(`validate_of_singleton`). That offset is the one of the last line if it has no daylight saving at
all, and else that of the last transition (`stdOffset_of_fixed`, `stdOffset_of_last`).
-/

namespace ZoneTables

open Table

/-! ## The standard offset beyond a list -/

namespace Nominal

variable {s : Search} {t : Timeline} {ts : List Transition} {u : Transition} {line : ZoneLine}

theorem Search.stdOffset_run {x : Int} (h : s.stdOffset = some x) :
    (s.run ts).stdOffset = some x := by
  induction ts generalizing s with
  | nil => exact h
  | cons t ts ih =>
    rw [run]
    split
    · exact h
    · split
      · simp [finish, h]
      · split
        · exact ih (by simp [visit, h])
        · exact h

theorem Search.stdOffset_run_cons (hstd : s.stdOffset = none) (hset : s.ruleSet = none) :
    (s.run (u :: ts)).stdOffset = some (u.utcOffset - u.dstOffset) := by
  have hdone : s.isDone = false := by simp [isDone, hstd]
  rw [run, hdone]
  simp only [Bool.false_eq_true, if_false]
  split
  · simp [finish, hstd]
  · rw [hset]
    exact stdOffset_run (by simp [visit, hstd])

theorem stdOffset_of_fixed (hnominal : t.nominal = none) (hline : t.lastLine = some line)
    (hsaving : line.saving = .fixed 0) : (Nominal.ofTimeline t).stdOffset = line.stdoff := by
  have hstart : (Search.start t.lastLine).stdOffset = some line.stdoff := by
    simp [Search.start, hline, hsaving]
  simp [ofTimeline, hnominal, Search.stdOffset_run hstart]

theorem stdOffset_of_last (hnominal : t.nominal = none)
    (hline : ∀ line, t.lastLine = some line → line.saving ≠ .fixed 0)
    (hlast : t.transitions.getLast? = some u) :
    (Nominal.ofTimeline t).stdOffset = u.utcOffset - u.dstOffset := by
  have hstart : Search.start t.lastLine = ⟨none, none, none, none, none⟩ := by
    unfold Search.start
    split
    · rename_i line h
      exact if_neg (hline line h)
    · rfl
  obtain ⟨us, hus⟩ := List.getLast?_eq_some_iff.1 hlast
  have hrun : ((Search.start t.lastLine).run t.transitions.reverse).stdOffset =
      some (u.utcOffset - u.dstOffset) := by
    rw [hstart, hus, List.reverse_append, List.reverse_singleton, List.singleton_append]
    exact Search.stdOffset_run_cons rfl rfl
  simp [ofTimeline, hnominal, hrun]

end Nominal

/-! ## Tables -/

namespace Table

variable {fix : Bool} {t : Timeline} {first : Transition} {rest : List Transition}
  {text : List Char} {zone : Option String}

theorem validate_eq_true_iff {u : Timeline} (h : decode t.zone text = .ok u) :
    (validate text t).2 = .ok true ↔
      List.Forall₂ (fun a b => a.equals (1 < t.transitions.length) b = true) t.transitions
        u.transitions := by
  rw [← matchesExactly_eq_true_iff t.zone, validate, h]
  show (Except.mapError _ (matchesExactly _ _ _ _).2) = _ ↔ _
  cases (matchesExactly t.zone (1 < t.transitions.length) t.transitions u.transitions).2 <;>
    constructor <;> intro hverdict <;> cases hverdict <;> rfl

theorem equals_withoutRule (names : Bool) (u : Transition) :
    u.equals names (withoutRule u) = true := by
  simp [Transition.equals, withoutRule, Kind.of, Kind.transition]

/-- **A table of changes passes** if the list starts at the beginning of time. -/
theorem validate_of_changes (hts : t.transitions = first :: rest) (hrest : rest ≠ [])
    (hnames : NamesArePlain (first :: rest)) (hrange : HeaderInRange first (.ofTimeline t))
    (h : encode fix t = .ok text) :
    (validate text t).2 = .ok true ↔ first.time = beginningOfTime := by
  rw [validate_eq_true_iff (decode_encode hts hrest hnames hrange h), hts]
  show List.Forall₂ _ (first :: rest) ((Kind.of first).transition beginningOfTime :: _) ↔ _
  have hall : List.Forall₂ (fun a b => a.equals (1 < (first :: rest).length) b = true) rest
      (rest.map withoutRule) := by
    rw [List.forall₂_map_right_iff]
    exact List.forall₂_same.2 fun u _ => equals_withoutRule _ u
  rw [List.forall₂_cons, and_iff_left hall]
  simp [Transition.equals, Kind.of, Kind.transition]

/-- **A table of one transition passes** if that is at the beginning of time and has the standard
offset beyond the list. -/
theorem validate_of_singleton (hts : t.transitions = [first])
    (hrange : HeaderInRange first (.ofTimeline t)) (h : encode fix t = .ok text) :
    (validate text t).2 = .ok true ↔ first.time = beginningOfTime ∧
      (Nominal.ofTimeline t).stdOffset = first.utcOffset - first.dstOffset := by
  rw [encode_of_singleton hts] at h
  split at h
  · rename_i hheader
    obtain rfl := Except.ok.inj h
    have hdst := (headerIsWritable_iff hrange).1 hheader
    rw [validate_eq_true_iff (decode_header hrange hdst), hts]
    show List.Forall₂ _ [first] [_] ↔ _
    simp [Transition.equals]
    omega
  · cases h

end Table
end ZoneTables
