import ZoneTables.Proofs.Table.Equality
import ZoneTables.Proofs.Timeline.Minutes

/-!
# Tables in whole minutes

The offsets of the kinds and the times between transitions stand in a table in minutes, with a digit
behind a point for what is left over. The table of a list in whole minutes has no such digit
(`lacksFractions_of_isWhole`).
-/

namespace ZoneTables.Table

variable {ts : List Transition} {t : Timeline}

/-- A table of the timeline, if it has one, is a header alone, or it has the offsets of the kinds
and the times between transitions without a point. -/
def LacksFractions (t : Timeline) : Prop :=
  ∀ fix text, encode fix t = .ok text →
    (∃ first, t.transitions = [first] ∧ text = header first (.ofTimeline t)) ∨
      ∃ first rest, t.transitions = first :: rest ∧
        text = Text.join [';'] (sections fix first rest (.ofTimeline t)) ∧
        (∀ u ∈ first :: rest, '.' ∉ Base60.writeMinutes u.utcOffset ∧
          '.' ∉ Base60.writeMinutes u.dstOffset) ∧
        ∀ x ∈ deltas 0 rest, '.' ∉ Base60.writeMinutes x

theorem dvd_of_mem_deltas {last : Int} (hlast : 60 ∣ last) (hts : ∀ t ∈ ts, 60 ∣ t.time) :
    ∀ x ∈ deltas last ts, 60 ∣ x := by
  induction ts generalizing last with
  | nil => simp [deltas]
  | cons t ts ih =>
    obtain ⟨ht, hts⟩ := List.forall_mem_cons.1 hts
    exact List.forall_mem_cons.2 ⟨Int.dvd_sub ht hlast, ih ht hts⟩

/-- **No fractions of minutes are in the table of a list in whole minutes.** -/
theorem lacksFractions_of_isWhole (h : IsWhole t.transitions) : LacksFractions t := by
  have hwrite {x : Int} (hx : 60 ∣ x) : '.' ∉ Base60.writeMinutes x :=
    fun hpoint => (Base60.point_mem_writeMinutes_iff x).1 hpoint hx
  intro fix text htext
  rcases table_cases htext with hheader | ⟨first, rest, hts, -, -, htext⟩
  · exact .inl hheader
  · rw [hts] at h
    refine .inr ⟨first, rest, hts, htext, fun u hu => ⟨?_, ?_⟩, fun x hx => hwrite ?_⟩
    · exact hwrite (h.utcOffset u hu)
    · exact hwrite (h.dstOffset u hu)
    · exact dvd_of_mem_deltas (Int.dvd_zero 60) h.dvd_time_of_mem_rest x hx

end ZoneTables.Table
