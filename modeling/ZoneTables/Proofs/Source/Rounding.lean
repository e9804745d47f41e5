import ZoneTables.Proofs.Source.Times

/-!
# Rounded sources

Where seconds are rounded to minutes, the offsets, amounts and ends of zone lines are whole minutes,
and so are the amounts of rules (`holds_whole_of_ofSources`). The times of day of rules are not
rounded.
-/

namespace ZoneTables

theorem dvd_roundToMinute (seconds : Int) : 60 ∣ roundToMinute seconds := by
  unfold roundToMinute
  dsimp only
  split <;> omega

theorem Date.dvd_seconds {seconds : Int} (h : 60 ∣ seconds) (date : Date) :
    60 ∣ date.seconds seconds := by
  unfold Date.seconds secondsPerDay
  omega

/-- The seconds in a line are whole minutes. -/
structure ZoneLine.IsWhole (l : ZoneLine) : Prop where
  stdoff : 60 ∣ l.stdoff
  amount : ∀ amount, l.saving = .fixed amount → 60 ∣ amount
  ending : l.isLast = false → 60 ∣ l.ending

namespace Source

open Text

theorem dvd_of_isRounded {text : List Char} {x : Int} (h : IsRounded true text x) : 60 ∣ x := by
  obtain ⟨seconds, -, rfl⟩ := h
  exact dvd_roundToMinute seconds

theorem ZoneLineTimes.isWhole {fields : List (List Char)} {l : ZoneLine}
    (h : ZoneLineTimes (IsRounded true) fields l) : l.IsWhole := by
  have hstdoff : 60 ∣ l.stdoff := by
    obtain ⟨field, -, hoffset⟩ := h.stdoff
    exact dvd_of_isRounded hoffset
  refine ⟨hstdoff, fun amount hamount => ?_, fun hlast => ?_⟩
  · rcases h.amount amount hamount with ⟨-, rfl⟩ | ⟨field, -, hrounded⟩
    · exact Int.dvd_zero 60
    · exact dvd_of_isRounded hrounded
  · rcases h.ending with ⟨-, hend⟩ | ⟨date, seconds, hends, htime⟩
    · simp [ZoneLine.isLast, hend] at hlast
    · have hseconds : 60 ∣ seconds := by
        rcases htime with ⟨-, rfl⟩ | ⟨field, face, suffix, -, -, hrounded⟩
        · exact Int.dvd_zero 60
        · exact dvd_of_isRounded hrounded
      have hdate := Date.dvd_seconds hseconds date
      rw [hends]
      split
      · exact hdate
      · exact Int.dvd_sub hdate hstdoff

theorem RuleTimes.dvd_save {P : List Char → Int → Prop} {fields : List (List Char)} {r : Rule}
    (h : RuleTimes P (IsRounded true) fields r) : 60 ∣ r.save := by
  obtain ⟨field, -, hrounded⟩ := h.save
  exact dvd_of_isRounded hrounded

/-- **Rounded sources hold whole minutes**, but for the times of day of rules. -/
theorem holds_whole_of_ofSources {options : Options} {sources : Registry String}
    {names : Option (List String)} {log : Log} {db : Database}
    (h : Database.ofSources options sources names = (log, .ok db))
    (hround : options.toMinutes = true) : db.Holds ZoneLine.IsWhole fun r => 60 ∣ r.save := by
  refine holds_of_ofSources (fun cs line hline => ?_) h
  rw [hround] at hline
  have htimes := Line.times_of_read hline
  cases line with
  | rule r => exact RuleTimes.dvd_save htimes
  | link target name => trivial
  | zone name l => exact ZoneLineTimes.isWhole htimes
  | continuation l => exact ZoneLineTimes.isWhole htimes

end Source
end ZoneTables
