import ZoneTables.Proofs.Base60

/-!
# Texts that are read in minutes

The notation of minutes (`IsMinuteNotation`) is a sign or none, digits, and then nothing, a point,
or a point and one digit. A text is read if the characters before its first point and the one
behind it are digits (`exists_readMinutes_eq_ok_iff`), and otherwise the reader reports a character
that is none (`readMinutes_cases`).

So every text in the notation is read, but also some others: those without a digit before the
point, among them the empty text and a sign alone, and those with more than one character behind the
point. `readMinutes_isMinuteNotation_iff` says that there are no others.
-/

namespace ZoneTables.Base60

open Text

variable {c : Char} {sign cs text : List Char}

/-! ## Digits -/

theorem exists_readDigit_of_isDigit (h : IsDigit c) : ∃ d, readDigit c = .ok d := by
  have hvalue : (digitValue? c).isSome = true := by
    rw [digitValue?, Option.isSome_map, List.find?_isSome]
    rcases h with ⟨hfirst, hlast⟩ | ⟨hfirst, hlast⟩ | ⟨hfirst, hlast⟩
    · exact ⟨('0', '9', 0), by simp [rows], by simp [hfirst, hlast]⟩
    · exact ⟨('a', 'z', 10), by simp [rows], by simp [hfirst, hlast]⟩
    · exact ⟨('A', 'X', 36), by simp [rows], by simp [hfirst, hlast]⟩
  obtain ⟨d, hd⟩ := Option.isSome_iff_exists.1 hvalue
  exact ⟨d, by rw [readDigit, hd]⟩

theorem readDigit_of_not_isDigit (h : ¬ IsDigit c) : readDigit c = .error (.notDigit [c]) := by
  unfold readDigit
  split
  · rename_i d hd
    obtain ⟨hchar, hlt⟩ := digitChar_of_digitValue? hd
    exact absurd (hchar ▸ isDigit_digitChar d hlt) h
  · rfl

/-- Characters are read as digits, or the first that is none is reported. -/
theorem mapM_readDigit_cases (cs : List Char) :
    ((∀ c ∈ cs, IsDigit c) ∧ ∃ ds, cs.mapM readDigit = .ok ds) ∨
      ∃ c ∈ cs, ¬ IsDigit c ∧ cs.mapM readDigit = .error (.notDigit [c]) := by
  induction cs with
  | nil => exact .inl ⟨by simp, [], rfl⟩
  | cons c cs ih =>
    rw [List.mapM_cons]
    by_cases hc : IsDigit c
    · obtain ⟨d, hd⟩ := exists_readDigit_of_isDigit hc
      rw [hd]
      rcases ih with ⟨hcs, ds, hds⟩ | ⟨b, hb, hnot, herror⟩
      · refine .inl ⟨List.forall_mem_cons.2 ⟨hc, hcs⟩, d :: ds, ?_⟩
        rw [hds]
        rfl
      · refine .inr ⟨b, List.mem_cons_of_mem c hb, hnot, ?_⟩
        rw [herror]
        rfl
    · refine .inr ⟨c, List.mem_cons_self, hc, ?_⟩
      rw [readDigit_of_not_isDigit hc]
      rfl

theorem readMagnitude_cases (hne : cs ≠ []) :
    ((∀ c ∈ cs, IsDigit c) ∧ ∃ n, readMagnitude cs = .ok n) ∨
      ∃ c ∈ cs, ¬ IsDigit c ∧ readMagnitude cs = .error (.notDigit [c]) := by
  rw [readMagnitude, List.isEmpty_eq_false_iff.2 hne]
  rcases mapM_readDigit_cases cs with ⟨hcs, ds, hds⟩ | ⟨c, hc, hnot, herror⟩
  · refine .inl ⟨hcs, Positional.value 60 ds, ?_⟩
    rw [hds]
    rfl
  · refine .inr ⟨c, hc, hnot, ?_⟩
    rw [herror]
    rfl

/-! ## Both sides of the point -/

/-- What stands before the first point of a text, less the sign. -/
def wholePart (text : List Char) : List Char := (splitSign text).2.takeWhile (· != '.')

/-- What stands behind the first point of a text; nothing if there is no point. -/
def behindPoint (text : List Char) : List Char :=
  ((splitSign text).2.dropWhile (· != '.')).drop 1

theorem forall_isDigit_joinPoint_iff : (∀ c ∈ joinPoint (splitSign text).2, IsDigit c) ↔
    (∀ c ∈ wholePart text, IsDigit c) ∧ ∀ c ∈ (behindPoint text).head?, IsDigit c := by
  show (∀ c ∈ wholePart text ++ [(behindPoint text).headD '0'], IsDigit c) ↔ _
  rw [List.forall_mem_append, List.forall_mem_singleton]
  cases behindPoint text with
  | nil => simp [isDigit_zero]
  | cons d rest => simp

/-- **A text is read in minutes, or a character that is no digit is reported.** -/
theorem readMinutes_cases (text : List Char) :
    ((∀ c ∈ joinPoint (splitSign text).2, IsDigit c) ∧ ∃ x, readMinutes text = .ok x) ∨
      ∃ c ∈ joinPoint (splitSign text).2, ¬ IsDigit c ∧
        readMinutes text = .error (.notDigit [c]) := by
  have hne : joinPoint (splitSign text).2 ≠ [] := by simp [joinPoint]
  unfold readMinutes
  rcases readMagnitude_cases hne with ⟨hdigits, n, hn⟩ | ⟨c, hc, hnot, herror⟩
  · refine .inl ⟨hdigits, if (splitSign text).1 then -(n : Int) else n, ?_⟩
    dsimp only
    rw [hn]
    rfl
  · refine .inr ⟨c, hc, hnot, ?_⟩
    dsimp only
    rw [herror]
    rfl

theorem exists_readMinutes_eq_ok_iff : (∃ x, readMinutes text = .ok x) ↔
    (∀ c ∈ wholePart text, IsDigit c) ∧ ∀ c ∈ (behindPoint text).head?, IsDigit c := by
  rw [← forall_isDigit_joinPoint_iff]
  rcases readMinutes_cases text with ⟨hdigits, hok⟩ | ⟨c, hc, hnot, herror⟩
  · exact iff_of_true hok hdigits
  · refine iff_of_false ?_ fun hdigits => hnot (hdigits c hc)
    rintro ⟨x, hx⟩
    cases hx.symm.trans herror

/-! ## The notation -/

/-- No sign, or one. -/
def IsSign (cs : List Char) : Prop := cs = [] ∨ cs = ['+'] ∨ cs = ['-']

/-- A sign or none, one or more digits, and then nothing, a point, or a point and a digit. -/
def IsMinuteNotation (text : List Char) : Prop :=
  ∃ sign whole fraction, IsSign sign ∧ whole ≠ [] ∧ (∀ c ∈ whole, IsDigit c) ∧
    (fraction = [] ∨ fraction = ['.'] ∨ ∃ d, IsDigit d ∧ fraction = ['.', d]) ∧
    text = sign ++ (whole ++ fraction)

theorem ne_mark_of_isDigit (h : IsDigit c) : c ≠ '-' ∧ c ≠ '+' ∧ c ≠ '.' := by
  refine ⟨?_, ?_, ?_⟩
  all_goals
    rintro rfl
    exact absurd h (by decide)

theorem exists_sign (text : List Char) : ∃ sign, IsSign sign ∧ text = sign ++ (splitSign text).2 := by
  unfold splitSign
  split
  · exact ⟨['-'], by simp [IsSign], rfl⟩
  · exact ⟨['+'], by simp [IsSign], rfl⟩
  · exact ⟨[], by simp [IsSign], rfl⟩

theorem splitSign_sign_append (hsign : IsSign sign) (hc : IsDigit c) :
    (splitSign (sign ++ c :: cs)).2 = c :: cs := by
  rcases hsign with rfl | rfl | rfl
  · obtain ⟨hm, hp, -⟩ := ne_mark_of_isDigit hc
    exact congrArg Prod.snd (splitSign_cons hm hp)
  · rfl
  · rfl

theorem exists_eq_append (text : List Char) : ∃ sign, IsSign sign ∧
    ((behindPoint text = [] ∧ text = sign ++ (wholePart text ++ [])) ∨
      text = sign ++ (wholePart text ++ '.' :: behindPoint text)) := by
  obtain ⟨sign, hsign, htext⟩ := exists_sign text
  have hparts : (splitSign text).2 = wholePart text ++ (splitSign text).2.dropWhile (· != '.') :=
    List.takeWhile_append_dropWhile.symm
  refine ⟨sign, hsign, ?_⟩
  cases hrest : (splitSign text).2.dropWhile (· != '.') with
  | nil =>
    have hbehind : behindPoint text = [] := by rw [behindPoint, hrest, List.drop_nil]
    rw [hrest] at hparts
    exact .inl ⟨hbehind, hparts ▸ htext⟩
  | cons c rest =>
    have hpoint : c = '.' := by
      have hhead := List.head?_dropWhile_not (· != '.') (splitSign text).2
      rw [hrest] at hhead
      simpa using hhead
    have hbehind : behindPoint text = rest := by rw [behindPoint, hrest]; rfl
    rw [hrest, hpoint] at hparts
    exact .inr (by rw [hbehind, ← hparts, ← htext])

/-- **The notation in terms of the point**: digits before it, and at most one digit behind it. -/
theorem isMinuteNotation_iff : IsMinuteNotation text ↔
    ((∀ c ∈ wholePart text, IsDigit c) ∧ ∀ c ∈ (behindPoint text).head?, IsDigit c) ∧
      wholePart text ≠ [] ∧ (behindPoint text).length ≤ 1 := by
  constructor
  · rintro ⟨sign, whole, fraction, hsign, hne, hwhole, hfraction, rfl⟩
    obtain ⟨c, cs, rfl⟩ := List.exists_cons_of_ne_nil hne
    have hsplit : (splitSign (sign ++ (c :: cs ++ fraction))).2 = c :: cs ++ fraction :=
      splitSign_sign_append hsign (hwhole c List.mem_cons_self)
    have hpoint : ∀ b ∈ c :: cs, (b != '.') = true := by
      intro b hb
      simpa using (ne_mark_of_isDigit (hwhole b hb)).2.2
    rw [wholePart, behindPoint, hsplit, List.takeWhile_append_of_pos hpoint,
      List.dropWhile_append_of_pos hpoint]
    rcases hfraction with rfl | rfl | ⟨d, hd, rfl⟩
    · simpa using hwhole
    · simpa using hwhole
    · simpa [hd] using hwhole
  · rintro ⟨⟨hwhole, hbehind⟩, hne, hlength⟩
    obtain ⟨sign, hsign, ⟨-, htext⟩ | htext⟩ := exists_eq_append text
    · exact ⟨sign, _, [], hsign, hne, hwhole, .inl rfl, htext⟩
    · refine ⟨sign, _, _, hsign, hne, hwhole, .inr ?_, htext⟩
      match hrest : behindPoint text, hlength with
      | [], _ => exact .inl rfl
      | [d], _ =>
        rw [hrest] at hbehind
        exact .inr ⟨d, hbehind d rfl, rfl⟩

instance (text : List Char) : Decidable ((∀ c ∈ wholePart text, IsDigit c) ∧
    ∀ c ∈ (behindPoint text).head?, IsDigit c) :=
  decidable_of_iff ((wholePart text).all (decide <| IsDigit ·) = true ∧
    (behindPoint text).head?.all (decide <| IsDigit ·) = true) (by simp [Option.all_eq_true])

instance (text : List Char) : Decidable (IsMinuteNotation text) :=
  decidable_of_iff (((∀ c ∈ wholePart text, IsDigit c) ∧
    ∀ c ∈ (behindPoint text).head?, IsDigit c) ∧
      wholePart text ≠ [] ∧ (behindPoint text).length ≤ 1) isMinuteNotation_iff.symm

/-- The digits that are read are digits, but there are none before the point, or there is more
behind the digit after it. -/
structure IsOverlooked (text : List Char) : Prop where
  whole : ∀ c ∈ wholePart text, IsDigit c
  behind : ∀ c ∈ (behindPoint text).head?, IsDigit c
  flaw : wholePart text = [] ∨ 1 < (behindPoint text).length

instance (text : List Char) : Decidable (IsOverlooked text) :=
  decidable_of_iff (((∀ c ∈ wholePart text, IsDigit c) ∧
      ∀ c ∈ (behindPoint text).head?, IsDigit c) ∧
      (wholePart text = [] ∨ 1 < (behindPoint text).length))
    ⟨fun h => ⟨h.1.1, h.1.2, h.2⟩, fun h => ⟨⟨h.whole, h.behind⟩, h.flaw⟩⟩

theorem mem_of_mem_joinPoint (hc : c ∈ joinPoint (splitSign text).2) (hnot : ¬ IsDigit c) :
    c ∈ text := by
  have hparts : c ∈ wholePart text ∨ c ∈ behindPoint text := by
    rcases List.mem_append.1 hc with hc | hc
    · exact .inl hc
    · right
      have hc : c = (behindPoint text).headD '0' := List.mem_singleton.1 hc
      cases hrest : behindPoint text with
      | nil =>
        rw [hrest] at hc
        exact absurd (hc ▸ isDigit_zero) hnot
      | cons d rest =>
        rw [hrest] at hc
        exact List.mem_cons.2 (.inl hc)
  obtain ⟨sign, -, ⟨hbehind, htext⟩ | htext⟩ := exists_eq_append text
  · have hwhole : c ∈ wholePart text := hparts.resolve_right (by simp [hbehind])
    rw [htext]
    simp [hwhole]
  · rw [htext]
    simp only [List.mem_append, List.mem_cons]
    exact .inr (hparts.imp_right .inr)

/-- **What is read in minutes** is what is in the notation, except for texts without a digit before
the point or with more than one character behind it. What is not read is not in the notation
either, and the error names a character of it that is no digit. -/
theorem readMinutes_isMinuteNotation_iff (text : List Char) :
    (((∃ x, readMinutes text = .ok x) ↔ IsMinuteNotation text) ↔ ¬ IsOverlooked text) ∧
      ∀ e, readMinutes text = .error e →
        ¬ IsMinuteNotation text ∧ ∃ c ∈ text, ¬ IsDigit c ∧ e = .notDigit [c] := by
  constructor
  · rw [exists_readMinutes_eq_ok_iff, isMinuteNotation_iff]
    by_cases hread : (∀ c ∈ wholePart text, IsDigit c) ∧ ∀ c ∈ (behindPoint text).head?, IsDigit c
    · have hflaw : IsOverlooked text ↔ wholePart text = [] ∨ 1 < (behindPoint text).length :=
        ⟨fun h => h.flaw, fun h => ⟨hread.1, hread.2, h⟩⟩
      rw [hflaw, not_or, Nat.not_lt, and_iff_right hread, iff_true_left hread]
    · have hsound : ¬ IsOverlooked text := fun h => hread ⟨h.whole, h.behind⟩
      exact iff_of_true (iff_of_false hread fun h => hread h.1) hsound
  · intro e herror
    rcases readMinutes_cases text with ⟨-, x, hx⟩ | ⟨c, hc, hnot, hread⟩
    · cases hx.symm.trans herror
    · refine ⟨fun h => ?_, c, mem_of_mem_joinPoint hc hnot, hnot, ?_⟩
      · rw [isMinuteNotation_iff, ← forall_isDigit_joinPoint_iff] at h
        exact hnot (h.1 c hc)
      · exact (Except.error.inj (hread.symm.trans herror)).symm

/-- The empty text, a sign alone and a text with more behind the digit after its point are read,
though none of them is in the notation. -/
theorem readMinutes_lax :
    readMinutes [] = .ok 0 ∧ ¬ IsMinuteNotation [] ∧
      readMinutes ['-'] = .ok 0 ∧ ¬ IsMinuteNotation ['-'] ∧
      readMinutes "1.u?".toList = .ok 90 ∧ ¬ IsMinuteNotation "1.u?".toList := by
  decide

end ZoneTables.Base60
