import ZoneTables.Calendar.OffsetNotation
import ZoneTables.Proofs.Text.Numeral

/-!
# Offset notation read back

`read_write`: an offset below a hundred hours comes back from its notation. The notation is a word
of digits after a sign. A greater offset is refused, unless its notation happens to have the length
of one with seconds (`readsBack_iff`).
-/

namespace ZoneTables.OffsetNotation

open Text Positional

/-- The two digits of a field below a hundred. -/
def twoDigits (n : Nat) : List Char := [decimalDigit (n / 10), decimalDigit (n % 10)]

theorem padded_eq_twoDigits {n : Nat} (h : n < 100) : padded 2 n = twoDigits n := padded_two h

theorem readField_twoDigits {n : Nat} (h : n < 100) : readField (twoDigits n) = .ok n := by
  have hlt : ∀ d ∈ [n / 10, n % 10], d < 10 := by
    simp only [List.mem_cons, List.not_mem_nil, or_false, forall_eq_or_imp, forall_eq]
    omega
  have hread := Numeral.read_digits hlt (by simp) (by simp [Numeral.maxDigits])
  have hvalue : value 10 [n / 10, n % 10] = n := by
    simp only [value, List.foldl_cons, List.foldl_nil]
    omega
  rw [hvalue] at hread
  exact congrArg (Except.mapError Error.field) hread

theorem isDigit_of_mem_twoDigits {n : Nat} (h : n < 100) : ∀ c ∈ twoDigits n, isDigit c = true := by
  simp only [twoDigits, List.mem_cons, List.not_mem_nil, or_false, forall_eq_or_imp, forall_eq]
  exact ⟨isDigit_decimalDigit _ (by omega), isDigit_decimalDigit _ (by omega)⟩

/-- The seconds of a notation, if there are any over whole minutes. -/
def secondDigits (n : Nat) : List Char := if n % 60 = 0 then [] else twoDigits (n % 60)

theorem write_eq_padded (x : Int) :
    write x = (if x < 0 then '-' else '+') ::
      (padded 2 (x.natAbs / 3600 : Nat) ++ twoDigits (x.natAbs % 3600 / 60) ++
        secondDigits x.natAbs) := by
  have hminutes : padded 2 ((x.natAbs : Int) % 3600 / 60) = twoDigits (x.natAbs % 3600 / 60) := by
    rw [← padded_eq_twoDigits (by omega)]
    rfl
  have hseconds : padded 2 ((x.natAbs : Int) % 60) = twoDigits (x.natAbs % 60) := by
    rw [← padded_eq_twoDigits (by omega)]
    rfl
  have hzero : (x.natAbs : Int) % 60 = 0 ↔ x.natAbs % 60 = 0 := by omega
  unfold write secondDigits
  simp only [hminutes, hseconds, hzero]
  rfl

theorem write_eq {x : Int} (h : x.natAbs < 360000) :
    write x = (if x < 0 then '-' else '+') ::
      (twoDigits (x.natAbs / 3600) ++ twoDigits (x.natAbs % 3600 / 60) ++
        secondDigits x.natAbs) := by
  rw [write_eq_padded, padded_eq_twoDigits (by omega)]

theorem readMagnitude_four {a b c d : Char} (h : isDigits [a, b, c, d] = true) :
    readMagnitude [a, b, c, d] = (do
      let hours ← readField [a, b]
      let minutes ← readField [c, d]
      return 3600 * hours + 60 * minutes + 0) := by
  simp [readMagnitude, h]

theorem readMagnitude_six {a b c d e f : Char} (h : isDigits [a, b, c, d, e, f] = true) :
    readMagnitude [a, b, c, d, e, f] = (do
      let hours ← readField [a, b]
      let minutes ← readField [c, d]
      let seconds ← readField [e, f]
      return 3600 * hours + 60 * minutes + seconds) := by
  simp [readMagnitude, h]

theorem readMagnitude_twoFields {h m : Nat} (hh : h < 100) (hm : m < 100) :
    readMagnitude (twoDigits h ++ twoDigits m) = .ok (3600 * h + 60 * m) := by
  have hdigits : isDigits (twoDigits h ++ twoDigits m) = true := by
    simp only [isDigits, List.all_append, Bool.and_eq_true, List.all_eq_true]
    exact ⟨rfl, isDigit_of_mem_twoDigits hh, isDigit_of_mem_twoDigits hm⟩
  refine (readMagnitude_four hdigits).trans ?_
  rw [← twoDigits, ← twoDigits, readField_twoDigits hh, readField_twoDigits hm]
  exact congrArg Except.ok (Int.add_zero _)

theorem readMagnitude_threeFields {h m s : Nat} (hh : h < 100) (hm : m < 100) (hs : s < 100) :
    readMagnitude (twoDigits h ++ twoDigits m ++ twoDigits s) = .ok (3600 * h + 60 * m + s) := by
  have hdigits : isDigits (twoDigits h ++ twoDigits m ++ twoDigits s) = true := by
    simp only [isDigits, List.all_append, Bool.and_eq_true, List.all_eq_true]
    exact ⟨rfl, ⟨isDigit_of_mem_twoDigits hh, isDigit_of_mem_twoDigits hm⟩,
      isDigit_of_mem_twoDigits hs⟩
  refine (readMagnitude_six hdigits).trans ?_
  rw [← twoDigits, ← twoDigits, ← twoDigits, readField_twoDigits hh, readField_twoDigits hm,
    readField_twoDigits hs]
  rfl

theorem readMagnitude_twoDigits {h m n : Nat} (hh : h < 100) (hm : m < 100) :
    readMagnitude (twoDigits h ++ twoDigits m ++ secondDigits n) =
      .ok (3600 * h + 60 * m + (n % 60 : Nat)) := by
  unfold secondDigits
  by_cases hn : n % 60 = 0
  · rw [if_pos hn, List.append_nil, readMagnitude_twoFields hh hm, hn]
    exact congrArg Except.ok (Int.add_zero _).symm
  · rw [if_neg hn, readMagnitude_threeFields hh hm (by omega)]

theorem read_sign_cons (x : Int) (cs : List Char) :
    read ((if x < 0 then '-' else '+') :: cs) =
      (readMagnitude cs).map fun n => if x < 0 then -n else n := by
  by_cases hneg : x < 0
  · simp only [if_pos hneg, read]
    cases readMagnitude cs <;> rfl
  · simp only [if_neg hneg, read]
    cases readMagnitude cs <;> rfl

/-- **Offsets read back**, below a hundred hours. -/
theorem read_write {x : Int} (h : x.natAbs < 360000) : read (write x) = .ok x := by
  have hmag := readMagnitude_twoDigits (n := x.natAbs) (by omega : x.natAbs / 3600 < 100)
    (by omega : x.natAbs % 3600 / 60 < 100)
  rw [write_eq h, read_sign_cons, hmag]
  refine congrArg Except.ok ?_
  dsimp only
  split <;> omega

theorem lacks_write {p : Char → Bool} (hd : ∀ d < 10, p (decimalDigit d) = false)
    (hm : p '-' = false) (hp : p '+' = false) (x : Int) : Lacks p (write x) := by
  have hfield (n : Int) : Lacks p (padded 2 n) := lacks_padded hd hm 2 n
  refine lacks_append.2 ⟨lacks_append.2 ⟨lacks_cons.2 ⟨?_, hfield _⟩, hfield _⟩, ?_⟩
  · split
    · exact hm
    · exact hp
  · split
    · exact lacks_nil
    · exact hfield _

theorem write_ne_nil (x : Int) : write x ≠ [] := by
  simp [write]

/-! ## A hundred hours and more -/

variable {x : Int} {cs : List Char} {n : Nat}

theorem readMagnitude_of_length (h : cs.length ≠ 1 ∧ cs.length ≠ 4 ∧ cs.length ≠ 6) :
    readMagnitude cs = .error (.malformed cs) := by
  have hzero : cs ≠ ['0'] := fun heq => h.1 (heq ▸ rfl)
  have hone : cs ≠ ['1'] := fun heq => h.1 (heq ▸ rfl)
  rw [readMagnitude, if_neg hzero, if_neg hone, if_pos (.inl h.2)]

theorem length_secondDigits (n : Nat) :
    (secondDigits n).length = if n % 60 = 0 then 0 else 2 := by
  unfold secondDigits
  split <;> rfl

theorem natural_four (h : 1000 ≤ n) (hlt : n < 10000) :
    natural n = twoDigits (n / 100) ++ twoDigits (n % 100) := by
  have hdigits : digits 10 n = [n / 1000, n / 100 % 10, n / 10 % 10, n % 10] := by
    rw [digits_of_pos (by omega) (by omega), digits_of_pos (by omega) (by omega),
      digits_of_pos (by omega) (by omega), digits_of_pos (by omega) (by omega),
      show n / 10 / 10 / 10 / 10 = 0 by omega, digits_zero]
    simp only [List.nil_append, List.cons_append, List.cons.injEq, and_true]
    omega
  rw [natural_of_pos (by omega), hdigits, twoDigits, twoDigits,
    show n / 100 / 10 = n / 1000 by omega, show n % 100 / 10 = n / 10 % 10 by omega,
    show n % 100 % 10 = n % 10 by omega]
  rfl

/-- An offset of whole minutes with four digits of hours: in the notation these stand where hours
and minutes of two digits each do, and the minutes where seconds do. -/
structure HasFourHourDigits (x : Int) : Prop where
  le : 1000 * 3600 ≤ x.natAbs
  lt : x.natAbs < 10000 * 3600
  minutes : x.natAbs % 60 = 0

instance (x : Int) : Decidable (HasFourHourDigits x) :=
  decidable_of_iff (1000 * 3600 ≤ x.natAbs ∧ x.natAbs < 10000 * 3600 ∧ x.natAbs % 60 = 0)
    ⟨fun h => ⟨h.1, h.2.1, h.2.2⟩, fun h => ⟨h.le, h.lt, h.minutes⟩⟩

/-- What is read instead of such an offset of `n` seconds. -/
def misread (n : Nat) : Nat := 3600 * (n / 360000) + 60 * (n / 3600 % 100) + n % 3600 / 60

/-- **An offset with four digits of hours is misread.** -/
theorem read_write_of_hasFourHourDigits (h : HasFourHourDigits x) :
    read (write x) = .ok (if x < 0 then -(misread x.natAbs : Int) else misread x.natAbs) := by
  obtain ⟨hle, hlt, hminutes⟩ := h
  have hlength : 2 ≤ (natural (x.natAbs / 3600)).length := by
    rw [natural_of_pos (by omega), List.length_map]
    exact lt_length_digits (k := 1) (show 10 ≤ _ by omega)
  rw [write_eq_padded, read_sign_cons, padded_of_le_length hlength,
    natural_four (by omega) (by omega), secondDigits, if_pos hminutes, List.append_nil,
    readMagnitude_threeFields (by omega) (by omega) (by omega)]
  refine congrArg Except.ok ?_
  unfold misread
  dsimp only
  split <;> omega

/-- **Any other offset of a hundred hours or more is refused**: its notation is too long, or has
five digits. -/
theorem read_write_eq_error (hle : 360000 ≤ x.natAbs) (h : ¬ HasFourHourDigits x) :
    ∃ text, read (write x) = .error (.malformed text) := by
  have hdigits : 2 < (digits 10 (x.natAbs / 3600)).length :=
    lt_length_digits (k := 2) (show 100 ≤ _ by omega)
  have hhours : natural (x.natAbs / 3600) = (digits 10 (x.natAbs / 3600)).map decimalDigit :=
    natural_of_pos (by omega)
  have hpadded : padded 2 (x.natAbs / 3600 : Nat) = natural (x.natAbs / 3600) :=
    padded_of_le_length (by rw [hhours, List.length_map]; omega)
  have hfour : (digits 10 (x.natAbs / 3600)).length = 4 → x.natAbs % 60 ≠ 0 := by
    intro hlength hminutes
    refine h ⟨?_, ?_, hminutes⟩
    · by_contra hlt
      have := length_digits_le (k := 3) (show x.natAbs / 3600 < 1000 by omega)
      omega
    · by_contra hge
      have := lt_length_digits (k := 4) (show 10000 ≤ x.natAbs / 3600 by omega)
      omega
  rw [write_eq_padded, read_sign_cons, hpadded, hhours, readMagnitude_of_length]
  · exact ⟨_, rfl⟩
  · simp only [List.length_append, List.length_map, length_secondDigits]
    show _ + 2 + _ ≠ 1 ∧ _ + 2 + _ ≠ 4 ∧ _ + 2 + _ ≠ 6
    split <;> omega

/-- An offset below a hundred hours is read back from its notation, and every other is refused. -/
def ReadsBack (x : Int) : Prop :=
  if x.natAbs < 360000 then read (write x) = .ok x else ∃ e, read (write x) = .error e

/-- **When an offset is read back or refused**: unless it is of whole minutes and has four digits
of hours. Such an offset is read as another one, below a hundred hours. -/
theorem readsBack_iff (x : Int) :
    (ReadsBack x ↔ ¬ HasFourHourDigits x) ∧
      (HasFourHourDigits x → ∃ y, read (write x) = .ok y ∧ y ≠ x ∧ y.natAbs = misread x.natAbs) := by
  constructor
  · unfold ReadsBack
    split
    · rename_i hlt
      exact iff_of_true (read_write hlt) fun h => by have := h.le; omega
    · rename_i hge
      constructor
      · rintro ⟨e, he⟩ h
        cases he.symm.trans (read_write_of_hasFourHourDigits h)
      · intro h
        obtain ⟨text, herror⟩ := read_write_eq_error (by omega) h
        exact ⟨_, herror⟩
  · intro h
    refine ⟨_, read_write_of_hasFourHourDigits h, ?_, ?_⟩
    · have := h.le
      unfold misread
      split <;> omega
    · split <;> omega

/-- A thousand hours are read as ten. -/
theorem read_write_thousandHours : ¬ ReadsBack (1000 * 3600) ∧
    write (1000 * 3600) = "+100000".toList ∧ read (write (1000 * 3600)) = .ok (10 * 3600) := by
  have hfour : HasFourHourDigits (1000 * 3600) := by decide
  have hread : read (write (1000 * 3600)) = .ok (10 * 3600) := read_write_of_hasFourHourDigits hfour
  refine ⟨?_, by decide +kernel, hread⟩
  rintro ⟨e, he⟩
  cases he.symm.trans hread

end ZoneTables.OffsetNotation
