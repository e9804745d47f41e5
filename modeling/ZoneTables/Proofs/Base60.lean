import Mathlib.Data.List.Induction
import Mathlib.Data.List.TakeWhile
import ZoneTables.Base60
import ZoneTables.Proofs.Text.Pieces

/-!
# Base-60 numerals read back

`read_write` and `readMinutes_writeMinutes`: an integer comes back from its numeral, and a number of
seconds from its numeral in minutes. Both kinds of numeral are words of digits, with a sign in front
and a point before the last digit at most (`isNumeral_write`, `isMinuteNumeral_writeMinutes`), which
whole minutes do not have (`point_mem_writeMinutes_iff`).

Other spellings of an integer have a plus sign or zeros in front. The digits of the number that is
read are those of the text without these zeros (`Positional.digits_value`), so that its numeral is
the plain form of the text (`write_of_read`).
-/

namespace ZoneTables.Positional

theorem digits_value {base : Nat} {ds : List Nat} (hb : 2 ≤ base) (h : ∀ d ∈ ds, d < base) :
    digits base (value base ds) = ds.dropWhile (· == 0) := by
  induction ds using List.reverseRecOn with
  | nil => exact digits_zero base
  | append_singleton ds d ih =>
    have hd : d < base := h d (by simp)
    have ih := ih fun e he => h e (List.mem_append_left _ he)
    rw [value_append, List.dropWhile_append, ← ih]
    rcases Nat.eq_zero_or_pos (value base ds) with hzero | hpos
    · rw [hzero, digits_zero, Nat.zero_mul, Nat.zero_add, List.isEmpty_nil, if_pos rfl]
      rcases Nat.eq_zero_or_pos d with rfl | hpos
      · exact digits_zero base
      · rw [digits_of_pos hb hpos, Nat.div_eq_of_lt hd, digits_zero, Nat.mod_eq_of_lt hd,
          List.dropWhile_cons_of_neg (by simpa using Nat.ne_of_gt hpos)]
        rfl
    · have hdiv : (value base ds * base + d) / base = value base ds := by
        rw [Nat.mul_comm, Nat.mul_add_div (by omega), Nat.div_eq_of_lt hd, Nat.add_zero]
      have hmod : (value base ds * base + d) % base = d := by
        rw [Nat.mul_comm, Nat.mul_add_mod, Nat.mod_eq_of_lt hd]
      have hne : digits base (value base ds) ≠ [] := by
        rw [digits_of_pos hb hpos]
        simp
      have hmul : 0 < value base ds * base := Nat.mul_pos hpos (by omega)
      rw [digits_of_pos hb (by omega), hdiv, hmod, List.isEmpty_eq_false_iff.2 hne]
      rfl

end ZoneTables.Positional

namespace ZoneTables.Base60

open Positional Text

/-! ## Digits -/

theorem digitValue?_digitChar : ∀ d < 60, digitValue? (digitChar d) = some d := by decide

theorem digitChar_ne_mark :
    ∀ d < 60, digitChar d ≠ '-' ∧ digitChar d ≠ '+' ∧ digitChar d ≠ '.' := by
  decide

theorem readDigit_digitChar {d : Nat} (h : d < 60) : readDigit (digitChar d) = .ok d := by
  rw [readDigit, digitValue?_digitChar d h]

variable {c : Char} {cs text : List Char} {ds : List Nat} {d n : Nat} {x : Int} {negative : Bool}

theorem mapM_readDigit (h : ∀ d ∈ ds, d < 60) : (ds.map digitChar).mapM readDigit = .ok ds := by
  induction ds with
  | nil => rfl
  | cons d ds ih =>
    rw [List.map_cons, List.mapM_cons, readDigit_digitChar (h d List.mem_cons_self),
      ih fun e he => h e (List.mem_cons_of_mem d he)]
    rfl

theorem readMagnitude_digits (h : ∀ d ∈ ds, d < 60) (hne : ds ≠ []) :
    readMagnitude (ds.map digitChar) = .ok (value 60 ds) := by
  have hempty : (ds.map digitChar).isEmpty = false := by simpa using hne
  rw [readMagnitude, hempty, mapM_readDigit h]
  rfl

theorem splitSign_digits (h : ∀ d ∈ ds, d < 60) (hne : ds ≠ []) (cs : List Char) :
    splitSign (ds.map digitChar ++ cs) = (false, ds.map digitChar ++ cs) := by
  obtain ⟨d, es, rfl⟩ := List.exists_cons_of_ne_nil hne
  obtain ⟨hm, hp, -⟩ := digitChar_ne_mark d (h d List.mem_cons_self)
  exact splitSign_cons hm hp

theorem digits_ne_nil {n : Nat} (h : 0 < n) : digits 60 n ≠ [] := by
  rw [digits_of_pos (by omega) h]
  simp

/-- One of the sixty digits. -/
def IsDigit (c : Char) : Prop :=
  ('0' ≤ c ∧ c ≤ '9') ∨ ('a' ≤ c ∧ c ≤ 'z') ∨ ('A' ≤ c ∧ c ≤ 'X')

instance : DecidablePred IsDigit := fun c =>
  inferInstanceAs (Decidable (('0' ≤ c ∧ c ≤ '9') ∨ ('a' ≤ c ∧ c ≤ 'z') ∨ ('A' ≤ c ∧ c ≤ 'X')))

theorem isDigit_digitChar : ∀ d < 60, IsDigit (digitChar d) := by decide

theorem isDigit_zero : IsDigit '0' := isDigit_digitChar 0 (by decide)

theorem digitChar_eq_zero_iff : ∀ d < 60, (digitChar d = '0' ↔ d = 0) := by decide

theorem digitChar_of_digitValue? (h : digitValue? c = some d) : digitChar d = c ∧ d < 60 := by
  obtain ⟨⟨first, last, least⟩, hrow, hvalue⟩ := Option.map_eq_some_iff.1 h
  have hmem := List.mem_of_find?_eq_some hrow
  have hbounds := List.find?_some hrow
  simp only [Bool.and_eq_true, decide_eq_true_eq] at hbounds
  obtain ⟨hfirst, hlast⟩ : first.toNat ≤ c.toNat ∧ c.toNat ≤ last.toNat := hbounds
  have hvalue : c.toNat - first.toNat + least = d := hvalue
  have hchar (hd : (if d < 10 then d + 48 else if d < 36 then d + 87 else d + 29) = c.toNat) :
      digitChar d = c := by
    rw [digitChar, hd, Char.ofNat_toNat]
  simp only [rows, List.mem_cons, Prod.mk.injEq, List.not_mem_nil, or_false] at hmem
  rcases hmem with ⟨rfl, rfl, rfl⟩ | ⟨rfl, rfl, rfl⟩ | ⟨rfl, rfl, rfl⟩
  · have hrow : 'a'.toNat = 97 ∧ 'z'.toNat = 122 := by decide
    exact ⟨hchar (by split_ifs <;> omega), by omega⟩
  · have hrow : 'A'.toNat = 65 ∧ 'X'.toNat = 88 := by decide
    exact ⟨hchar (by split_ifs <;> omega), by omega⟩
  · have hrow : '0'.toNat = 48 ∧ '9'.toNat = 57 := by decide
    exact ⟨hchar (by split_ifs <;> omega), by omega⟩

theorem readDigit_eq_ok (h : readDigit c = .ok d) : digitChar d = c ∧ d < 60 := by
  unfold readDigit at h
  split at h
  · rename_i value hvalue
    cases h
    exact digitChar_of_digitValue? hvalue
  · cases h

theorem map_digitChar_of_mapM (h : cs.mapM readDigit = .ok ds) :
    ds.map digitChar = cs ∧ ∀ d ∈ ds, d < 60 := by
  induction cs generalizing ds with
  | nil =>
    cases h
    simp
  | cons c cs ih =>
    rw [List.mapM_cons] at h
    cases hd : readDigit c with
    | error e =>
      rw [hd] at h
      cases h
    | ok d =>
      cases hds : cs.mapM readDigit with
      | error e =>
        rw [hd, hds] at h
        cases h
      | ok es =>
        rw [hd, hds] at h
        cases h
        obtain ⟨hmap, hlt⟩ := ih hds
        obtain ⟨hchar, hd⟩ := readDigit_eq_ok hd
        rw [List.map_cons, hchar, hmap]
        exact ⟨rfl, List.forall_mem_cons.2 ⟨hd, hlt⟩⟩

theorem readMagnitude_eq_ok (h : readMagnitude cs = .ok n) :
    ∃ ds, (∀ d ∈ ds, d < 60) ∧ cs = ds.map digitChar ∧ n = value 60 ds := by
  unfold readMagnitude at h
  split at h
  · cases h
  · cases hds : cs.mapM readDigit with
    | error e =>
      rw [hds] at h
      cases h
    | ok ds =>
      rw [hds] at h
      cases h
      obtain ⟨hmap, hlt⟩ := map_digitChar_of_mapM hds
      exact ⟨ds, hlt, hmap.symm, rfl⟩

/-! ## Integers -/

/-- **Base-60 numerals read back.** -/
theorem read_write (x : Int) : read (write x) = .ok x := by
  by_cases hx : x = 0
  · subst hx
    rfl
  · have hpos : 0 < x.natAbs := Int.natAbs_pos.2 hx
    have hlt := digits_lt (by omega : 2 ≤ 60) x.natAbs
    have hne := digits_ne_nil hpos
    have hmag : readMagnitude (magnitude x.natAbs) = .ok x.natAbs := by
      rw [magnitude, readMagnitude_digits hlt hne, value_digits (by omega)]
    rw [write, if_neg hx]
    by_cases hneg : x < 0
    · have hsign : splitSign ('-' :: magnitude x.natAbs) = (true, magnitude x.natAbs) := rfl
      rw [if_pos hneg, List.singleton_append, read, hsign]
      simp only [hmag, bind, Except.bind, pure, Except.pure, if_true]
      rw [Int.ofNat_natAbs_of_nonpos (Int.le_of_lt hneg), Int.neg_neg]
    · have hsign : splitSign (magnitude x.natAbs) = (false, magnitude x.natAbs) := by
        simpa [magnitude] using splitSign_digits hlt hne []
      rw [if_neg hneg, List.nil_append, read, hsign]
      simp only [hmag, bind, Except.bind, pure, Except.pure, Bool.false_eq_true, if_false]
      rw [Int.natAbs_of_nonneg (Int.not_lt.1 hneg)]

theorem write_of_lt {n : Nat} (h : n < 60) : write n = [digitChar n] := by
  rcases Nat.eq_zero_or_pos n with rfl | hn
  · rfl
  · rw [write, if_neg (by omega), if_neg (by omega), List.nil_append, magnitude, Int.natAbs_natCast,
      digits_of_pos (by omega) hn, Nat.div_eq_of_lt h, digits_zero, Nat.mod_eq_of_lt h]
    rfl

/-! ## Seconds in minutes -/

/-- The digits of the whole minutes of a number of seconds; a zero if there are none. -/
def minuteDigits (n : Nat) : List Nat := if n < 60 then [0] else digits 60 (n / 60)

theorem minuteDigits_lt (n : Nat) : ∀ d ∈ minuteDigits n, d < 60 := by
  unfold minuteDigits
  split
  · simp
  · exact digits_lt (by omega) _

theorem minuteDigits_ne_nil (n : Nat) : minuteDigits n ≠ [] := by
  unfold minuteDigits
  split
  · simp
  · exact digits_ne_nil (by omega)

theorem value_minuteDigits (n : Nat) : value 60 (minuteDigits n) = n / 60 := by
  unfold minuteDigits
  split
  · rename_i h
    rw [Nat.div_eq_of_lt h]
    rfl
  · exact value_digits (by omega) _

/-- The point and the digit of the seconds left over. -/
def fraction (n : Nat) : List Char := if n % 60 = 0 then [] else ['.', digitChar (n % 60)]

theorem writeMinutes_eq {x : Int} (hx : x ≠ 0) :
    writeMinutes x = (if x < 0 then ['-'] else []) ++
      ((minuteDigits x.natAbs).map digitChar ++ fraction x.natAbs) := by
  unfold writeMinutes minuteDigits fraction
  rw [if_neg (Int.natAbs_ne_zero.2 hx), List.append_assoc]
  congr 2
  split <;> rfl

/-- The digits on both sides of the point are those of the number of seconds. -/
theorem joinPoint_minutes (n : Nat) :
    joinPoint ((minuteDigits n).map digitChar ++ fraction n) =
      (minuteDigits n ++ [n % 60]).map digitChar := by
  have hdigits : ∀ c ∈ (minuteDigits n).map digitChar, (c != '.') = true := by
    intro c hc
    obtain ⟨d, hd, rfl⟩ := List.mem_map.1 hc
    simpa using (digitChar_ne_mark d (minuteDigits_lt n d hd)).2.2
  rw [joinPoint, List.takeWhile_append_of_pos hdigits, List.dropWhile_append_of_pos hdigits,
    List.map_append, fraction]
  split
  · rename_i h
    rw [h]
    simp [digitChar]
  · simp

theorem readMagnitude_minutes (n : Nat) :
    readMagnitude (joinPoint ((minuteDigits n).map digitChar ++ fraction n)) = .ok n := by
  have hlt : ∀ d ∈ minuteDigits n ++ [n % 60], d < 60 := by
    intro d hd
    rcases List.mem_append.1 hd with hd | hd
    · exact minuteDigits_lt n d hd
    · rw [List.mem_singleton.1 hd]
      exact Nat.mod_lt _ (by omega)
  rw [joinPoint_minutes, readMagnitude_digits hlt (by simp), value_append, value_minuteDigits,
    Nat.div_add_mod']

/-- **Numerals in minutes read back.** -/
theorem readMinutes_writeMinutes (x : Int) : readMinutes (writeMinutes x) = .ok x := by
  by_cases hx : x = 0
  · subst hx
    rfl
  · have hmag := readMagnitude_minutes x.natAbs
    rw [writeMinutes_eq hx]
    by_cases hneg : x < 0
    · have hsign (cs : List Char) : splitSign ('-' :: cs) = (true, cs) := rfl
      rw [if_pos hneg, List.singleton_append, readMinutes, hsign]
      simp only [hmag, bind, Except.bind, pure, Except.pure, if_true]
      rw [Int.ofNat_natAbs_of_nonpos (Int.le_of_lt hneg), Int.neg_neg]
    · rw [if_neg hneg, List.nil_append, readMinutes,
        splitSign_digits (minuteDigits_lt _) (minuteDigits_ne_nil _)]
      simp only [hmag, bind, Except.bind, pure, Except.pure, Bool.false_eq_true, if_false]
      rw [Int.natAbs_of_nonneg (Int.not_lt.1 hneg)]

theorem lacks_writeMinutes {p : Char → Bool} (hd : ∀ d < 60, p (digitChar d) = false)
    (hm : p '-' = false) (hp : p '.' = false) (x : Int) : Lacks p (writeMinutes x) := by
  by_cases hx : x = 0
  · subst hx
    exact lacks_cons.2 ⟨hd 0 (by omega), lacks_nil⟩
  · have hdigits : Lacks p ((minuteDigits x.natAbs).map digitChar) := by
      rw [lacks_map]
      intro d hmem
      exact hd d (minuteDigits_lt _ d hmem)
    have hfraction : Lacks p (fraction x.natAbs) := by
      unfold fraction
      split
      · exact lacks_nil
      · simpa [hp] using hd _ (Nat.mod_lt _ (by omega))
    rw [writeMinutes_eq hx]
    refine lacks_append.2 ⟨?_, lacks_append.2 ⟨hdigits, hfraction⟩⟩
    split <;> simp [hm]

/-- **Only a number that is not of whole minutes has a point.** -/
theorem point_mem_writeMinutes_iff (x : Int) : '.' ∈ writeMinutes x ↔ ¬ 60 ∣ x := by
  by_cases hx : x = 0
  · subst hx
    simp [writeMinutes]
  · have hsign : '.' ∉ (if x < 0 then ['-'] else []) := by split <;> simp
    have hdigits : '.' ∉ (minuteDigits x.natAbs).map digitChar := by
      intro hmem
      obtain ⟨d, hd, hpoint⟩ := List.mem_map.1 hmem
      exact (digitChar_ne_mark d (minuteDigits_lt _ d hd)).2.2 hpoint
    have hfraction : '.' ∈ fraction x.natAbs ↔ ¬ x.natAbs % 60 = 0 := by
      unfold fraction
      split <;> simp [*]
    rw [writeMinutes_eq hx, List.mem_append, List.mem_append, hfraction]
    simp only [hsign, hdigits, false_or]
    omega

theorem writeMinutes_ne_nil (x : Int) : writeMinutes x ≠ [] := by
  by_cases hx : x = 0
  · subst hx
    simp [writeMinutes]
  · rw [writeMinutes_eq hx]
    simp [minuteDigits_ne_nil]

/-! ## The notation -/

/-- The sign of a number, which only a negative one has. -/
def sign (x : Int) : List Char := if x < 0 then ['-'] else []

/-- Digits after the sign of the number. -/
def IsNumeral (x : Int) (text : List Char) : Prop :=
  ∃ cs, cs ≠ [] ∧ (∀ c ∈ cs, IsDigit c) ∧ text = sign x ++ cs

/-- Digits after the sign of the number, and then nothing or a point and a digit that is not
zero. -/
def IsMinuteNumeral (x : Int) (text : List Char) : Prop :=
  ∃ cs fraction, cs ≠ [] ∧ (∀ c ∈ cs, IsDigit c) ∧
    (fraction = [] ∨ ∃ d, IsDigit d ∧ d ≠ '0' ∧ fraction = ['.', d]) ∧
    text = sign x ++ (cs ++ fraction)

theorem forall_isDigit (h : ∀ d ∈ ds, d < 60) : ∀ c ∈ ds.map digitChar, IsDigit c := by
  intro c hc
  obtain ⟨d, hd, rfl⟩ := List.mem_map.1 hc
  exact isDigit_digitChar d (h d hd)

theorem isNumeral_write (x : Int) : IsNumeral x (write x) := by
  unfold write
  split
  · rename_i hx
    subst hx
    exact ⟨['0'], by simp, List.forall_mem_singleton.2 isDigit_zero, rfl⟩
  · rename_i hx
    refine ⟨magnitude x.natAbs, ?_, forall_isDigit (digits_lt (by omega) _), rfl⟩
    simpa [magnitude] using digits_ne_nil (Int.natAbs_pos.2 hx)

theorem isMinuteNumeral_writeMinutes (x : Int) : IsMinuteNumeral x (writeMinutes x) := by
  by_cases hx : x = 0
  · subst hx
    exact ⟨['0'], [], by simp, List.forall_mem_singleton.2 isDigit_zero, .inl rfl, rfl⟩
  · refine ⟨(minuteDigits x.natAbs).map digitChar, fraction x.natAbs,
      by simpa using minuteDigits_ne_nil _, forall_isDigit (minuteDigits_lt _), ?_,
      writeMinutes_eq hx⟩
    have hlt : x.natAbs % 60 < 60 := Nat.mod_lt _ (by omega)
    unfold fraction
    split
    · exact .inl rfl
    · rename_i hne
      exact .inr ⟨_, isDigit_digitChar _ hlt, fun h => hne ((digitChar_eq_zero_iff _ hlt).1 h), rfl⟩

/-! ## Other spellings -/

/-- Digits without the zeros at their front. -/
def significant (cs : List Char) : List Char := cs.dropWhile (· == '0')

/-- The text without its plus sign and the zeros at the front of its digits. If nothing is left it
spells zero. -/
def plain (text : List Char) : List Char :=
  match text with
  | '-' :: cs => if significant cs = [] then ['0'] else '-' :: significant cs
  | '+' :: cs => if significant cs = [] then ['0'] else significant cs
  | cs => if significant cs = [] then ['0'] else significant cs

theorem plain_eq (h : splitSign text = (negative, cs)) :
    plain text = if significant cs = [] then ['0']
      else (if negative then ['-'] else []) ++ significant cs := by
  unfold plain
  split
  · cases h
    rfl
  · cases h
    rfl
  · rename_i hminus hplus
    rw [splitSign] at h
    · cases h
      rfl
    · exact hminus
    · exact hplus

/-- The numeral of a number that is read has its digits without the zeros at their front. -/
theorem magnitude_of_readMagnitude (h : readMagnitude cs = .ok n) :
    magnitude n = significant cs := by
  obtain ⟨ds, hlt, rfl, rfl⟩ := readMagnitude_eq_ok h
  rw [magnitude, digits_value (by omega) hlt, significant]
  clear h
  induction ds with
  | nil => rfl
  | cons d ds ih =>
    obtain ⟨hd, hlt⟩ := List.forall_mem_cons.1 hlt
    have hzero := digitChar_eq_zero_iff d hd
    rw [List.map_cons, List.dropWhile_cons, List.dropWhile_cons, ← ih hlt]
    simp only [beq_iff_eq, hzero]
    split <;> rfl

/-- **What is read is written in its plain form.** -/
theorem write_of_read (h : read text = .ok x) : write x = plain text := by
  cases hsign : splitSign text with
  | mk negative cs =>
    cases hn : readMagnitude cs with
    | error e =>
      simp only [read, hsign, hn, bind, Except.bind] at h
      cases h
    | ok n =>
      simp only [read, hsign, hn, bind, Except.bind, pure, Except.pure] at h
      have hx : x = if negative then -(n : Int) else n := (Except.ok.inj h).symm
      rw [plain_eq hsign, ← magnitude_of_readMagnitude hn, hx]
      rcases Nat.eq_zero_or_pos n with rfl | hpos
      · have hzero : magnitude 0 = [] := by simp [magnitude, digits_zero]
        rw [hzero]
        cases negative <;> rfl
      · have hne : magnitude n ≠ [] := by simpa [magnitude] using digits_ne_nil hpos
        rw [if_neg hne, write]
        cases negative with
        | true =>
          rw [if_pos rfl, if_neg (by omega), if_pos (by omega), Int.natAbs_neg, Int.natAbs_natCast]
          rfl
        | false =>
          rw [if_neg Bool.false_ne_true, if_neg (by omega), if_neg (by omega), Int.natAbs_natCast]
          rfl

/-- **Base-60 numerals round trip.** A number comes back from its numeral, and a number of seconds
from its numeral in minutes, of which each is in its notation; and a number that is read has the
plain form of its text as its numeral. -/
theorem numerals_roundTrip :
    (∀ x, read (write x) = .ok x ∧ IsNumeral x (write x)) ∧
    (∀ x, readMinutes (writeMinutes x) = .ok x ∧ IsMinuteNumeral x (writeMinutes x)) ∧
    ∀ text x, read text = .ok x → write x = plain text :=
  ⟨fun x => ⟨read_write x, isNumeral_write x⟩,
    fun x => ⟨readMinutes_writeMinutes x, isMinuteNumeral_writeMinutes x⟩,
    fun _ _ => write_of_read⟩

theorem numerals_roundTrip_signed :
    read "+00a0".toList = .ok 600 ∧ write 600 = plain "+00a0".toList ∧
      plain "+00a0".toList = "a0".toList ∧
      read "-000".toList = .ok 0 ∧ write 0 = plain "-000".toList ∧ plain "-000".toList = ['0'] := by
  obtain ⟨-, -, hplain⟩ := numerals_roundTrip
  have hplus : read "+00a0".toList = .ok 600 := by decide
  have hminus : read "-000".toList = .ok 0 := by decide
  exact ⟨hplus, hplain _ _ hplus, by decide, hminus, hplain _ _ hminus, by decide⟩

end ZoneTables.Base60
