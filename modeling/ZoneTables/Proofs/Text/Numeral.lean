import Mathlib.Data.List.TakeDrop
import Mathlib.Data.List.TakeWhile
import ZoneTables.Proofs.Text.Pieces
import ZoneTables.Text.Numeral

/-!
# Decimal numerals read back

`read_integer`: the numeral of an integer denotes that integer, provided it has no more digits than
a reader takes. `read_digits` is the same for a run of digits without a sign, as the fields of an
offset are.
-/

namespace ZoneTables.Text

open Positional

/-! ## Digits -/

theorem digitValue?_decimalDigit : ∀ d < 10, digitValue? (decimalDigit d) = some d := by decide

theorem isBlank_decimalDigit : ∀ d < 10, isBlank (decimalDigit d) = false := by decide

theorem isDigit_decimalDigit : ∀ d < 10, isDigit (decimalDigit d) = true := by decide

theorem decimalDigit_ne_sign : ∀ d < 10, decimalDigit d ≠ '-' ∧ decimalDigit d ≠ '+' := by decide

theorem length_digits_le {n k : Nat} (h : n < Nat.pow 10 k) : (digits 10 n).length ≤ k := by
  induction k generalizing n with
  | zero =>
    have hn : n = 0 := by simpa using h
    simp [hn, digits_zero]
  | succ k ih =>
    rcases Nat.eq_zero_or_pos n with rfl | hn
    · simp [digits_zero]
    · have hq : n / 10 < Nat.pow 10 k := by
        rw [Nat.div_lt_iff_lt_mul (by omega)]
        exact h
      rw [digits_of_pos (by omega) hn, List.length_append]
      exact Nat.succ_le_succ (ih hq)

theorem lt_length_digits {n k : Nat} (h : Nat.pow 10 k ≤ n) : k < (digits 10 n).length := by
  induction k generalizing n with
  | zero =>
    rw [digits_of_pos (by omega) h]
    simp
  | succ k ih =>
    have hq : Nat.pow 10 k ≤ n / 10 := (Nat.le_div_iff_mul_le (by omega)).2 h
    have hn : 0 < n := Nat.lt_of_lt_of_le (Nat.pow_pos (by omega)) h
    rw [digits_of_pos (by omega) hn, List.length_append]
    exact Nat.succ_lt_succ (ih hq)

theorem natural_of_pos {n : Nat} (h : 0 < n) : natural n = (digits 10 n).map decimalDigit := by
  rw [natural, if_neg (by omega)]

theorem exists_digits_natural (n : Nat) :
    ∃ ds, natural n = ds.map decimalDigit ∧ ds ≠ [] ∧ (∀ d ∈ ds, d < 10) ∧ value 10 ds = n ∧
      (n < Nat.pow 10 Numeral.maxDigits → ds.length ≤ Numeral.maxDigits) := by
  rcases Nat.eq_zero_or_pos n with rfl | hn
  · exact ⟨[0], rfl, by simp, by simp, rfl, fun _ => by simp [Numeral.maxDigits]⟩
  · refine ⟨digits 10 n, natural_of_pos hn, ?_, digits_lt (by omega) n, value_digits (by omega) n,
      length_digits_le⟩
    rw [digits_of_pos (by omega) hn]
    simp

theorem padded_two {n : Nat} (h : n < 100) :
    padded 2 n = [decimalDigit (n / 10), decimalDigit (n % 10)] := by
  have hn : ¬ ((n : Int) < 0) := by omega
  unfold padded
  rw [if_neg hn, Int.natAbs_natCast]
  rcases Nat.eq_zero_or_pos n with rfl | h0
  · rfl
  · rw [natural_of_pos h0, digits_of_pos (by omega) h0]
    rcases Nat.eq_zero_or_pos (n / 10) with hq | hq
    · rw [hq, digits_zero]
      rfl
    · rw [digits_of_pos (by omega) hq, Nat.div_eq_of_lt (by omega : n / 10 < 10), digits_zero,
        Nat.mod_eq_of_lt (by omega : n / 10 < 10)]
      rfl

theorem padded_of_le_length {width n : Nat} (h : width ≤ (natural n).length) :
    padded width n = natural n := by
  have hn : ¬ ((n : Int) < 0) := by omega
  unfold padded
  rw [if_neg hn, Int.natAbs_natCast]
  simp [Nat.sub_eq_zero_of_le h]

/-! ## Trimming -/

theorem dropWhile_of_lacks {p : Char → Bool} {cs : List Char} (h : Lacks p cs) :
    cs.dropWhile p = cs := by
  cases cs with
  | nil => rfl
  | cons c cs => simp [(lacks_cons.1 h).1]

theorem trim_of_lacks {p : Char → Bool} {cs : List Char} (h : Lacks p cs) : trim p cs = cs := by
  rw [trim, trimEnd, dropWhile_of_lacks h, dropWhile_of_lacks (lacks_reverse h),
    List.reverse_reverse]

namespace Numeral

variable {ds : List Nat}

theorem isWord_digits (h : ∀ d ∈ ds, d < 10) : IsWord (ds.map decimalDigit) := by
  apply lacks_map.2
  intro d hd
  exact isBlank_decimalDigit d (h d hd)

theorem trim_word {cs : List Char} (h : IsWord cs) : trim isMargin cs = cs :=
  trim_of_lacks fun c hc => by simp [isMargin, h c hc]

theorem readRun_digits (h : ∀ d ∈ ds, d < 10) (b : Bool) (hb : ds ≠ [] ∨ b = true) :
    readRun b (ds.map decimalDigit) = some ds := by
  induction ds generalizing b with
  | nil => simp_all [readRun]
  | cons d ds ih =>
    have hd := digitValue?_decimalDigit d (h d List.mem_cons_self)
    have hds := ih (fun e he => h e (List.mem_cons_of_mem d he)) true (Or.inr rfl)
    simp [readRun, hd, hds]

theorem takeWhile_digits (h : ∀ d ∈ ds, d < 10) :
    (ds.map decimalDigit).takeWhile (fun c => (digitValue? c).isSome || c == '_') =
      ds.map decimalDigit := by
  rw [List.takeWhile_eq_self_iff]
  intro c hc
  obtain ⟨d, hd, rfl⟩ := List.mem_map.1 hc
  simp [digitValue?_decimalDigit d (h d hd)]

theorem dropWhile_digits (h : ∀ d ∈ ds, d < 10) :
    (ds.map decimalDigit).dropWhile (fun c => (digitValue? c).isSome || c == '_') = [] := by
  rw [List.dropWhile_eq_nil_iff]
  intro c hc
  obtain ⟨d, hd, rfl⟩ := List.mem_map.1 hc
  simp [digitValue?_decimalDigit d (h d hd)]

theorem isWritable_of_lt {n : Int} (h : n.natAbs < 1000) : isWritable n = true := by
  have hpow (k : Nat) (hk : 3 < k) : 1000 < Nat.pow 10 k := by
    show 10 ^ 3 < 10 ^ k
    exact Nat.pow_lt_pow_right (by omega) hk
  exact decide_eq_true (h.trans (hpow maxDigits (by decide)))

theorem read_digits (h : ∀ d ∈ ds, d < 10) (hne : ds ≠ []) (hlen : ds.length ≤ maxDigits) :
    read (ds.map decimalDigit) = .ok (value 10 ds) := by
  have hsign : splitSign (ds.map decimalDigit) = (false, ds.map decimalDigit) := by
    obtain ⟨d, es, rfl⟩ := List.exists_cons_of_ne_nil hne
    obtain ⟨hm, hp⟩ := decimalDigit_ne_sign d (h d List.mem_cons_self)
    exact splitSign_cons hm hp
  unfold read
  rw [trim_word (isWord_digits h), hsign]
  simp [takeWhile_digits h, dropWhile_digits h, readRun_digits h false (Or.inl hne),
    Nat.not_lt.2 hlen]

theorem read_neg_digits (h : ∀ d ∈ ds, d < 10) (hne : ds ≠ []) (hlen : ds.length ≤ maxDigits) :
    read ('-' :: ds.map decimalDigit) = .ok (-(value 10 ds : Int)) := by
  have hw : IsWord ('-' :: ds.map decimalDigit) := lacks_cons.2 ⟨by decide, isWord_digits h⟩
  have hsign : splitSign ('-' :: ds.map decimalDigit) = (true, ds.map decimalDigit) := rfl
  unfold read
  rw [trim_word hw, hsign]
  simp [takeWhile_digits h, dropWhile_digits h, readRun_digits h false (Or.inl hne),
    Nat.not_lt.2 hlen]

/-- **Numerals read back.** -/
theorem read_integer {n : Int} (h : isWritable n = true) : read (integer n) = .ok n := by
  obtain ⟨ds, hds, hne, hlt, hv, hlen⟩ := exists_digits_natural n.natAbs
  have hlen := hlen (of_decide_eq_true h)
  unfold integer
  rw [hds]
  by_cases hn : n < 0
  · rw [if_pos hn, List.singleton_append, read_neg_digits hlt hne hlen, hv,
      Int.ofNat_natAbs_of_nonpos (Int.le_of_lt hn), Int.neg_neg]
  · rw [if_neg hn, List.nil_append, read_digits hlt hne hlen, hv,
      Int.natAbs_of_nonneg (Int.not_lt.1 hn)]

theorem nonneg_of_read {text : List Char} {n : Int} (h : read text = .ok n) (hminus : '-' ∉ text) :
    0 ≤ n := by
  have hsign : (splitSign (trim isMargin text)).1 = false :=
    eq_false_of_ne_true fun hneg => hminus (mem_of_mem_trim (mem_of_splitSign_fst hneg))
  unfold read at h
  simp only [hsign] at h
  split at h
  · cases h
  · split at h
    · cases h
    · split at h
      · rw [← Except.ok.inj h]
        exact Int.natCast_nonneg _
      · cases h

end Numeral

section

variable {p : Char → Bool} (hd : ∀ d < 10, p (decimalDigit d) = false)

include hd

theorem lacks_natural (n : Nat) : Lacks p (natural n) := by
  obtain ⟨ds, hds, -, hlt, -, -⟩ := exists_digits_natural n
  rw [hds, lacks_map]
  intro d hmem
  exact hd d (hlt d hmem)

theorem lacks_integer (hm : p '-' = false) (n : Int) : Lacks p (integer n) := by
  refine lacks_append.2 ⟨?_, lacks_natural hd n.natAbs⟩
  split
  · exact lacks_cons.2 ⟨hm, lacks_nil⟩
  · exact lacks_nil

theorem lacks_padded (hm : p '-' = false) (width : Nat) (n : Int) : Lacks p (padded width n) := by
  refine lacks_append.2 ⟨lacks_append.2 ⟨?_, ?_⟩, lacks_natural hd n.natAbs⟩
  · split
    · exact lacks_cons.2 ⟨hm, lacks_nil⟩
    · exact lacks_nil
  · intro c hc
    rw [List.eq_of_mem_replicate hc]
    exact hd 0 (by omega)

end

theorem integer_ne_nil (n : Int) : integer n ≠ [] := by
  obtain ⟨ds, hds, hne, -⟩ := exists_digits_natural n.natAbs
  unfold integer
  rw [hds]
  simp [hne]

end ZoneTables.Text
