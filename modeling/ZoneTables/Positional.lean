/-!
# Positional notation

The digits of a natural number in any base, and the number that a list of digits writes.
-/

namespace ZoneTables.Positional

/-- The digits of `n` in `base`, the most significant first; none for zero. -/
def digits (base n : Nat) : List Nat :=
  if n = 0 ∨ base < 2 then [] else digits base (n / base) ++ [n % base]
termination_by n
decreasing_by exact Nat.div_lt_self (by omega) (by omega)

/-- The number written by a list of digits. -/
def value (base : Nat) (ds : List Nat) : Nat :=
  ds.foldl (fun n d => n * base + d) 0

theorem value_append (base : Nat) (ds : List Nat) (d : Nat) :
    value base (ds ++ [d]) = value base ds * base + d := by
  simp [value]

theorem digits_zero (base : Nat) : digits base 0 = [] := by
  rw [digits]; simp

theorem digits_of_pos {base n : Nat} (hb : 2 ≤ base) (hn : 0 < n) :
    digits base n = digits base (n / base) ++ [n % base] := by
  rw [digits, if_neg (by omega)]

theorem value_digits {base : Nat} (hb : 2 ≤ base) (n : Nat) : value base (digits base n) = n := by
  induction n using Nat.strongRecOn with
  | _ n ih =>
    obtain rfl | hn := Nat.eq_zero_or_pos n
    · simp [digits_zero, value]
    · rw [digits_of_pos hb hn, value_append, ih _ (Nat.div_lt_self hn hb), Nat.mul_comm]
      exact Nat.div_add_mod n base

theorem digits_lt {base : Nat} (hb : 2 ≤ base) (n : Nat) : ∀ d ∈ digits base n, d < base := by
  induction n using Nat.strongRecOn with
  | _ n ih =>
    obtain rfl | hn := Nat.eq_zero_or_pos n
    · simp [digits_zero]
    · intro d hd
      rw [digits_of_pos hb hn, List.mem_append, List.mem_singleton] at hd
      rcases hd with hd | rfl
      · exact ih _ (Nat.div_lt_self hn hb) d hd
      · exact Nat.mod_lt _ (by omega)

end ZoneTables.Positional
