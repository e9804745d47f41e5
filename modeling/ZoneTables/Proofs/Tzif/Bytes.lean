import Mathlib.Data.List.Flatten
import ZoneTables.Tzif.Bytes

/-!
# Numbers in bytes

The bytes of a number, most significant first, hold it again (`toNat_bigEndian`), and so do those of
an integer in two's complement (`toInt_ofInt`). A part of a file that stands between two others is
found at its place (`slice_append`, `field?_append`), and pieces of one size are found as groups
(`groups_flatMap`).
-/

namespace ZoneTables.Bytes

variable {α : Type} {f : α → Bytes} {xs : List α} {size : Nat}

/-! ## Numbers -/

/-- How many numbers so many bytes tell apart. -/
def numbers (size : Nat) : Nat := 1 <<< (8 * size)

theorem numbers_succ (size : Nat) : numbers (size + 1) = 256 * numbers size := by
  rw [numbers, Nat.mul_succ, Nat.shiftLeft_add, Nat.shiftLeft_eq _ 8, Nat.mul_comm]
  rfl

theorem numbers_pos (size : Nat) : 0 < numbers size := by
  induction size with
  | zero => decide
  | succ size ih =>
    rw [numbers_succ]
    omega

/-- An integer is one of those that so many bytes hold in two's complement. -/
def Fits (size : Nat) (n : Int) : Prop := -numbers size ≤ 2 * n ∧ 2 * n < numbers size

instance (size : Nat) (n : Int) : Decidable (Fits size n) := inferInstanceAs (Decidable (_ ∧ _))

/-- The last `size` bytes of a number, most significant first. -/
def bigEndian : Nat → Nat → Bytes
  | 0, _ => []
  | size + 1, n => bigEndian size (n / 256) ++ [UInt8.ofNat n]

/-- An integer in two's complement. -/
def ofInt (size : Nat) (n : Int) : Bytes := bigEndian size (n % numbers size).toNat

@[simp] theorem length_bigEndian (size n : Nat) : (bigEndian size n).length = size := by
  induction size generalizing n with
  | zero => rfl
  | succ size ih => rw [bigEndian, List.length_append, ih, List.length_singleton]

@[simp] theorem length_ofInt (size : Nat) (n : Int) : (ofInt size n).length = size :=
  length_bigEndian size _

theorem toNat_append_singleton (bs : Bytes) (b : UInt8) :
    toNat (bs ++ [b]) = toNat bs * 256 + b.toNat := by
  rw [toNat, List.foldl_append]
  rfl

/-- **The bytes of a number hold it.** -/
theorem toNat_bigEndian {n : Nat} (h : n < numbers size) : toNat (bigEndian size n) = n := by
  induction size generalizing n with
  | zero =>
    have hzero : n = 0 := Nat.lt_one_iff.1 h
    rw [hzero]
    rfl
  | succ size ih =>
    rw [numbers_succ] at h
    rw [bigEndian, toNat_append_singleton, ih (by omega), UInt8.toNat_ofNat']
    omega

/-- **The bytes of an integer hold it**, if it fits into them. -/
theorem toInt_ofInt {n : Int} (h : Fits size n) : toInt (ofInt size n) = n := by
  obtain ⟨hlow, hhigh⟩ := h
  have hpos := numbers_pos size
  have hrem : 0 ≤ n % numbers size := Int.emod_nonneg _ (by omega)
  have hlt : n % numbers size < numbers size := Int.emod_lt_of_pos _ (by omega)
  have hnat : toNat (ofInt size n) = (n % numbers size).toNat := toNat_bigEndian (by omega)
  have hsize : 1 <<< (8 * size) = numbers size := rfl
  unfold toInt
  simp only [hnat, length_ofInt, hsize]
  rcases Int.lt_or_le n 0 with hneg | hnonneg
  · have hmod : n % numbers size = n + numbers size := by
      rw [← Int.add_emod_right, Int.emod_eq_of_lt (by omega) (by omega)]
    rw [hmod] at hrem ⊢
    rw [if_neg (by omega)]
    omega
  · have hmod : n % numbers size = n := Int.emod_eq_of_lt hnonneg (by omega)
    rw [hmod, if_pos (by omega)]
    omega

/-! ## Parts of a file -/

theorem place_natCast {length n : Nat} (h : n ≤ length) : place length n = n := by
  unfold place
  rw [if_neg (by omega)]
  omega

/-- **What stands between two parts is the slice there.** -/
theorem slice_append (front part back : Bytes) :
    slice (front ++ (part ++ back)) front.length (front.length + part.length) = part := by
  have hlast : ((front.length : Int) + part.length) = ((front.length + part.length : Nat) : Int) :=
    rfl
  rw [slice, hlast, place_natCast (by simp), place_natCast (by simp), ← List.append_assoc,
    ← List.length_append, List.take_left, List.drop_left]

theorem field?_append (front part back : Bytes) :
    field? (front ++ (part ++ back)) front.length part.length = some part := by
  have hlength : (front ++ (part ++ back)).length = front.length + (part.length + back.length) := by
    rw [List.length_append, List.length_append]
  unfold field?
  rw [hlength, if_neg (by omega : ¬(front.length : Int) < 0), if_neg (by omega),
    Int.toNat_natCast, List.drop_left, List.take_left]

theorem length_slice_le (bs : Bytes) (first last : Nat) :
    (slice bs first last).length ≤ bs.length - first := by
  unfold slice place
  rw [List.length_drop, List.length_take, if_neg (by omega), if_neg (by omega)]
  omega

/-! ## Pieces of one size -/

theorem length_flatMap_of_size (h : ∀ x ∈ xs, (f x).length = size) :
    (xs.flatMap f).length = xs.length * size := by
  induction xs with
  | nil => simp
  | cons x xs ih =>
    obtain ⟨hx, hxs⟩ := List.forall_mem_cons.1 h
    rw [List.flatMap_cons, List.length_append, hx, ih hxs, List.length_cons, Nat.succ_mul,
      Nat.add_comm]

/-- **Pieces of one size are found at multiples of it.** -/
theorem take_drop_flatMap (h : ∀ x ∈ xs, (f x).length = size) {i : Nat} {x : α}
    (hx : xs[i]? = some x) : ((xs.flatMap f).drop (i * size)).take size = f x := by
  induction xs generalizing i with
  | nil => simp at hx
  | cons y xs ih =>
    obtain ⟨hy, hxs⟩ := List.forall_mem_cons.1 h
    rw [List.flatMap_cons]
    cases i with
    | zero =>
      obtain rfl : y = x := by simpa using hx
      rw [Nat.zero_mul, List.drop_zero, ← hy, List.take_left]
    | succ i =>
      rw [Nat.succ_mul, Nat.add_comm, ← List.drop_drop, ← hy, List.drop_left, hy]
      exact ih hxs hx

theorem groups_append {piece rest : Bytes} (hpiece : piece.length = size) (hsize : 0 < size) :
    groups size (piece ++ rest) = piece :: groups size rest := by
  subst hpiece
  have hcount : (piece ++ rest).length / piece.length = rest.length / piece.length + 1 := by
    rw [List.length_append, Nat.add_div_left _ hsize]
  unfold groups
  rw [hcount, List.range_succ_eq_map, List.map_cons, List.map_map, Nat.zero_mul, List.drop_zero,
    List.take_left]
  refine congrArg (piece :: ·) (List.map_congr_left fun i _ => ?_)
  rw [Function.comp_apply, Nat.succ_mul, Nat.add_comm, ← List.drop_drop, List.drop_left]

/-- **Pieces of one size are the groups of that size.** -/
theorem groups_flatMap (hsize : 0 < size) (h : ∀ x ∈ xs, (f x).length = size) :
    groups size (xs.flatMap f) = xs.map f := by
  induction xs with
  | nil => simp [groups]
  | cons x xs ih =>
    obtain ⟨hx, hxs⟩ := List.forall_mem_cons.1 h
    rw [List.flatMap_cons, groups_append hx hsize, ih hxs, List.map_cons]

end ZoneTables.Bytes
