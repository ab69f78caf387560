import Mathlib

/-! # Conversions between machine integers

A machine integer is the integer it stands for; a conversion reduces it to the range of its
target, and leaves it alone when it is there already.
-/

namespace ProtoJS.Words

/-- Conversion to a signed type of the given width. -/
def signed (width : ℕ) (value : ℤ) : ℤ := value.bmod (2 ^ width)

/-- Conversion to an unsigned type of the given width. -/
def unsigned (width : ℕ) (value : ℤ) : ℕ := (value % 2 ^ width).toNat

variable {width : ℕ} {value : ℤ}

theorem signed_eq_self (low : -2 ^ width ≤ value) (high : value < 2 ^ width) :
    signed (width + 1) value = value := by
  apply Int.bmod_eq_of_le_mul_two
  · push_cast
    rw [pow_succ]
    omega
  · push_cast
    rw [pow_succ]
    omega

theorem le_signed : -2 ^ width ≤ signed (width + 1) value := by
  have bound := Int.le_bmod (x := value) (m := 2 ^ (width + 1)) (by positivity)
  push_cast at bound
  rw [pow_succ, Int.mul_ediv_cancel _ two_ne_zero] at bound
  exact bound

theorem signed_lt : signed (width + 1) value < 2 ^ width := by
  have bound := Int.bmod_lt (x := value) (m := 2 ^ (width + 1)) (by positivity)
  push_cast at bound
  rw [pow_succ] at bound
  unfold signed
  rw [pow_succ]
  omega

theorem signed_le (nonneg : 0 ≤ value) : signed width value ≤ value := by
  have residue : value % 2 ^ width ≤ value := by
    obtain ⟨natural, rfl⟩ := Int.eq_ofNat_of_zero_le nonneg
    exact_mod_cast Nat.mod_le natural (2 ^ width)
  have modulus : (0 : ℤ) < 2 ^ width := by positivity
  unfold signed Int.bmod
  push_cast
  split_ifs <;> omega

theorem unsigned_eq_self {value : ℕ} (high : value < 2 ^ width) :
    unsigned width value = value := by
  have small : (value : ℤ) % 2 ^ width = value :=
    Int.emod_eq_of_lt (by positivity) (by exact_mod_cast high)
  rw [unsigned, small, Int.toNat_natCast]

/-- A negative value wraps around to the top of the range. -/
theorem unsigned_of_neg (negative : value < 0) (low : -2 ^ width ≤ value) :
    (unsigned width value : ℤ) = 2 ^ width + value := by
  have shifted : value % 2 ^ width = 2 ^ width + value := by
    rw [← Int.add_emod_left, Int.emod_eq_of_lt]
    · omega
    · omega
  rw [unsigned, shifted, Int.toNat_of_nonneg (by omega)]

theorem unsigned_emod {wide : ℕ} (le : width ≤ wide) :
    (unsigned wide value : ℤ) % 2 ^ width = value % 2 ^ width := by
  have nonneg : 0 ≤ value % 2 ^ wide := Int.emod_nonneg value (by positivity)
  rw [unsigned, Int.toNat_of_nonneg nonneg]
  exact Int.emod_emod_of_dvd value (pow_dvd_pow 2 le)

theorem signed_congr {other : ℤ} (same : value % 2 ^ width = other % 2 ^ width) :
    signed width value = signed width other := by
  have residue (n : ℤ) : signed width n = (n % ((2 ^ width : ℕ) : ℤ)).bmod (2 ^ width) :=
    (Int.emod_bmod n (2 ^ width)).symm
  rw [residue, residue]
  push_cast
  rw [same]

/-- Values one whole range apart convert alike. -/
theorem signed_sub_two_pow : signed width (value - 2 ^ width) = signed width value :=
  signed_congr (Int.sub_emod_right value (2 ^ width))

/-- Through a wider unsigned type and back, a sum loses nothing but what its target loses. -/
theorem signed_unsigned_add {wide : ℕ} (le : width ≤ wide) (other : ℤ) :
    signed width (unsigned wide (unsigned wide value + other)) = signed width (value + other) := by
  apply signed_congr
  calc
    (unsigned wide (unsigned wide value + other) : ℤ) % 2 ^ width
        = (unsigned wide value + other) % 2 ^ width := unsigned_emod le
    _ = ((unsigned wide value : ℤ) % 2 ^ width + other) % 2 ^ width := by rw [Int.emod_add_emod]
    _ = (value % 2 ^ width + other) % 2 ^ width := by rw [unsigned_emod le]
    _ = (value + other) % 2 ^ width := by rw [Int.emod_add_emod]

end ProtoJS.Words
