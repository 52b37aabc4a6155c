import Cassowary.Proofs.DoubleOperations

/-!
Dividing by multiplying with the reciprocal. The reciprocal of a double is out of range if the double is
small enough, and rounded unless the double is a power of two. A product with it is rounded once more, so
that it comes close to the quotient but need not equal it.
-/

namespace Cassowary.Reciprocals
open Float.Model.UnpackedFloat (Sign)
open Doubles Rounding DoubleOperations

variable {s s' : Sign} {k : Int} {a b : Float} {x y : Rat}

theorem le_one_div_iff (pos : 0 < y) : (2 : Rat) ^ k ≤ 1 / y ↔ y ≤ 2 ^ (-k) := by
  rw [le_div_iff₀ pos, ← le_div_iff₀' (two_zpow_pos k), one_div, zpow_neg]

theorem one_div_le_iff (pos : 0 < y) : 1 / y ≤ (2 : Rat) ^ k ↔ 2 ^ (-k) ≤ y := by
  rw [div_le_iff₀ pos, ← div_le_iff₀' (two_zpow_pos k), one_div, zpow_neg]

/-- A finite double is a whole multiple of the least one. -/
theorem exists_units (signed : HasSign s a) : ∃ n : Nat, |exact a| = n * 2 ^ (-1074 : Int) := by
  obtain ⟨m, e, pos, unpacked⟩ := signed
  obtain ⟨-, least, -, -⟩ := canonical_of_unpack unpacked
  obtain ⟨k, more⟩ := Int.eq_ofNat_of_zero_le (sub_nonneg.mpr least)
  refine ⟨m * 2 ^ k, ?_⟩
  rw [abs_exact unpacked, Nat.cast_mul, mul_assoc, Nat.cast_pow, Nat.cast_ofNat, two_pow_mul_zpow,
    ← more]
  congr 2
  omega

theorem abs_exact_lt (signed : HasSign s a) : |exact a| < 2 ^ (1024 : Int) := by
  obtain ⟨m, e, pos, unpacked⟩ := signed
  obtain ⟨bits, -, most, -⟩ := canonical_of_unpack unpacked
  rw [abs_exact unpacked]
  calc (m : Rat) * 2 ^ e < 2 ^ 53 * 2 ^ e :=
        mul_lt_mul_of_pos_right (by exact_mod_cast bits) (two_zpow_pos e)
    _ = 2 ^ (53 + e) := two_pow_mul_zpow 53 e
    _ ≤ 2 ^ (1024 : Int) := zpow_le_zpow_right₀ one_le_two (by omega)

/-- The double is one. -/
theorem hasSign_one {one : Float} (unit : SignedOne .positive one) :
    HasSign .positive one ∧ |exact one| = 1 := by
  have signed : HasSign .positive one := ⟨_, _, _, unit⟩
  refine ⟨signed, ?_⟩
  rw [abs_exact unit]
  norm_num

theorem reciprocal_eq_double {one : Float} (unit : SignedOne .positive one) (signed : HasSign s a) :
    one / a = double s (1 / |exact a|) := by
  obtain ⟨positive, value⟩ := hasSign_one unit
  rw [div_eq_double positive signed, value, sign_div, positive_mul]

/-- Only numbers that are far smaller than one divided by the greatest double have no reciprocal. -/
theorem reciprocal_isFinite_iff {one : Float} (unit : SignedOne .positive one) (signed : HasSign s a) :
    (one / a).isFinite = true ↔ 2 ^ (-1024 : Int) < |exact a| := by
  have positive := abs_exact_pos signed
  have inverse : (0 : Rat) < 1 / |exact a| := one_div_pos.mpr positive
  rw [reciprocal_eq_double unit signed, double_isFinite_iff inverse]
  constructor
  · intro range
    by_contra small
    have large := (le_one_div_iff (k := 1024) positive).mpr (not_lt.mp small)
    exact absurd range (le_approximation large).not_gt
  · intro more
    refine approximation_lt inverse ?_
    obtain ⟨n, units⟩ := exists_units signed
    have many : 2 ^ 50 + 1 ≤ n := by
      rw [units, ← div_lt_iff₀ (two_zpow_pos _), ← zpow_sub₀ two_ne_zero] at more
      have whole : (2 : Rat) ^ (-1024 - -1074 : Int) = (2 ^ 50 : Nat) := by norm_num
      rw [whole] at more
      exact_mod_cast more
    rw [div_le_iff₀ positive, units]
    calc (1 : Rat) = 2 ^ 103 * 2 ^ (-103 : Int) := by norm_num
      _ ≤ ((2 ^ 53 - 1 : Nat) * n) * 2 ^ (-103 : Int) := by
          refine mul_le_mul_of_nonneg_right ?_ (two_zpow_pos _).le
          have bits : 2 ^ 103 ≤ (2 ^ 53 - 1) * n := le_trans (by norm_num) (Nat.mul_le_mul_left _ many)
          exact_mod_cast bits
      _ = (2 ^ 53 - 1 : Nat) * 2 ^ (971 : Int) * (n * 2 ^ (-1074 : Int)) := by
          rw [show (-103 : Int) = 971 + -1074 by norm_num, two_zpow_add]
          ring

/-- The reciprocal of a power of two is exact. -/
theorem reciprocal_of_power {one : Float} (unit : SignedOne .positive one) (signed : HasSign s a)
    (power : |exact a| = 2 ^ k) (range : -1024 < k) :
    HasSign s (one / a) ∧ |exact (one / a)| = 2 ^ (-k) := by
  have high : k < 1024 := by
    have top := abs_exact_lt signed
    rw [power] at top
    exact (zpow_lt_zpow_iff_right₀ one_lt_two).mp top
  have inverse : 1 / |exact a| = 2 ^ (-k) := by rw [power, one_div, zpow_neg]
  have unrounded : approximation (2 ^ (-k)) = 2 ^ (-k) := by
    have single := approximation_eq (m := 1) (e := -k) one_pos (by norm_num) (by omega)
    rwa [Nat.cast_one, one_mul] at single
  have positive : (0 : Rat) < approximation (2 ^ (-k)) := by
    rw [unrounded]
    exact two_zpow_pos _
  have bound : approximation (2 ^ (-k)) < 2 ^ (1024 : Int) := by
    rw [unrounded]
    exact zpow_lt_zpow_right₀ one_lt_two (by omega)
  have result := hasSign_double (s := s) (two_zpow_pos (-k)) positive bound
  rw [unrounded] at result
  rwa [reciprocal_eq_double unit signed, inverse]

/-- Dividing by a power of two and multiplying by its reciprocal round the same number. -/
theorem div_eq_mul_reciprocal {one : Float} (unit : SignedOne .positive one) (signed : HasSign s a)
    (signed' : HasSign s' b) (power : |exact b| = 2 ^ k) (range : -1024 < k) :
    a / b = a * (one / b) := by
  obtain ⟨inverse, value⟩ := reciprocal_of_power unit signed' power range
  rw [div_eq_double signed signed', mul_eq_double signed inverse, value, power, sign_div, zpow_neg,
    div_eq_mul_inv]

/-- A positive number is approximated by a positive one if it is not too small. -/
theorem approximation_bounds (normal : 2 ^ (-1022 : Int) ≤ x) :
    x ≤ 2 * approximation x ∧ approximation x ≤ 2 * x := by
  have pos : 0 < x := lt_of_lt_of_le (two_zpow_pos _) normal
  have near := approximation_near normal
  have low := neg_abs_le (approximation x - x)
  have high := le_abs_self (approximation x - x)
  constructor <;> linarith

theorem double_zpow (k : Int) : 2 * (2 : Rat) ^ k = 2 ^ (k + 1) := by
  rw [two_zpow_add, zpow_one, mul_comm]

/-- Rounding the reciprocal, the product with it and the quotient itself makes three errors. -/
theorem reciprocal_product_near (pos : 0 < x) (normal : 2 ^ (-1022 : Int) ≤ 1 / y)
    (normal' : 2 ^ (-1021 : Int) ≤ x / y) :
    2 ^ (-1022 : Int) ≤ x * approximation (1 / y) ∧ x * approximation (1 / y) ≤ 2 * (x / y) ∧
      |approximation (x / y) - approximation (x * approximation (1 / y))| * 2 ^ 51 ≤ x / y := by
  have near := approximation_near normal
  obtain ⟨half, twice⟩ := approximation_bounds normal
  generalize approximation (1 / y) = p at *
  have product : x * (1 / y) = x / y := mul_one_div x y
  have low : x / y ≤ 2 * (x * p) := by
    rw [← product, mul_left_comm]
    exact mul_le_mul_of_nonneg_left half pos.le
  have high : x * p ≤ 2 * (x / y) := by
    rw [← product, mul_left_comm]
    exact mul_le_mul_of_nonneg_left twice pos.le
  have double : 2 * (2 : Rat) ^ (-1022 : Int) = 2 ^ (-1021 : Int) := double_zpow (-1022)
  have above : 2 ^ (-1022 : Int) ≤ x * p := by linarith
  refine ⟨above, high, ?_⟩
  have first : |x * p - x / y| * 2 ^ 53 ≤ x / y := by
    rw [← product, ← mul_sub, abs_mul, abs_of_pos pos, mul_assoc]
    exact mul_le_mul_of_nonneg_left near pos.le
  have second := approximation_near above
  have third := approximation_near (le_trans (zpow_le_zpow_right₀ one_le_two (by norm_num)) normal')
  rw [abs_sub_comm] at second first
  have path := abs_add_three (approximation (x / y) - x / y) (x / y - x * p)
    (x * p - approximation (x * p))
  have whole : approximation (x / y) - x / y + (x / y - x * p) + (x * p - approximation (x * p)) =
      approximation (x / y) - approximation (x * p) := by ring
  rw [whole] at path
  linarith

/-- The two ways to divide give numbers that differ by at most one part in two to the power of 51, unless
numbers close to the ends of the range come up. -/
theorem quotients_near {one : Float} (unit : SignedOne .positive one) (signed : HasSign s a)
    (signed' : HasSign s' b) (low : 2 ^ (-1022 : Int) ≤ |exact b|) (high : |exact b| ≤ 2 ^ (1022 : Int))
    (low' : 2 ^ (-1021 : Int) ≤ |exact a / exact b|) (high' : |exact a / exact b| ≤ 2 ^ (1022 : Int)) :
    |exact (a / b) - exact (a * (one / b))| * 2 ^ 51 ≤ |exact a / exact b| := by
  have pos := abs_exact_pos signed
  have pos' := abs_exact_pos signed'
  have inverse : (0 : Rat) < 1 / |exact b| := one_div_pos.mpr pos'
  have normal := (le_one_div_iff (k := -1022) pos').mpr
    (le_trans high (zpow_le_zpow_right₀ one_le_two (by norm_num)))
  have small := (one_div_le_iff (k := 1023) pos').mpr
    (le_trans (zpow_le_zpow_right₀ one_le_two (by norm_num)) low)
  have range := approximation_lt_of_le inverse small
  rw [abs_div] at low' high' ⊢
  obtain ⟨above, below, near⟩ := reciprocal_product_near pos normal low'
  have small' : |exact a| / |exact b| ≤ 2 ^ (1023 : Int) :=
    high'.trans (zpow_le_zpow_right₀ one_le_two (by norm_num))
  have small'' : |exact a| * approximation (1 / |exact b|) ≤ 2 ^ (1023 : Int) :=
    below.trans ((mul_le_mul_of_nonneg_left high' two_pos.le).trans_eq (double_zpow 1022))
  have quotient : exact (a / b) = ((s * s').apply 1 : Int) * approximation (|exact a| / |exact b|) := by
    rw [div_eq_double signed signed', sign_div]
    exact exact_double (div_pos pos pos') (approximation_lt_of_le (div_pos pos pos') small')
  have some : 0 < approximation (1 / |exact b|) :=
    (mul_pos_iff_of_pos_left pos).mp (lt_of_lt_of_le (two_zpow_pos _) above)
  obtain ⟨signed'', value⟩ := hasSign_double (s := s') inverse some range
  have product : exact (a * (one / b)) = ((s * s').apply 1 : Int) *
      approximation (|exact a| * approximation (1 / |exact b|)) := by
    rw [reciprocal_eq_double unit signed', mul_eq_double signed signed'', value]
    exact exact_double (mul_pos pos some) (approximation_lt_of_le (mul_pos pos some) small'')
  rw [quotient, product, ← mul_sub, abs_mul, sign_abs, one_mul]
  exact near

end Cassowary.Reciprocals
