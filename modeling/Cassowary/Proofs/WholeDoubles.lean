import Cassowary.Proofs.DoubleOperations

/-!
Doubles that stand for whole numbers. Sums and products of whole numbers are not rounded as long as they
have at most 53 bits, and comparing the doubles compares the numbers.
-/

namespace Cassowary.WholeDoubles
open Float.Model Float.Model.UnpackedFloat Doubles Rounding DoubleOperations

variable {s s' : Sign} {m m' n : Nat} {e e' : Int} {a b : Float}

/-! ## Sums -/

/-- A sum of two positive doubles is rounded once. -/
theorem add_eq_rounded (pos : 0 < m) (pos' : 0 < m') :
    UnpackedFloat.add .binary64 (.finite .positive m e pos) (.finite .positive m' e' pos') =
      rounded .positive (m * 2 ^ e + m' * 2 ^ e') := by
  have first := decreaseExponent_value .positive m (min_le_left e e')
  have second := decreaseExponent_value .positive m' (min_le_right e e')
  unfold UnpackedFloat.add UnpackedFloat.normalize
  dsimp only
  generalize (decreaseExponent m e (min e e')).1 = p at *
  generalize (decreaseExponent m' e' (min e e')).1 = q at *
  have apply : ∀ n : Nat, Sign.positive.apply n = n := fun n => rfl
  simp only [apply, Int.cast_natCast] at first second ⊢
  have some : 0 < p := by
    have positive : (0 : Rat) < p * 2 ^ min e e' := first ▸ mul_zpow_pos pos e
    exact_mod_cast (mul_pos_iff_of_pos_right (two_zpow_pos _)).mp positive
  rw [compare_gt_iff_gt.mpr (show (p : Int) + q > 0 by omega)]
  have total : ((p : Int) + q).toNat = p + q := by omega
  dsimp only
  rw [total, round_eq_rounded .positive (by omega), ← first, ← second, ← add_mul, Nat.cast_add]

/-- A sum of two positive doubles is the double nearest to the exact sum. -/
theorem add_eq_double (signed : HasSign .positive a) (signed' : HasSign .positive b) :
    a + b = double .positive (|exact a| + |exact b|) := by
  obtain ⟨m, e, pos, unpacked⟩ := signed
  obtain ⟨m', e', pos', unpacked'⟩ := signed'
  have sum : UnpackedFloat.add .binary64 (.finite .positive m e pos) (.finite .positive m' e' pos') = _ :=
    add_eq_rounded pos pos'
  rw [← unpacked, ← unpacked', ← abs_exact unpacked, ← abs_exact unpacked'] at sum
  exact congrArg (fun u => Float.ofModel (.pack u)) sum

theorem unpack_add (a b : Float) : (a + b).toModel.unpack =
    (Float.Model.pack (UnpackedFloat.add .binary64 a.toModel.unpack b.toModel.unpack)).unpack := rfl

theorem unpack_zero_add (zero : a.toModel.unpack = .zero s) (signed : HasSign s' b) :
    (a + b).toModel.unpack = b.toModel.unpack := by
  obtain ⟨m, e, pos, unpacked⟩ := signed
  rw [unpack_add, zero, unpacked]
  exact unpack_pack (canonical_of_unpack unpacked)

theorem unpack_add_zero (signed : HasSign s a) (zero : b.toModel.unpack = .zero s') :
    (a + b).toModel.unpack = a.toModel.unpack := by
  obtain ⟨m, e, pos, unpacked⟩ := signed
  rw [unpack_add, unpacked, zero]
  exact unpack_pack (canonical_of_unpack unpacked)

theorem unpack_zero_add_zero (zero : a.toModel.unpack = .zero s) (zero' : b.toModel.unpack = .zero s') :
    ∃ s'', (a + b).toModel.unpack = .zero s'' := by
  rw [unpack_add, zero, zero']
  cases s <;> cases s' <;> exact ⟨_, unpack_pack_zero _⟩

/-! ## Whole numbers -/

/-- The double stands for a whole number. -/
def Whole (n : Nat) (a : Float) : Prop := a.isFinite = true ∧ exact a = n

theorem hasSign_of_whole (whole : Whole n a) (some : 0 < n) : HasSign .positive a := by
  obtain ⟨finite, value⟩ := whole
  have pos : (0 : Rat) < n := by exact_mod_cast some
  obtain ⟨s, signed⟩ := hasSign_of_nonzero finite (value ▸ pos.ne')
  cases s with
  | positive => exact signed
  | negative =>
    have negative := exact_of_hasSign signed
    rw [value, abs_of_pos pos] at negative
    have flipped : (n : Rat) = -1 * n := negative
    linarith

theorem unpack_of_whole_zero (whole : Whole 0 a) : ∃ s, a.toModel.unpack = .zero s := by
  obtain zero | ⟨s, signed⟩ := zero_or_hasSign whole.1
  · exact zero
  · have positive := abs_exact_pos signed
    rw [whole.2, Nat.cast_zero, abs_zero] at positive
    exact absurd positive (lt_irrefl 0)

theorem whole_of_unpack_zero (zero : a.toModel.unpack = .zero s) : Whole 0 a := by
  constructor
  · rw [isFinite_eq, zero]
    rfl
  · rw [exact, zero]
    exact Nat.cast_zero.symm

/-- A whole number of at most 53 bits is not rounded. -/
theorem whole_double (some : 0 < n) (bits : n < 2 ^ 53) : Whole n (double .positive n) := by
  have pos : (0 : Rat) < n := by exact_mod_cast some
  have unrounded : approximation n = n := by
    have kept := approximation_eq (e := 0) some bits (by norm_num)
    rwa [zpow_zero, mul_one] at kept
  have range : approximation n < 2 ^ (1024 : Int) := by
    rw [unrounded]
    calc (n : Rat) < 2 ^ 53 := by exact_mod_cast bits
      _ = 2 ^ (53 : Int) := by norm_num
      _ ≤ 2 ^ (1024 : Int) := zpow_le_zpow_right₀ one_le_two (by norm_num)
  refine ⟨(double_isFinite_iff pos).mpr range, ?_⟩
  rw [exact_double pos range, unrounded]
  exact one_mul _

theorem whole_mul (whole : Whole m a) (whole' : Whole n b) (bits : m * n < 2 ^ 53) :
    Whole (m * n) (a * b) := by
  obtain rfl | some := Nat.eq_zero_or_pos m
  · obtain ⟨s, zero⟩ := unpack_of_whole_zero whole
    obtain ⟨s', product⟩ := unpack_zero_mul zero whole'.1
    rw [zero_mul]
    exact whole_of_unpack_zero product
  · have signed := hasSign_of_whole whole some
    obtain rfl | some' := Nat.eq_zero_or_pos n
    · obtain ⟨s', zero⟩ := unpack_of_whole_zero whole'
      exact whole_of_unpack_zero (unpack_mul_zero signed zero)
    · have value : |exact a| * |exact b| = (m * n : Nat) := by
        rw [whole.2, whole'.2, Nat.abs_cast, Nat.abs_cast, Nat.cast_mul]
      rw [mul_eq_double signed (hasSign_of_whole whole' some'), value]
      exact whole_double (Nat.mul_pos some some') bits

theorem whole_congr (same : b.toModel.unpack = a.toModel.unpack) (whole : Whole n a) : Whole n b := by
  have finite : b.isFinite = a.isFinite := congrArg UnpackedFloat.isFinite same
  exact ⟨finite ▸ whole.1, (congrArg worth same).trans whole.2⟩

theorem whole_add (whole : Whole m a) (whole' : Whole n b) (bits : m + n < 2 ^ 53) :
    Whole (m + n) (a + b) := by
  obtain rfl | some := Nat.eq_zero_or_pos m
  · obtain ⟨s, zero⟩ := unpack_of_whole_zero whole
    rw [zero_add]
    obtain rfl | some' := Nat.eq_zero_or_pos n
    · obtain ⟨s', zero'⟩ := unpack_of_whole_zero whole'
      obtain ⟨s'', sum⟩ := unpack_zero_add_zero zero zero'
      exact whole_of_unpack_zero sum
    · exact whole_congr (unpack_zero_add zero (hasSign_of_whole whole' some')) whole'
  · have signed := hasSign_of_whole whole some
    obtain rfl | some' := Nat.eq_zero_or_pos n
    · obtain ⟨s', zero'⟩ := unpack_of_whole_zero whole'
      exact whole_congr (unpack_add_zero signed zero') whole
    · have value : |exact a| + |exact b| = (m + n : Nat) := by
        rw [whole.2, whole'.2, Nat.abs_cast, Nat.abs_cast, Nat.cast_add]
      rw [add_eq_double signed (hasSign_of_whole whole' some'), value]
      exact whole_double (by omega) bits

theorem whole_lt_iff (whole : Whole m a) (whole' : Whole n b) : a < b ↔ m < n := by
  rw [float_lt_iff whole.1 whole'.1, whole.2, whole'.2, Nat.cast_lt]

end Cassowary.WholeDoubles
