import Mathlib.Algebra.Order.Field.Rat
import Mathlib.Tactic.NormNum
import Cassowary.Scalar

/-!
Rational arithmetic with the tolerance of doubles. Sums and products are exact, and only what is read off
them, whether a number counts as zero or as negative, is blurred.
-/

namespace Cassowary.Tolerant

/-- Rational arithmetic in which comparisons have the tolerance that doubles are compared with. -/
@[reducible]
scoped instance tolerant : Scalar Rat := Scalar.rational (1 / 100000000)

theorem tolerance_pos : (0 : Rat) < Scalar.tolerance := by
  norm_num [Scalar.tolerance]

theorem nearZero_iff {x : Rat} : Scalar.nearZero x = true ↔ |x| < Scalar.tolerance := by
  have zero : x = 0 → |x| < Scalar.tolerance := fun same => by
    rw [same, abs_zero]
    exact tolerance_pos
  simp only [Scalar.nearZero, Bool.or_eq_true, beq_iff_eq, Bool.and_eq_true, decide_eq_true_eq, ← abs_lt]
  exact or_iff_right_of_imp zero

end Cassowary.Tolerant
