import Cassowary.Expression
import Cassowary.Proofs.Reciprocals

/-!
Turning terms into expressions before or after an operation. A multiple and a negative of a term give the
same expression either way. A quotient does so only up to rounding: a term is divided, while an expression
is multiplied by the reciprocal, which is rounded itself and may even be out of range.
-/

namespace Cassowary.Conversions
open Doubles Rounding DoubleOperations Reciprocals
open Float.Model.UnpackedFloat (Sign)

variable {a b c : Float} {s s' : Sign} {t : Term Float} {k : Int}

/-! ## Expressions of one term -/

theorem single_beq_iff {v : Variable} {x y : Float} :
    ((⟨[⟨v, a⟩], x⟩ : Expression Float) == ⟨[⟨v, b⟩], y⟩) = true ↔
      (a == b) = true ∧ (x == y) = true := by
  have unfolded : ((⟨[⟨v, a⟩], x⟩ : Expression Float) == ⟨[⟨v, b⟩], y⟩) =
      ((v == v && a == b && true) && x == y) := rfl
  rw [unfolded]
  simp

theorem unpack_zero : (0 : Float).toModel.unpack = .zero .positive := by rfl

/-- The constant of a single term stays zero under scaling by a finite factor, and by no other. -/
theorem scaled_beq_iff (t : Term Float) (a b : Float) :
    (Expression.ofTerm ⟨t.var, a⟩ == (Expression.ofTerm t).scale b) = true ↔
      (a == t.coefficient * b) = true ∧ b.isFinite = true := by
  refine single_beq_iff.trans (and_congr_right fun _ => ?_)
  exact zero_mul_beq_iff unpack_zero

/-! ## Multiples and negatives -/

theorem scale_commutes (finite : t.coefficient.isFinite = true) (finite' : b.isFinite = true) :
    (Expression.ofTerm (t.scale b) == (Expression.ofTerm t).scale b) = true :=
  (scaled_beq_iff t (t.coefficient * b) b).mpr ⟨mul_beq_self finite finite', finite'⟩

theorem neg_commutes (finite : t.coefficient.isFinite = true) :
    (Expression.ofTerm (-t) == -Expression.ofTerm t) = true := by
  have unit : SignedOne .negative (-1) := by rfl
  obtain ⟨finite', value⟩ := exact_neg finite
  obtain ⟨finite'', value'⟩ := exact_mul_minusOne finite unit
  have same := (float_beq_iff finite' finite'').mpr (value.trans value'.symm)
  exact (scaled_beq_iff t (-t.coefficient) (-1)).mpr ⟨same, by rfl⟩

/-! ## Quotients -/

theorem one_unit : SignedOne .positive (1 : Float) := by rfl

/-- A quotient of a term and of its expression agree if the reciprocal is in range and the two ways to
divide the coefficient agree. -/
theorem divide_beq_iff (signed : HasSign s b) :
    (Expression.ofTerm (t.divide b) == (Expression.ofTerm t).divide b) = true ↔
      (t.coefficient / b == t.coefficient * (1 / b)) = true ∧ 2 ^ (-1024 : Int) < |exact b| := by
  rw [← reciprocal_isFinite_iff one_unit signed]
  exact scaled_beq_iff t (t.coefficient / b) (1 / b)

/-- By a power of two whose reciprocal is in range, every finite coefficient is divided alike. -/
theorem divide_power_commutes (finite : t.coefficient.isFinite = true) (signed : HasSign s b)
    (range : -1024 < k) (power : |exact b| = 2 ^ k) :
    (Expression.ofTerm (t.divide b) == (Expression.ofTerm t).divide b) = true := by
  have large : 2 ^ (-1024 : Int) < |exact b| := power ▸ zpow_lt_zpow_right₀ one_lt_two range
  refine (divide_beq_iff signed).mpr ⟨?_, large⟩
  obtain ⟨s', zero⟩ | ⟨s', signed'⟩ := zero_or_hasSign finite
  · obtain ⟨inverse, -⟩ := reciprocal_of_power one_unit signed power range
    obtain ⟨s'', product⟩ := unpack_zero_mul zero (isFinite_of_hasSign inverse)
    exact zero_beq_zero (unpack_zero_div zero signed) product
  · rw [← div_eq_mul_reciprocal one_unit signed' signed power range, div_eq_double signed' signed]
    exact double_beq_self _ (div_pos (abs_exact_pos signed') (abs_exact_pos signed))

/-- Turning a term into an expression commutes with multiples and negatives. It commutes with a division
just when the reciprocal of the divisor is in range and the rounded reciprocal gives the same coefficient,
as it does for every power of two. Otherwise the coefficients are still near each other, unless numbers
close to the ends of the range come up. -/
theorem conversions_commute (t : Term Float) (s : Float) (finite : t.coefficient.isFinite = true)
    (finite' : s.isFinite = true) (nonzero : exact s ≠ 0) :
    (Expression.ofTerm (t.scale s) == (Expression.ofTerm t).scale s) = true ∧
      (Expression.ofTerm (-t) == -Expression.ofTerm t) = true ∧
      ((Expression.ofTerm (t.divide s) == (Expression.ofTerm t).divide s) = true ↔
        (t.coefficient / s == t.coefficient * (1 / s)) = true ∧ 2 ^ (-1024 : Int) < |exact s|) ∧
      (∀ k : Int, -1024 < k → |exact s| = 2 ^ k →
        (Expression.ofTerm (t.divide s) == (Expression.ofTerm t).divide s) = true) ∧
      (2 ^ (-1022 : Int) ≤ |exact s| → |exact s| ≤ 2 ^ (1022 : Int) →
        2 ^ (-1021 : Int) ≤ |exact t.coefficient / exact s| →
          |exact t.coefficient / exact s| ≤ 2 ^ (1022 : Int) →
            ∃ c, ((Expression.ofTerm t).divide s).terms = [⟨t.var, c⟩] ∧
              |exact (t.divide s).coefficient - exact c| * 2 ^ 51 ≤
                |exact t.coefficient / exact s|) := by
  obtain ⟨sign, signed⟩ := hasSign_of_nonzero finite' nonzero
  refine ⟨scale_commutes finite finite', neg_commutes finite, divide_beq_iff signed,
    fun k range power => divide_power_commutes finite signed range power,
    fun low high low' high' => ⟨t.coefficient * (1 / s), rfl, ?_⟩⟩
  have dividend : exact t.coefficient ≠ 0 := by
    intro zero
    rw [zero, zero_div, abs_zero] at low'
    exact absurd low' (two_zpow_pos _).not_ge
  obtain ⟨sign', signed'⟩ := hasSign_of_nonzero finite dividend
  exact quotients_near one_unit signed' signed low high low' high'

theorem exact_five : exact 5 = 5 :=
  (exact_of_positive 5629499534213120 (-50) (by decide) (by rfl)).trans (by norm_num)

theorem exact_three : exact 3 = 3 :=
  (exact_of_positive 6755399441055744 (-51) (by decide) (by rfl)).trans (by norm_num)

theorem conversions_commute_fiveThirds :
    let t : Term Float := ⟨⟨0, none⟩, 5⟩
    t.coefficient.isFinite = true ∧ (3 : Float).isFinite = true ∧ exact 3 ≠ 0 ∧
      (Expression.ofTerm (t.scale 3) == (Expression.ofTerm t).scale 3) = true ∧
      (Expression.ofTerm (-t) == -Expression.ofTerm t) = true ∧
      ∃ c, ((Expression.ofTerm t).divide 3).terms = [⟨t.var, c⟩] ∧
        |exact (t.divide 3).coefficient - exact c| * 2 ^ 51 ≤ 5 / 3 := by
  intro t
  have finite : t.coefficient.isFinite = true := by decide +kernel
  have finite' : (3 : Float).isFinite = true := by decide +kernel
  have nonzero : exact 3 ≠ 0 := by rw [exact_three]; norm_num
  have size : |exact 3| = 3 := by rw [exact_three]; norm_num
  have ratio : |exact t.coefficient / exact 3| = 5 / 3 := by
    have dividend : exact t.coefficient = 5 := exact_five
    rw [dividend, exact_three]
    norm_num
  have small : ∀ {k : Int}, k ≤ 0 → (2 : Rat) ^ k ≤ 1 := fun below =>
    zpow_le_one_of_nonpos₀ one_le_two below
  have large : (2 : Rat) ^ (2 : Int) ≤ 2 ^ (1022 : Int) := zpow_le_zpow_right₀ one_le_two (by norm_num)
  obtain ⟨scaled, negated, -, -, near⟩ := conversions_commute t 3 finite finite' nonzero
  rw [size, ratio] at near
  refine ⟨finite, finite', nonzero, scaled, negated, near ?_ ?_ ?_ ?_⟩
  · exact (small (by norm_num)).trans (by norm_num)
  · exact le_trans (by norm_num) large
  · exact (small (by norm_num)).trans (by norm_num)
  · exact le_trans (by norm_num) large

/-- Five thirds are not rounded to five times the rounded third. -/
theorem division_may_not_commute :
    ¬∀ (t : Term Float) (s : Float), t.coefficient.isFinite = true → s.isFinite = true → exact s ≠ 0 →
      (Expression.ofTerm (t.scale s) == (Expression.ofTerm t).scale s) = true ∧
        (Expression.ofTerm (t.divide s) == (Expression.ofTerm t).divide s) = true ∧
        (Expression.ofTerm (-t) == -Expression.ofTerm t) = true := by
  intro all
  have nonzero : exact 3 ≠ 0 := by rw [exact_three]; norm_num
  have same := (all ⟨⟨0, none⟩, 5⟩ 3 (by decide +kernel) (by decide +kernel) nonzero).2.1
  have differ : (Expression.ofTerm ((⟨⟨0, none⟩, 5⟩ : Term Float).divide 3) ==
      (Expression.ofTerm ⟨⟨0, none⟩, 5⟩).divide 3) = false := by
    decide +kernel
  rw [differ] at same
  cases same

end Cassowary.Conversions
