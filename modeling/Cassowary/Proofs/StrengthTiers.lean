import Cassowary.Strength
import Cassowary.Proofs.WholeDoubles

/-!
How strengths rank. A strength of whole tiers is packed without any rounding, so that strengths compare
like the sums they stand for. A tier admits one level more than the tier below it has room for: at its top
a tier weighs as much as one level of the next, and only below its top does the higher tier decide.
-/

namespace Cassowary.StrengthTiers
open Doubles WholeDoubles

variable {a b c a' b' c' x y : Float} {n : Nat}

/-- Levels of the three tiers, heaviest first. -/
structure Levels where
  strong : Nat
  medium : Nat
  weak : Nat

namespace Levels

/-- No level is above the top of its tier. -/
structure Within (l : Levels) (top : Nat) : Prop where
  strong : l.strong ≤ top
  medium : l.medium ≤ top
  weak : l.weak ≤ top

def weight (l : Levels) : Nat := 1000000 * l.strong + 1000 * l.medium + l.weak

/-- The lower levels decide only between equal higher ones. -/
def Below (l l' : Levels) : Prop :=
  l.strong < l'.strong ∨
    l.strong = l'.strong ∧ (l.medium < l'.medium ∨ l.medium = l'.medium ∧ l.weak < l'.weak)

variable {l l' : Levels}

/-- Below their tops the lower tiers weigh less than one level of a higher one. -/
theorem weight_lt (medium : l.medium ≤ 999) (weak : l.weak ≤ 999) (below : l.Below l') :
    l.weight < l'.weight := by
  unfold weight
  rcases below with strong | ⟨same, higher | ⟨same', lower⟩⟩ <;> omega

theorem below_or (l l' : Levels) : l.Below l' ∨ l = l' ∨ l'.Below l := by
  obtain ⟨i, j, k⟩ := l
  obtain ⟨i', j', k'⟩ := l'
  simp only [Below, mk.injEq]
  omega

theorem weight_lt_iff (medium : l.medium ≤ 999) (weak : l.weak ≤ 999) (medium' : l'.medium ≤ 999)
    (weak' : l'.weak ≤ 999) : l.weight < l'.weight ↔ l.Below l' := by
  refine ⟨fun less => ?_, weight_lt medium weak⟩
  rcases below_or l l' with below | rfl | above
  · exact below
  · exact absurd less (lt_irrefl _)
  · exact absurd less (weight_lt medium' weak' above).not_gt

theorem weight_lt_top (within : l.Within 1000) (notAll : l ≠ ⟨1000, 1000, 1000⟩) :
    l.weight < 1001001000 := by
  obtain ⟨i, j, k⟩ := l
  obtain ⟨strong, medium, weak⟩ := within
  simp only [ne_eq, mk.injEq, weight] at *
  omega

end Levels

/-! ## Packing -/

theorem whole_zero : Whole 0 (0 : Float) := whole_of_unpack_zero (s := .positive) (by rfl)

theorem whole_thousand : Whole 1000 ((1000 : Nat) : Float) :=
  ⟨by decide +kernel, (exact_of_positive 8796093022208000 (-43) (by decide) (by rfl)).trans (by norm_num)⟩

theorem whole_million : Whole 1000000 ((1000000 : Nat) : Float) :=
  ⟨by decide +kernel, (exact_of_positive 8589934592000000 (-33) (by decide) (by rfl)).trans (by norm_num)⟩

theorem whole_required : Whole 1001001000 (Strength.required : Strength Float).value :=
  ⟨by decide +kernel, (exact_of_positive 8397004996608000 (-23) (by decide) (by rfl)).trans (by norm_num)⟩

theorem clamp_of_between {α : Type} [Scalar α] {z low high : α} (notLow : ¬z < low)
    (notHigh : ¬high < z) : Scalar.clamp z low high = z := by
  unfold Scalar.clamp
  rw [if_neg notLow, if_neg notHigh]

/-- A level within its tier is kept as it is. -/
theorem tier_whole (whole : Whole n x) (within : n ≤ 1000) : Whole n (Strength.tier x 1) := by
  obtain ⟨finite, value⟩ := exact_mul_one whole.1 (y := 1) (by rfl)
  have same : Whole n (x * 1) := ⟨finite, value.trans whole.2⟩
  have notLow : ¬x * 1 < 0 := by
    rw [whole_lt_iff same whole_zero]
    exact Nat.not_lt_zero n
  have notHigh : ¬((1000 : Nat) : Float) < x * 1 := by
    rw [whole_lt_iff whole_thousand same]
    exact within.not_gt
  have kept : Strength.tier x 1 = x * 1 := clamp_of_between notLow notHigh
  rw [kept]
  exact same

/-- Three doubles stand for levels within their tiers. -/
structure Reads (l : Levels) (a b c : Float) : Prop where
  within : l.Within 1000
  strong : Whole l.strong a
  medium : Whole l.medium b
  weak : Whole l.weak c

variable {l l' : Levels}

/-- Packing levels rounds nothing. -/
theorem create_whole (reads : Reads l a b c) : Whole l.weight (Strength.create a b c 1).value := by
  obtain ⟨⟨strong, medium, weak⟩, whole, whole', whole''⟩ := reads
  have first := whole_mul (tier_whole whole strong) whole_million (by omega)
  have second := whole_mul (tier_whole whole' medium) whole_thousand (by omega)
  have both := whole_add first second (by omega)
  have all := whole_add both (tier_whole whole'' weak) (by omega)
  have total : l.strong * 1000000 + l.medium * 1000 + l.weak = l.weight := by
    unfold Levels.weight
    omega
  rw [← total]
  exact all

/-- Strengths of whole tiers compare like the weighted sums of their levels. Hence the higher tier decides
whenever the lower tiers of the lesser strength are below their tops, and the required strength is above
all others. -/
theorem strengths_rank_by_weight (reads : Reads l a b c) (reads' : Reads l' a' b' c') :
    (Strength.create a b c 1 < Strength.create a' b' c' 1 ↔ l.weight < l'.weight) ∧
      (l.medium ≤ 999 → l.weak ≤ 999 → l.Below l' →
        Strength.create a b c 1 < Strength.create a' b' c' 1) ∧
      (l.medium ≤ 999 → l.weak ≤ 999 → l'.medium ≤ 999 → l'.weak ≤ 999 →
        (Strength.create a b c 1 < Strength.create a' b' c' 1 ↔ l.Below l')) ∧
      (l ≠ ⟨1000, 1000, 1000⟩ → Strength.create a b c 1 < Strength.required) := by
  have compared : Strength.create a b c 1 < Strength.create a' b' c' 1 ↔ l.weight < l'.weight :=
    whole_lt_iff (create_whole reads) (create_whole reads')
  refine ⟨compared, fun medium weak below => ?_, fun medium weak medium' weak' => ?_, fun notAll => ?_⟩
  · exact compared.mpr (Levels.weight_lt medium weak below)
  · exact compared.trans (Levels.weight_lt_iff medium weak medium' weak')
  · exact (whole_lt_iff (create_whole reads) whole_required).mpr
      (Levels.weight_lt_top reads.within notAll)

theorem whole_one : Whole 1 (1 : Float) :=
  ⟨by decide +kernel, (exact_of_positive 4503599627370496 (-52) (by decide) (by rfl)).trans (by norm_num)⟩

theorem whole_almostTop : Whole 999 (999 : Float) :=
  ⟨by decide +kernel, (exact_of_positive 8787296929185792 (-43) (by decide) (by rfl)).trans (by norm_num)⟩

/-- One level of the strong tier outranks the lower tiers just below their tops. -/
theorem strengths_rank_by_weight_oneStrong :
    Reads ⟨0, 999, 999⟩ 0 999 999 ∧ Reads ⟨1, 0, 0⟩ 1 0 0 ∧
      Strength.create (0 : Float) 999 999 1 < Strength.create 1 0 0 1 ∧
      Strength.create (1 : Float) 0 0 1 < Strength.required := by
  have reads : Reads ⟨0, 999, 999⟩ 0 999 999 :=
    ⟨⟨by decide, by decide, by decide⟩, whole_zero, whole_almostTop, whole_almostTop⟩
  have reads' : Reads ⟨1, 0, 0⟩ 1 0 0 :=
    ⟨⟨by decide, by decide, by decide⟩, whole_one, whole_zero, whole_zero⟩
  refine ⟨reads, reads', ?_, ?_⟩
  · exact (strengths_rank_by_weight reads reads').2.1 le_rfl le_rfl (.inl Nat.one_pos)
  · exact (strengths_rank_by_weight reads' reads).2.2.2 (by simp)

/-- At their tops the two lower tiers outrank one level of the strong tier. -/
theorem strengths_may_rank_otherwise :
    ¬∀ (l l' : Levels) (a b c a' b' c' : Float), Reads l a b c → Reads l' a' b' c' →
      (Strength.create a b c 1 < Strength.create a' b' c' 1 ↔ l.Below l') := by
  intro all
  have reads : Reads ⟨0, 1000, 1000⟩ 0 (1000 : Nat) (1000 : Nat) :=
    ⟨⟨by decide, by decide, by decide⟩, whole_zero, whole_thousand, whole_thousand⟩
  have reads' : Reads ⟨1, 0, 0⟩ 1 0 0 :=
    ⟨⟨by decide, by decide, by decide⟩, whole_one, whole_zero, whole_zero⟩
  have less := (all _ _ _ _ _ _ _ _ reads reads').mpr (.inl Nat.one_pos)
  have lighter := (whole_lt_iff (create_whole reads) (create_whole reads')).mp less
  exact absurd lighter (by decide)

end Cassowary.StrengthTiers
