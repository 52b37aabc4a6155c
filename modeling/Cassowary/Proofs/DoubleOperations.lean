import Cassowary.Proofs.Doubles

/-!
Operations on doubles, by what the doubles stand for. Finite doubles compare like the numbers they stand
for. A product or a quotient is the double nearest to the exact result, infinite if that is out of range
and never anything that is not a number.
-/

namespace Cassowary.DoubleOperations
open Float.Model Float.Model.UnpackedFloat Doubles Rounding

variable {s s' : Sign} {m m' n : Nat} {e e' k : Int} {u v : UnpackedFloat} {a b : Float} {x y : Rat}

/-! ## Comparison -/

/-- Of two doubles the one with the greater exponent is greater, since its mantissa has full length. -/
theorem lt_of_exponent_lt {pos : 0 < m} {pos' : 0 < m'} (canonical : Canonical (.finite s m e pos))
    (canonical' : Canonical (.finite s' m' e' pos')) (less : e < e') :
    (m : Rat) * 2 ^ e < m' * 2 ^ e' := by
  obtain ⟨bits, least, -, -⟩ := canonical
  obtain ⟨-, -, -, length⟩ := canonical'
  have full : 2 ^ 52 ≤ m' := length.resolve_right (by omega)
  calc (m : Rat) * 2 ^ e < 2 ^ 53 * 2 ^ e :=
        mul_lt_mul_of_pos_right (by exact_mod_cast bits) (two_zpow_pos e)
    _ = 2 ^ 52 * 2 ^ (e + 1) := by
        rw [two_zpow_add]
        ring
    _ ≤ m' * 2 ^ e' :=
        mul_le_mul (by exact_mod_cast full) (zpow_le_zpow_right₀ one_le_two less)
          (two_zpow_pos _).le (Nat.cast_nonneg _)

theorem compare_magnitudes {pos : 0 < m} {pos' : 0 < m'} (canonical : Canonical (.finite s m e pos))
    (canonical' : Canonical (.finite s' m' e' pos')) :
    (compare e e').then (compare m m') = compare ((m : Rat) * 2 ^ e) (m' * 2 ^ e') := by
  rcases lt_trichotomy e e' with less | rfl | more
  · rw [compare_lt_iff_lt.mpr less, compare_lt_iff_lt.mpr (lt_of_exponent_lt canonical canonical' less)]
    rfl
  · have scaled : ∀ {p q : Nat}, p < q → (p : Rat) * 2 ^ e < q * 2 ^ e := fun less =>
      mul_lt_mul_of_pos_right (by exact_mod_cast less) (two_zpow_pos e)
    rw [compare_eq_iff_eq.mpr rfl, Ordering.then]
    rcases lt_trichotomy m m' with less | rfl | more
    · rw [compare_lt_iff_lt.mpr less, compare_lt_iff_lt.mpr (scaled less)]
    · rw [compare_eq_iff_eq.mpr rfl, compare_eq_iff_eq.mpr rfl]
    · rw [compare_gt_iff_gt.mpr more, compare_gt_iff_gt.mpr (scaled more)]
  · rw [compare_gt_iff_gt.mpr more, compare_gt_iff_gt.mpr (lt_of_exponent_lt canonical' canonical more)]
    rfl

theorem compare_swap (x y : Rat) : (compare x y).swap = compare (-x) (-y) := by
  rcases lt_trichotomy x y with less | rfl | more
  · rw [compare_lt_iff_lt.mpr less, compare_gt_iff_gt.mpr (neg_lt_neg less)]
    rfl
  · rw [compare_eq_iff_eq.mpr rfl, compare_eq_iff_eq.mpr rfl]
    rfl
  · rw [compare_gt_iff_gt.mpr more, compare_lt_iff_lt.mpr (neg_lt_neg more)]
    rfl

theorem worth_positive {pos : 0 < m} : worth (.finite .positive m e pos) = m * 2 ^ e :=
  congrArg (· * _) (Int.cast_natCast m)

theorem worth_negative {pos : 0 < m} : worth (.finite .negative m e pos) = -(m * 2 ^ e) := by
  simp [worth, Sign.apply]

/-- Finite doubles compare like the numbers they stand for. -/
theorem compare_eq (canonical : Canonical u) (canonical' : Canonical v) :
    u.compare v = some (compare (worth u) (worth v)) := by
  cases u with
  | infinity s => cases canonical
  | notANumber => cases canonical
  | zero s =>
    cases v with
    | infinity s => cases canonical'
    | notANumber => cases canonical'
    | zero s' => exact congrArg some (compare_eq_iff_eq.mpr rfl).symm
    | finite s' m' e' pos' =>
      have positive := mul_zpow_pos pos' e'
      cases s' with
      | negative =>
        rw [worth_negative, compare_gt_iff_gt.mpr (show worth (.zero s) > _ from neg_lt_zero.mpr positive)]
        rfl
      | positive =>
        rw [worth_positive, compare_lt_iff_lt.mpr (show worth (.zero s) < _ from positive)]
        rfl
  | finite s m e pos =>
    have positive := mul_zpow_pos pos e
    cases v with
    | infinity s => cases canonical'
    | notANumber => cases canonical'
    | zero s' =>
      cases s with
      | negative =>
        rw [worth_negative, compare_lt_iff_lt.mpr (show _ < worth (.zero s') from neg_lt_zero.mpr positive)]
        rfl
      | positive =>
        rw [worth_positive, compare_gt_iff_gt.mpr (show _ > worth (.zero s') from positive)]
        rfl
    | finite s' m' e' pos' =>
      have positive' := mul_zpow_pos pos' e'
      have magnitudes := compare_magnitudes canonical canonical'
      cases s with
      | negative =>
        cases s' with
        | negative =>
          rw [worth_negative, worth_negative, ← compare_swap, ← magnitudes]
          rfl
        | positive =>
          rw [worth_negative, worth_positive,
            compare_lt_iff_lt.mpr ((neg_lt_zero.mpr positive).trans positive')]
          rfl
      | positive =>
        cases s' with
        | negative =>
          rw [worth_negative, worth_positive,
            compare_gt_iff_gt.mpr ((neg_lt_zero.mpr positive').trans positive)]
          rfl
        | positive =>
          rw [worth_positive, worth_positive, ← magnitudes]
          rfl

theorem beq_eq (a b : Float) : (a == b) = (a.toModel.unpack.compare b.toModel.unpack == some .eq) := rfl

theorem isFinite_eq (a : Float) : a.isFinite = a.toModel.unpack.isFinite := rfl

theorem unpack_mul (a b : Float) : (a * b).toModel.unpack =
    (Float.Model.pack (UnpackedFloat.mul .binary64 a.toModel.unpack b.toModel.unpack)).unpack := rfl

theorem unpack_div (a b : Float) : (a / b).toModel.unpack =
    (Float.Model.pack (UnpackedFloat.div .binary64 a.toModel.unpack b.toModel.unpack)).unpack := rfl

theorem float_lt_iff (finite : a.isFinite = true) (finite' : b.isFinite = true) :
    a < b ↔ exact a < exact b := by
  have compared := compare_eq (canonical_of_isFinite finite) (canonical_of_isFinite finite')
  have unfolded : a < b ↔ (a.toModel.unpack.compare b.toModel.unpack == some .lt) = true := by
    change decide (((a.toModel.unpack.compare b.toModel.unpack == some .lt) = true)) = true ↔ _
    rw [decide_eq_true_iff]
  rw [unfolded, compared, beq_iff_eq, Option.some.injEq, compare_lt_iff_lt]
  rfl

theorem float_beq_iff (finite : a.isFinite = true) (finite' : b.isFinite = true) :
    (a == b) = true ↔ exact a = exact b := by
  have compared := compare_eq (canonical_of_isFinite finite) (canonical_of_isFinite finite')
  rw [beq_eq, compared, beq_iff_eq, Option.some.injEq, compare_eq_iff_eq]
  rfl

/-! ## The double nearest to a number -/

/-- A float whose exponent is out of range is packed as an infinity. -/
theorem unpack_pack_large {pos : 0 < m} (large : 972 ≤ e) :
    (Float.Model.pack (.finite s m e pos)).unpack = .infinity s := by
  have beyond : 2 ^ Format.binary64.exponentBits ≤
      (e + Format.binary64.exponentBias + Format.binary64.mantissaBitsWithoutImplicit).toNat + 1 := by
    simp only [Format.exponentBias]
    omega
  unfold Float.Model.unpack Float.Model.pack UnpackedFloat.pack
  dsimp only
  rw [if_pos beyond]
  cases s <;> rfl

/-- What a settled mantissa and its exponent put out of range is an infinity. -/
theorem unpack_pack_settle {r : Nat} {t : Int} (bits : r ≤ 2 ^ 53)
    (beyond : 2 ^ (1024 : Int) ≤ (r : Rat) * 2 ^ t) :
    (Float.Model.pack (settle s r t)).unpack = .infinity s := by
  unfold settle
  split
  · rename_i zero
    rw [zero, Nat.cast_zero, zero_mul] at beyond
    exact absurd beyond (two_zpow_pos _).not_ge
  · split
    · rename_i short
      refine unpack_pack_large ?_
      have most : (2 : Rat) ^ (1024 : Int) < 2 ^ (53 + t) := by
        refine lt_of_le_of_lt beyond ?_
        rw [two_zpow_add]
        exact mul_lt_mul_of_pos_right (by exact_mod_cast short) (two_zpow_pos _)
      have := (zpow_lt_zpow_iff_right₀ one_lt_two).mp most
      omega
    · rename_i long
      refine unpack_pack_large ?_
      have full : r = 2 ^ 53 := le_antisymm bits (not_lt.mp long)
      have most : (2 : Rat) ^ (1024 : Int) ≤ 2 ^ (53 + t) := by
        rw [full] at beyond
        rw [two_zpow_add]
        exact_mod_cast beyond
      have := (zpow_le_zpow_iff_right₀ one_lt_two).mp most
      omega

/-- The double of the given sign that is nearest to a positive number. -/
def double (s : Sign) (x : Rat) : Float := .ofModel (.pack (rounded s x))

/-- The double nearest to a number is told by its mantissa and the place of its last bit, or it is out of
range. -/
theorem double_cases (s : Sign) (pos : 0 < x) :
    (approximation x < 2 ^ (1024 : Int) ∧ Canonical (rounded s x) ∧
        (double s x).toModel.unpack = rounded s x) ∨
      (2 ^ (1024 : Int) ≤ approximation x ∧ (double s x).toModel.unpack = .infinity s) := by
  obtain range | beyond := lt_or_ge (approximation x) (2 ^ (1024 : Int))
  · have canonical := canonical_rounded s pos range
    exact .inl ⟨range, canonical, unpack_pack canonical⟩
  · exact .inr ⟨beyond, unpack_pack_settle (mantissa_le pos) beyond⟩

theorem double_isFinite_iff (pos : 0 < x) :
    (double s x).isFinite = true ↔ approximation x < 2 ^ (1024 : Int) := by
  obtain ⟨range, canonical, unpacked⟩ | ⟨beyond, unpacked⟩ := double_cases s pos
  · have finite : (double s x).isFinite = true := isFinite_of_canonical canonical
    exact iff_of_true finite range
  · rw [isFinite_eq, unpacked]
    exact iff_of_false Bool.false_ne_true beyond.not_gt

theorem exact_double (pos : 0 < x) (range : approximation x < 2 ^ (1024 : Int)) :
    exact (double s x) = (s.apply 1 : Int) * approximation x := by
  obtain ⟨-, -, unpacked⟩ | ⟨beyond, -⟩ := double_cases s pos
  · rw [exact, unpacked, worth_rounded s pos]
  · exact absurd range beyond.not_gt

/-- The double nearest to a number is itself a number, or an infinity. -/
theorem double_beq_self (s : Sign) (pos : 0 < x) : (double s x == double s x) = true := by
  by_cases finite : (double s x).isFinite = true
  · exact (float_beq_iff finite finite).mpr rfl
  · obtain ⟨range, -⟩ | ⟨-, unpacked⟩ := double_cases s pos
    · exact absurd ((double_isFinite_iff pos).mpr range) finite
    · rw [beq_eq, unpacked]
      cases s <;> rfl

/-! ## Products and quotients -/

/-- A finite double other than zero, with its sign. -/
def HasSign (s : Sign) (a : Float) : Prop :=
  ∃ m e, ∃ pos : 0 < m, a.toModel.unpack = .finite s m e pos

theorem isFinite_of_hasSign (signed : HasSign s a) : a.isFinite = true := by
  obtain ⟨m, e, pos, unpacked⟩ := signed
  rw [isFinite_eq, unpacked]
  rfl

theorem abs_exact {pos : 0 < m} (unpacked : a.toModel.unpack = .finite s m e pos) :
    |exact a| = m * 2 ^ e := by
  rw [exact, unpacked, worth, sign_apply_cast, mul_assoc, abs_mul, sign_abs, one_mul,
    abs_of_pos (mul_zpow_pos pos e)]

theorem abs_exact_pos (signed : HasSign s a) : 0 < |exact a| := by
  obtain ⟨m, e, pos, unpacked⟩ := signed
  rw [abs_exact unpacked]
  exact mul_zpow_pos pos e

theorem exact_of_hasSign (signed : HasSign s a) : exact a = (s.apply 1 : Int) * |exact a| := by
  obtain ⟨m, e, pos, unpacked⟩ := signed
  rw [abs_exact unpacked, exact, unpacked, worth, sign_apply_cast, mul_assoc]

/-- A finite double is a zero or has a sign. -/
theorem zero_or_hasSign (finite : a.isFinite = true) :
    (∃ s, a.toModel.unpack = .zero s) ∨ ∃ s, HasSign s a := by
  rw [isFinite_eq] at finite
  cases unpacked : a.toModel.unpack with
  | infinity s =>
    rw [unpacked] at finite
    cases finite
  | notANumber =>
    rw [unpacked] at finite
    cases finite
  | zero s => exact .inl ⟨s, rfl⟩
  | finite s m e pos => exact .inr ⟨s, m, e, pos, unpacked⟩

theorem hasSign_of_nonzero (finite : a.isFinite = true) (nonzero : exact a ≠ 0) :
    ∃ s, HasSign s a := by
  obtain ⟨s, zero⟩ | signed := zero_or_hasSign finite
  · rw [exact, zero] at nonzero
    exact absurd rfl nonzero
  · exact signed

theorem canonical_of_unpack {pos : 0 < m} (unpacked : a.toModel.unpack = .finite s m e pos) :
    Canonical (.finite s m e pos) :=
  unpacked ▸ canonical_of_isFinite (isFinite_of_hasSign ⟨m, e, pos, unpacked⟩)

/-- A product is the double nearest to the exact product. -/
theorem mul_eq_double (signed : HasSign s a) (signed' : HasSign s' b) :
    a * b = double (s * s') (|exact a| * |exact b|) := by
  obtain ⟨m, e, pos, unpacked⟩ := signed
  obtain ⟨m', e', pos', unpacked'⟩ := signed'
  have product := mul_eq_rounded (canonical_of_unpack unpacked) (canonical_of_unpack unpacked')
  rw [← unpacked, ← unpacked', ← abs_exact unpacked, ← abs_exact unpacked'] at product
  exact congrArg (fun u => Float.ofModel (.pack u)) product

/-- A quotient is the double nearest to the exact quotient. -/
theorem div_eq_double (signed : HasSign s a) (signed' : HasSign s' b) :
    a / b = double (s / s') (|exact a| / |exact b|) := by
  obtain ⟨m, e, pos, unpacked⟩ := signed
  obtain ⟨m', e', pos', unpacked'⟩ := signed'
  have quotient : UnpackedFloat.div .binary64 (.finite s m e pos) (.finite s' m' e' pos') = _ :=
    div_eq_rounded
  rw [← unpacked, ← unpacked', ← abs_exact unpacked, ← abs_exact unpacked'] at quotient
  exact congrArg (fun u => Float.ofModel (.pack u)) quotient

/-- The double nearest to a number keeps the sign if it is neither zero nor out of range. -/
theorem hasSign_double (pos : 0 < x) (some : 0 < approximation x)
    (range : approximation x < 2 ^ (1024 : Int)) :
    HasSign s (double s x) ∧ |exact (double s x)| = approximation x := by
  have value := exact_double (s := s) pos range
  obtain ⟨-, -, unpacked⟩ | ⟨beyond, -⟩ := double_cases s pos
  · constructor
    · have nonzero : mantissa x ≠ 0 := by
        intro zero
        rw [approximation, zero, Nat.cast_zero, zero_mul] at some
        exact some.false
      unfold HasSign
      rw [unpacked, rounded, settle, dif_neg nonzero]
      split
      · exact ⟨_, _, Nat.pos_of_ne_zero nonzero, rfl⟩
      · exact ⟨_, _, least_mantissa_pos, rfl⟩
    · rw [value, abs_mul, sign_abs, one_mul, abs_of_pos some]
  · exact absurd range beyond.not_gt

theorem sign_div (s s' : Sign) : s / s' = s * s' := by
  cases s <;> cases s' <;> rfl

theorem positive_mul (s : Sign) : Sign.positive * s = s := by
  cases s <;> rfl

/-! ## Zeros -/

theorem zero_beq_zero (zero : a.toModel.unpack = .zero s) (zero' : b.toModel.unpack = .zero s') :
    (a == b) = true := by
  rw [beq_eq, zero, zero']
  rfl

theorem unpack_pack_zero (s : Sign) : (Float.Model.pack (.zero s)).unpack = .zero s :=
  unpack_pack trivial

theorem zero_compare_zero (s s' : Sign) :
    ((UnpackedFloat.zero s).compare (Float.Model.pack (.zero s')).unpack == some .eq) = true := by
  rw [unpack_pack_zero]
  rfl

theorem zero_compare_notANumber (s : Sign) :
    ¬((UnpackedFloat.zero s).compare (Float.Model.pack .notANumber).unpack == some .eq) = true := by
  have kept : (Float.Model.pack .notANumber).unpack = .notANumber := by rfl
  rw [kept]
  exact Bool.false_ne_true

theorem unpack_zero_mul (zero : a.toModel.unpack = .zero s) (finite : b.isFinite = true) :
    ∃ s', (a * b).toModel.unpack = .zero s' := by
  obtain ⟨s', zero'⟩ | ⟨s', m, e, pos, unpacked⟩ := zero_or_hasSign finite
  · exact ⟨s * s', by rw [unpack_mul, zero, zero']; exact unpack_pack_zero _⟩
  · exact ⟨s * s', by rw [unpack_mul, zero, unpacked]; exact unpack_pack_zero _⟩

theorem unpack_mul_zero (signed : HasSign s a) (zero : b.toModel.unpack = .zero s') :
    (a * b).toModel.unpack = .zero (s * s') := by
  obtain ⟨m, e, pos, unpacked⟩ := signed
  rw [unpack_mul, unpacked, zero]
  exact unpack_pack_zero _

theorem unpack_zero_div (zero : a.toModel.unpack = .zero s) (signed : HasSign s' b) :
    (a / b).toModel.unpack = .zero (s / s') := by
  obtain ⟨m, e, pos, unpacked⟩ := signed
  rw [unpack_div, zero, unpacked]
  exact unpack_pack_zero _

/-- A product of finite doubles is a number, or an infinity. -/
theorem mul_beq_self (finite : a.isFinite = true) (finite' : b.isFinite = true) :
    (a * b == a * b) = true := by
  obtain ⟨s, zero⟩ | ⟨s, signed⟩ := zero_or_hasSign finite
  · obtain ⟨s', product⟩ := unpack_zero_mul zero finite'
    exact zero_beq_zero product product
  · obtain ⟨s', zero'⟩ | ⟨s', signed'⟩ := zero_or_hasSign finite'
    · exact zero_beq_zero (unpack_mul_zero signed zero') (unpack_mul_zero signed zero')
    · rw [mul_eq_double signed signed']
      exact double_beq_self _ (mul_pos (abs_exact_pos signed) (abs_exact_pos signed'))

/-- Zero times a finite double is a zero, and zero times anything else is not a number. -/
theorem zero_mul_beq_iff (zero : a.toModel.unpack = .zero s) :
    (a == a * b) = true ↔ b.isFinite = true := by
  rw [beq_eq, isFinite_eq, unpack_mul, zero]
  cases b.toModel.unpack with
  | infinity s' => exact iff_of_false (zero_compare_notANumber s) Bool.false_ne_true
  | notANumber => exact iff_of_false (zero_compare_notANumber s) Bool.false_ne_true
  | zero s' => exact iff_of_true (zero_compare_zero s (s * s')) rfl
  | finite s' m e pos => exact iff_of_true (zero_compare_zero s (s * s')) rfl

end Cassowary.DoubleOperations
