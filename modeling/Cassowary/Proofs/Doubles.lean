import Cassowary.Proofs.Rounding

/-!
What doubles are worth. Every finite double stands for a rational number. Sums and differences are rounded
to the nearest double, so that they are off by at most one part in two to the power of 53; negation and
products with one or minus one are exact. All this holds unless the result leaves the range of doubles.
-/

namespace Cassowary.Doubles
open Float.Model Float.Model.UnpackedFloat Rounding

/-- The number that a finite float stands for. -/
def worth : UnpackedFloat → Rat
  | .finite s m e _ => s.apply m * 2 ^ e
  | _ => 0

/-- The form in which a finite double is taken apart: a mantissa of 53 bits, or of fewer with the least
exponent. -/
def Canonical : UnpackedFloat → Prop
  | .finite _ m e _ => m < 2 ^ 53 ∧ -1074 ≤ e ∧ e ≤ 971 ∧ (2 ^ 52 ≤ m ∨ e = -1074)
  | .zero _ => True
  | _ => False

variable {s : Sign} {m r n : Nat} {e t : Int} {u v : UnpackedFloat}

theorem worth_settle (bits : r ≤ 2 ^ 53) : worth (settle s r e) = s.apply r * 2 ^ e := by
  unfold settle
  split
  · rename_i zero
    cases s <;> simp [worth, zero, Sign.apply]
  · split
    · rfl
    · have full : r = 2 ^ 53 := by omega
      rw [full]
      simp only [worth]
      rw [two_zpow_add]
      cases s <;> simp only [Sign.apply] <;> push_cast <;> ring

theorem settle_canonical (bits : r ≤ 2 ^ 53) (least : -1074 ≤ t) (length : 2 ^ 52 ≤ r ∨ t = -1074)
    (range : (r : Rat) * 2 ^ t < 2 ^ (1024 : Int)) : Canonical (settle s r t) := by
  have bound : 2 ^ 52 ≤ r → t < 972 := by
    intro full
    have low : (2 : Rat) ^ (52 + t) < 2 ^ (1024 : Int) := by
      refine lt_of_le_of_lt ?_ range
      rw [two_zpow_add]
      refine mul_le_mul_of_nonneg_right ?_ (two_zpow_pos t).le
      exact_mod_cast full
    have := (zpow_lt_zpow_iff_right₀ one_lt_two).mp low
    omega
  unfold settle
  split
  · trivial
  · split
    · exact ⟨by assumption, least, by omega, length⟩
    · have full : r = 2 ^ 53 := by omega
      have low : (2 : Rat) ^ (53 + t) < 2 ^ (1024 : Int) := by
        rw [full] at range
        rw [two_zpow_add]
        exact_mod_cast range
      have := (zpow_lt_zpow_iff_right₀ one_lt_two).mp low
      exact ⟨by norm_num, by omega, by omega, .inl le_rfl⟩

/-- The float is a double that is off from the number by at most one part in two to the power of 53. -/
def Rounds (x : Rat) (u : UnpackedFloat) : Prop :=
  Canonical u ∧ |worth u - x| * 2 ^ 53 ≤ |x|

theorem sign_apply_cast (s : Sign) (m : Nat) :
    ((s.apply m : Int) : Rat) = (s.apply 1 : Int) * m := by
  cases s <;> simp [Sign.apply]

theorem sign_abs (s : Sign) : |((s.apply 1 : Int) : Rat)| = 1 := by
  cases s <;> simp [Sign.apply]

theorem worth_rounded {x : Rat} (s : Sign) (pos : 0 < x) :
    worth (rounded s x) = (s.apply 1 : Int) * approximation x := by
  rw [rounded, worth_settle (mantissa_le pos), sign_apply_cast, mul_assoc]
  rfl

theorem canonical_rounded {x : Rat} (s : Sign) (pos : 0 < x)
    (range : approximation x < 2 ^ (1024 : Int)) : Canonical (rounded s x) :=
  settle_canonical (mantissa_le pos) least_le_place (length_mantissa pos) range

theorem round_rounds (s : Sign) (pos : 0 < m) (least : -1074 ≤ e)
    (range : (m : Rat) * 2 ^ e ≤ 2 ^ (1023 : Int)) :
    Rounds (s.apply m * 2 ^ e) (round .binary64 s m e) := by
  have positive := mul_zpow_pos pos e
  rw [round_eq_rounded s pos]
  refine ⟨canonical_rounded s positive (approximation_lt_of_le positive range), ?_⟩
  rw [worth_rounded s positive, sign_apply_cast s m, mul_assoc, ← mul_sub, abs_mul, abs_mul, sign_abs,
    one_mul, one_mul, abs_of_pos positive]
  exact approximation_near_of_least pos least

theorem normalize_rounds (mantissa : Int) (zero : Sign) (least : -1074 ≤ e)
    (range : |(mantissa : Rat) * 2 ^ e| ≤ 2 ^ (1023 : Int)) :
    Rounds (mantissa * 2 ^ e) (normalize .binary64 mantissa e zero) := by
  unfold UnpackedFloat.normalize
  rw [abs_mul, abs_of_pos (two_zpow_pos e)] at range
  split <;> rename_i sign
  · have negative := compare_lt_iff_lt.mp sign
    obtain ⟨m, same⟩ := Int.eq_ofNat_of_zero_le (neg_nonneg.mpr negative.le)
    have value : mantissa = Sign.negative.apply m := by simp [Sign.apply, ← same]
    rw [same, Int.toNat_natCast, value]
    rw [value] at range
    refine round_rounds _ (by omega) least ?_
    simpa [Sign.apply] using range
  · obtain rfl := compare_eq_iff_eq.mp sign
    exact ⟨trivial, by simp [worth]⟩
  · have positive := compare_gt_iff_gt.mp sign
    obtain ⟨m, rfl⟩ := Int.eq_ofNat_of_zero_le positive.le
    rw [Int.toNat_natCast]
    refine round_rounds .positive (by omega) least ?_
    simpa using range

/-! ## Doubles as bits -/

@[simp] theorem unpackSign_packComponents {spec : Format} {exponent mantissa} :
    unpackSign (packComponents spec s exponent mantissa) = s.toBitVec := by
  ext i within
  obtain rfl : i = 0 := by omega
  simp [unpackSign, packComponents, BitVec.getLsbD_append, BitVec.getElem_append]

@[simp] theorem ofBitVec_toBitVec (s : Sign) : Sign.ofBitVec s.toBitVec = s := by
  cases s <;> rfl

theorem append_implicit (b : BitVec 52) : (1#1 ++ b).toNat = 2 ^ 52 + b.toNat := by
  rw [BitVec.toNat_append, ← Nat.shiftLeft_add_eq_or_of_lt b.isLt]
  rfl

/-- A double that is put together and taken apart again is the same. -/
theorem unpack_pack (canonical : Canonical u) : (Float.Model.pack u).unpack = u := by
  unfold Float.Model.unpack Float.Model.pack
  dsimp only
  cases u with
  | infinity s => cases canonical
  | notANumber => cases canonical
  | zero s => cases s <;> rfl
  | finite s m e pos =>
    obtain ⟨bits, least, most, length⟩ := canonical
    have length' : m.log2 + 1 = 53 ↔ 2 ^ 52 ≤ m := by
      rw [← Nat.le_log2 pos.ne']
      have short := (Nat.log2_lt pos.ne').mpr bits
      omega
    obtain ⟨biased, same⟩ := Int.eq_ofNat_of_zero_le (show 0 ≤ e + 1075 by omega)
    have field : (e + Format.binary64.exponentBias + Format.binary64.mantissaBitsWithoutImplicit).toNat =
        biased := by
      simp only [Format.exponentBias]
      omega
    have fits : ¬2 ^ Format.binary64.exponentBits ≤ biased + 1 := by
      show ¬2 ^ 11 ≤ biased + 1
      omega
    have whole : (BitVec.ofNat 11 biased).toNat = biased := by
      rw [BitVec.toNat_ofNat, Nat.mod_eq_of_lt (by omega)]
    by_cases normal : 2 ^ 52 ≤ m
    · have place : m.log2 + 1 = Format.binary64.mantissaBits := length'.mpr normal
      have mantissa : (1#1 ++ BitVec.ofNat 52 m).toNat = m := by
        rw [append_implicit, BitVec.toNat_ofNat]
        omega
      have notMost : BitVec.ofNat 11 biased ≠ -1#11 := by
        intro most
        have := congrArg BitVec.toNat most
        rw [whole] at this
        change biased = 2047 at this
        omega
      have notLeast : BitVec.ofNat 11 biased ≠ 0#11 := by
        intro least
        have := congrArg BitVec.toNat least
        rw [whole] at this
        change biased = 0 at this
        omega
      unfold UnpackedFloat.pack UnpackedFloat.unpack
      simp only [field, if_neg fits, if_pos place, unpackExponent_packComponents,
        unpackMantissa_packComponents, unpackSign_packComponents, ofBitVec_toBitVec, if_neg notMost,
        if_neg notLeast]
      congr 1
      rw [whole]
      show (biased : Int) - 1075 = e
      omega
    · have exponent : e = -1074 := length.resolve_left normal
      have place : ¬m.log2 + 1 = Format.binary64.mantissaBits := mt length'.mp normal
      have mantissa : (BitVec.ofNat 52 m).toNat = m := by
        rw [BitVec.toNat_ofNat, Nat.mod_eq_of_lt (not_le.mp normal)]
      have notMost : 0#11 ≠ -1#11 := by decide
      have notZero : BitVec.ofNat 52 m ≠ 0#52 := by
        intro zero
        have := congrArg BitVec.toNat zero
        rw [mantissa] at this
        exact pos.ne' this
      unfold UnpackedFloat.pack UnpackedFloat.unpack
      simp only [field, if_neg fits, if_neg place, unpackExponent_packComponents,
        unpackMantissa_packComponents, unpackSign_packComponents, ofBitVec_toBitVec, if_neg notMost,
        if_true, dif_neg notZero, mantissa]
      congr 1
      rw [exponent]
      rfl

/-- A double is taken apart into its canonical form. -/
theorem unpack_canonical (x : Float.Model) (finite : x.unpack.isFinite = true) : Canonical x.unpack := by
  let bits : BitVec Format.binary64.numBits := x.toBits.toBitVec
  have low : (unpackMantissa bits).toNat < 2 ^ 52 := BitVec.isLt _
  have high : (unpackExponent bits).toNat < 2 ^ 11 := BitVec.isLt _
  have bias : ((Format.binary64.exponentBias : Nat) : Int) +
      (Format.binary64.mantissaBitsWithoutImplicit : Nat) = 1075 := rfl
  change (UnpackedFloat.unpack .binary64 bits).isFinite = true at finite
  change Canonical (UnpackedFloat.unpack .binary64 bits)
  unfold UnpackedFloat.unpack at finite ⊢
  dsimp only at finite ⊢
  rw [bias] at finite ⊢
  by_cases most : unpackExponent bits = -1#_
  · rw [if_pos most] at finite
    split at finite <;> cases finite
  · rw [if_neg most]
    by_cases least : unpackExponent bits = 0#_
    · rw [if_pos least]
      have none : (unpackExponent bits).toNat = 0 := congrArg BitVec.toNat least
      split
      · trivial
      · simp only [Canonical, none]
        omega
    · rw [if_neg least]
      have notMost : (unpackExponent bits).toNat ≠ 2047 := fun same => most (BitVec.eq_of_toNat_eq same)
      have notLeast : (unpackExponent bits).toNat ≠ 0 := fun same => least (BitVec.eq_of_toNat_eq same)
      have implicit := append_implicit (unpackMantissa bits)
      simp only [Canonical]
      omega

/-! ## Arithmetic -/

theorem rounds_self (canonical : Canonical u) : Rounds (worth u) u :=
  ⟨canonical, by simp⟩

/-- Lowering the exponent of a number to that of another one keeps its value. -/
theorem decreaseExponent_value (s : Sign) (m : Nat) (lower : t ≤ e) :
    (s.apply (decreaseExponent m e t).1 : Rat) * 2 ^ t = s.apply m * 2 ^ e := by
  obtain ⟨k, more⟩ := Int.eq_ofNat_of_zero_le (sub_nonneg.mpr lower)
  obtain rfl : e = t + k := by omega
  unfold decreaseExponent
  rw [sign_apply_cast, sign_apply_cast s m, two_zpow_add]
  simp only [add_sub_cancel_left, Int.toNat_natCast, Nat.shiftLeft_eq, zpow_natCast]
  push_cast
  ring

theorem add_rounds (canonical : Canonical u) (canonical' : Canonical v)
    (range : |worth u + worth v| ≤ 2 ^ (1023 : Int)) :
    Rounds (worth u + worth v) (UnpackedFloat.add .binary64 u v) := by
  cases u with
  | infinity s => cases canonical
  | notANumber => cases canonical
  | zero s =>
    cases v with
    | infinity s => cases canonical'
    | notANumber => cases canonical'
    | zero s' =>
      unfold UnpackedFloat.add
      dsimp only
      split <;> exact ⟨trivial, by simp [worth]⟩
    | finite s' m' e' pos' =>
      show Rounds (0 + _) _
      rw [zero_add]
      exact rounds_self canonical'
  | finite s m e pos =>
    cases v with
    | infinity s => cases canonical'
    | notANumber => cases canonical'
    | zero s' =>
      show Rounds (_ + 0) _
      rw [add_zero]
      exact rounds_self canonical
    | finite s' m' e' pos' =>
      have value : worth (.finite s m e pos) + worth (.finite s' m' e' pos') =
          (s.apply (decreaseExponent m e (min e e')).1 + s'.apply (decreaseExponent m' e' (min e e')).1 :
            Int) * 2 ^ min e e' := by
        push_cast
        rw [add_mul, decreaseExponent_value s m (min_le_left e e'),
          decreaseExponent_value s' m' (min_le_right e e')]
        rfl
      rw [value] at range ⊢
      exact normalize_rounds _ _ (le_min canonical.2.1 canonical'.2.1) range

theorem neg_apply (s : Sign) (m : Int) : (-s).apply m = -s.apply m := by
  cases s with
  | negative => exact (neg_neg m).symm
  | positive => rfl

theorem worth_neg (u : UnpackedFloat) : worth u.neg = -worth u := by
  cases u with
  | finite s m e pos => simp [UnpackedFloat.neg, worth, neg_apply]
  | _ => simp [UnpackedFloat.neg, worth]

theorem canonical_neg (canonical : Canonical u) : Canonical u.neg := by
  cases u <;> exact canonical

/-- Subtracting is adding the negative. -/
theorem sub_eq_add (u v : UnpackedFloat) :
    UnpackedFloat.sub .binary64 u v = UnpackedFloat.add .binary64 u v.neg := by
  cases u <;> cases v <;> try rfl
  simp only [UnpackedFloat.sub, UnpackedFloat.neg, UnpackedFloat.add, neg_apply, Int.sub_eq_add_neg]

/-- The number that a finite double stands for. -/
def exact (x : Float) : Rat := worth x.toModel.unpack

variable {x y : Float}

theorem exact_of_positive (m : Nat) (e : Int) (pos : 0 < m)
    (unpacked : x.toModel.unpack = .finite .positive m e pos) : exact x = m * 2 ^ e := by
  rw [exact, unpacked]
  exact congrArg (· * _) (Int.cast_natCast m)

theorem canonical_of_isFinite (finite : x.isFinite = true) : Canonical x.toModel.unpack :=
  unpack_canonical x.toModel finite

theorem isFinite_of_canonical (canonical : Canonical u) : (Float.Model.pack u).unpack.isFinite = true := by
  rw [unpack_pack canonical]
  cases u <;> first | rfl | cases canonical

/-- A sum is rounded to the nearest double. -/
theorem exact_add (finite : x.isFinite = true) (finite' : y.isFinite = true)
    (range : |exact x + exact y| ≤ 2 ^ (1023 : Int)) :
    (x + y).isFinite = true ∧ |exact (x + y) - (exact x + exact y)| * 2 ^ 53 ≤ |exact x + exact y| := by
  obtain ⟨canonical, error⟩ :=
    add_rounds (canonical_of_isFinite finite) (canonical_of_isFinite finite') range
  have value : (x + y).toModel.unpack = UnpackedFloat.add .binary64 x.toModel.unpack y.toModel.unpack :=
    unpack_pack canonical
  exact ⟨isFinite_of_canonical canonical, by rwa [exact, value]⟩

/-- A difference is rounded to the nearest double. -/
theorem exact_sub (finite : x.isFinite = true) (finite' : y.isFinite = true)
    (range : |exact x - exact y| ≤ 2 ^ (1023 : Int)) :
    (x - y).isFinite = true ∧ |exact (x - y) - (exact x - exact y)| * 2 ^ 53 ≤ |exact x - exact y| := by
  have negated := canonical_neg (canonical_of_isFinite finite')
  have difference : exact x - exact y = worth x.toModel.unpack + worth y.toModel.unpack.neg := by
    rw [worth_neg]
    exact sub_eq_add_neg _ _
  rw [difference] at range ⊢
  obtain ⟨canonical, error⟩ := add_rounds (canonical_of_isFinite finite) negated range
  rw [← sub_eq_add] at canonical error
  have value : (x - y).toModel.unpack = UnpackedFloat.sub .binary64 x.toModel.unpack y.toModel.unpack :=
    unpack_pack canonical
  exact ⟨isFinite_of_canonical canonical, by rwa [exact, value]⟩

theorem exact_neg (finite : x.isFinite = true) : (-x).isFinite = true ∧ exact (-x) = -exact x := by
  have canonical := canonical_neg (canonical_of_isFinite finite)
  have value : (-x).toModel.unpack = x.toModel.unpack.neg := unpack_pack canonical
  exact ⟨isFinite_of_canonical canonical, by rw [exact, value, worth_neg]; rfl⟩

theorem zero_add_keeps (canonical : Canonical u) :
    let sum := UnpackedFloat.add .binary64 (.zero .positive) u
    Canonical sum ∧ worth sum = worth u := by
  cases u with
  | infinity s => cases canonical
  | notANumber => cases canonical
  | zero s => cases s <;> exact ⟨trivial, rfl⟩
  | finite s m e pos => exact ⟨canonical, rfl⟩

/-- Adding to zero rounds nothing. -/
theorem exact_zero_add (finite : x.isFinite = true) :
    (0.0 + x).isFinite = true ∧ exact (0.0 + x) = exact x := by
  obtain ⟨canonical, same⟩ := zero_add_keeps (canonical_of_isFinite finite)
  have value : (0.0 + x).toModel.unpack =
      UnpackedFloat.add .binary64 (.zero .positive) x.toModel.unpack := unpack_pack canonical
  exact ⟨isFinite_of_canonical canonical, by rw [exact, value, same]; rfl⟩

/-- The double is one or minus one. -/
def SignedOne (s : Sign) (x : Float) : Prop :=
  x.toModel.unpack = .finite s (2 ^ 52) (-52) (by decide)

theorem mul_apply (s' s : Sign) (m : Int) : (s' * s).apply m = s.apply 1 * s'.apply m := by
  rcases s' with _ | _ <;> rcases s with _ | _
  · show m = -1 * -m
    ring
  · show -m = 1 * -m
    ring
  · show -m = -1 * m
    ring
  · show m = 1 * m
    ring

/-- A product is rounded once. -/
theorem mul_eq_rounded {s' : Sign} {m' : Nat} {e' : Int} {pos : 0 < m} {pos' : 0 < m'} (canonical : Canonical (.finite s m e pos))
    (canonical' : Canonical (.finite s' m' e' pos')) :
    UnpackedFloat.mul .binary64 (.finite s m e pos) (.finite s' m' e' pos') =
      rounded (s * s') (m * 2 ^ e * (m' * 2 ^ e')) := by
  have value : (m : Rat) * 2 ^ e * (m' * 2 ^ e') = (m * m' : Nat) * 2 ^ (e + e') := by
    rw [two_zpow_add]
    push_cast
    ring
  have product : 0 < m * m' := Nat.mul_pos pos pos'
  have long : 2 ^ 52 ≤ m ∨ 2 ^ 52 ≤ m' → 52 ≤ (m * m').log2 := by
    intro full
    refine (Nat.le_log2 product.ne').mpr ?_
    obtain full | full := full
    · exact full.trans (Nat.le_mul_of_pos_right m pos')
    · exact full.trans (Nat.le_mul_of_pos_left m' pos)
  have low : e + e' ≤ place ((m * m' : Nat) * 2 ^ (e + e')) := by
    obtain ⟨-, -, -, length⟩ := canonical
    obtain ⟨-, -, -, length'⟩ := canonical'
    rw [place_eq product]
    omega
  rw [value]
  refine roundWithAccuracy_of_shows _ ?_ (mul_zpow_pos product _) low
  rw [mul_div_cancel_right₀ _ (two_zpow_pos _).ne']
  exact shows_natCast _

/-- What is in its canonical form is not rounded. -/
theorem rounded_canonical {pos : 0 < m} (s' : Sign) (canonical : Canonical (.finite s m e pos)) :
    rounded s' (m * 2 ^ e) = .finite s' m e pos := by
  obtain ⟨bits, least, -, length⟩ := canonical
  have short := (Nat.log2_lt pos.ne').mpr bits
  have long : 2 ^ 52 ≤ m → 52 ≤ m.log2 := (Nat.le_log2 pos.ne').mpr
  have here : place (m * 2 ^ e) = e := by
    rw [place_eq pos]
    omega
  have kept : Rounding.mantissa (m * 2 ^ e) = m := by
    rw [Rounding.mantissa, here, mul_div_cancel_right₀ _ (two_zpow_pos e).ne', nearest_natCast]
  rw [rounded, here, kept, settle, dif_neg pos.ne', if_pos bits]

theorem mul_unit (canonical : Canonical u) (s : Sign) :
    let product := UnpackedFloat.mul .binary64 u (.finite s (2 ^ 52) (-52) (by decide))
    Canonical product ∧ worth product = (s.apply 1 : Int) * worth u := by
  cases u with
  | infinity s => cases canonical
  | notANumber => cases canonical
  | zero s => exact ⟨trivial, by simp [UnpackedFloat.mul, worth]⟩
  | finite s' m e pos =>
    have unit : Canonical (.finite s (2 ^ 52) (-52) (by decide)) :=
      ⟨by norm_num, by norm_num, by norm_num, .inl le_rfl⟩
    have one : ((2 ^ 52 : Nat) : Rat) * 2 ^ (-52 : Int) = 1 := by norm_num
    have product := mul_eq_rounded canonical unit
    rw [one, mul_one, rounded_canonical (s' * s) canonical] at product
    dsimp only
    rw [product]
    refine ⟨canonical, ?_⟩
    simp only [worth, mul_apply]
    push_cast
    ring

/-- Multiplying by one or minus one rounds nothing. -/
theorem exact_mul_signedOne (finite : x.isFinite = true) (unit : SignedOne s y) :
    (x * y).isFinite = true ∧ exact (x * y) = (s.apply 1 : Int) * exact x := by
  obtain ⟨canonical, value⟩ := mul_unit (canonical_of_isFinite finite) s
  rw [← unit] at canonical value
  have product : (x * y).toModel.unpack = UnpackedFloat.mul .binary64 x.toModel.unpack y.toModel.unpack :=
    unpack_pack canonical
  exact ⟨isFinite_of_canonical canonical, by rw [exact, product, value]; rfl⟩

theorem exact_mul_one (finite : x.isFinite = true) (one : SignedOne .positive y) :
    (x * y).isFinite = true ∧ exact (x * y) = exact x := by
  obtain ⟨finite', value⟩ := exact_mul_signedOne finite one
  exact ⟨finite', value.trans (one_mul _)⟩

theorem exact_mul_minusOne (finite : x.isFinite = true) (minusOne : SignedOne .negative y) :
    (x * y).isFinite = true ∧ exact (x * y) = -exact x := by
  obtain ⟨finite', value⟩ := exact_mul_signedOne finite minusOne
  exact ⟨finite', value.trans (neg_one_mul _)⟩

end Cassowary.Doubles
