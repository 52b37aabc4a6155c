import Mathlib

/-!
Rounding as a function. A product and a quotient of two doubles are worked out with as many bits as are
needed to tell on which side of half a unit the rest lies. What comes out is a function of the exact
result and its sign alone: the exact result is cut at the place of its last bit, and the nearest whole
number of such bits is taken, an even one if two are equally near.
-/

namespace Cassowary.Rounding
open Float.Model Float.Model.UnpackedFloat

variable {s s' : Sign} {m m' n r : Nat} {e e' k t : Int} {x y : Rat} {em : ExtendedMantissa}
  {accuracy : Accuracy}

theorem two_zpow_pos (e : Int) : (0 : Rat) < 2 ^ e := zpow_pos two_pos e

theorem two_zpow_add (e t : Int) : (2 : Rat) ^ (e + t) = 2 ^ e * 2 ^ t := zpow_add₀ two_ne_zero e t

theorem two_pow_mul_zpow (n : Nat) (k : Int) : (2 : Rat) ^ n * 2 ^ k = 2 ^ (n + k : Int) := by
  rw [two_zpow_add, zpow_natCast]

/-! ## The nearest whole number -/

/-- The whole number that is nearest to a non-negative one, and of two such numbers the even one. -/
def nearest (x : Rat) : Nat :=
  if x - ⌊x⌋₊ < 1 / 2 then ⌊x⌋₊
  else if 1 / 2 < x - ⌊x⌋₊ then ⌊x⌋₊ + 1
  else ⌊x⌋₊ + ⌊x⌋₊ % 2

@[simp] theorem nearest_natCast (n : Nat) : nearest (n : Rat) = n := by
  simp [nearest]

theorem nearest_error (nonneg : 0 ≤ x) : |(nearest x : Rat) - x| ≤ 1 / 2 := by
  have low := Nat.floor_le nonneg
  have high := Nat.lt_floor_add_one x
  unfold nearest
  split
  · rw [abs_le]
    constructor <;> linarith
  · split
    · push_cast
      rw [abs_le]
      constructor <;> linarith
    · have half : x - ⌊x⌋₊ = 1 / 2 := by linarith
      obtain even | odd := Nat.mod_two_eq_zero_or_one ⌊x⌋₊
      · rw [even, abs_le]
        push_cast
        constructor <;> linarith
      · rw [odd, abs_le]
        push_cast
        constructor <;> linarith

/-- Whole numbers that bound a number bound the nearest whole number. -/
theorem le_nearest (bound : (n : Rat) ≤ x) : n ≤ nearest x := by
  have below : n ≤ ⌊x⌋₊ := Nat.le_floor bound
  unfold nearest
  split
  · exact below
  · split <;> omega

theorem nearest_le (nonneg : 0 ≤ x) (bound : x ≤ n) : nearest x ≤ n := by
  obtain same | less := bound.eq_or_lt
  · rw [same, nearest_natCast]
  · have below : ⌊x⌋₊ < n := (Nat.floor_lt nonneg).mpr less
    unfold nearest
    split
    · exact below.le
    · split <;> omega

/-! ## Mantissas with a round bit and a sticky bit -/

/-- What an extended mantissa says of a number: the mantissa is its whole part, the round bit tells whether
the rest is at least a half, and the sticky bit whether it is anything else than nothing or a half. -/
structure Shows (em : ExtendedMantissa) (x : Rat) : Prop where
  lower : (em.mantissa : Rat) ≤ x
  upper : x < em.mantissa + 1
  half : em.roundBit = true ↔ 1 / 2 ≤ x - em.mantissa
  other : em.stickyBit = true ↔ x - em.mantissa ≠ 0 ∧ x - em.mantissa ≠ 1 / 2

theorem floor_of_shows (shows : Shows em x) : ⌊x⌋₊ = em.mantissa :=
  (Nat.floor_eq_iff (le_trans (Nat.cast_nonneg _) shows.lower)).mpr ⟨shows.lower, shows.upper⟩

theorem shows_natCast (m : Nat) : Shows ⟨m, false, false⟩ m := by
  constructor <;> simp

/-- There is a rest just when one of the bits is set. -/
theorem rest_of_shows (shows : Shows em x) :
    (em.roundBit || em.stickyBit) = true ↔ x ≠ em.mantissa := by
  rw [Bool.or_eq_true, shows.half, shows.other, sub_ne_zero]
  constructor
  · rintro (half | ⟨rest, -⟩)
    · intro same
      rw [same, sub_self] at half
      norm_num at half
    · exact rest
  · intro rest
    by_cases half : x - em.mantissa = 1 / 2
    · exact .inl half.ge
    · exact .inr ⟨rest, half⟩

/-- Halving keeps what the bits say. -/
theorem shows_shiftRightOne (shows : Shows em x) : Shows em.shiftRightOne (x / 2) := by
  have lower := shows.lower
  have upper := shows.upper
  have rest := rest_of_shows shows
  have parity : (em.mantissa : Rat) = (em.mantissa % 2 : Nat) + 2 * (em.mantissa / 2 : Nat) := by
    exact_mod_cast (Nat.mod_add_div em.mantissa 2).symm
  unfold ExtendedMantissa.shiftRightOne
  rcases Nat.mod_two_eq_zero_or_one em.mantissa with even | odd
  · rw [even, Nat.cast_zero, zero_add] at parity
    constructor
    · dsimp only
      linarith
    · dsimp only
      linarith
    · simp only [even, bne_self_eq_false, Bool.false_eq_true, false_iff, not_le]
      linarith
    · refine rest.trans ⟨fun differ => ⟨fun none => differ ?_, fun half => ?_⟩, fun differ same => ?_⟩
      · dsimp only at none
        linarith
      · dsimp only at half
        linarith
      · apply differ.1
        dsimp only
        linarith
  · rw [odd, Nat.cast_one] at parity
    constructor
    · dsimp only
      linarith
    · dsimp only
      linarith
    · simp only [odd, bne_iff_ne, ne_eq, one_ne_zero, not_false_eq_true, true_iff]
      linarith
    · refine rest.trans ⟨fun differ => ⟨fun none => ?_, fun half => differ ?_⟩, fun differ same => ?_⟩
      · dsimp only at none
        linarith
      · dsimp only at half
        linarith
      · apply differ.2
        dsimp only
        linarith

theorem shows_shiftRight (shows : Shows em x) (n : Nat) : Shows (em >>> n) (x / 2 ^ n) := by
  induction n with
  | zero => simpa [HShiftRight.hShiftRight, Nat.repeat] using shows
  | succ n ih =>
    have next := shows_shiftRightOne ih
    rw [div_div, ← pow_succ] at next
    exact next

/-- The rounded mantissa is the nearest whole number. -/
theorem roundedMantissa_of_shows (shows : Shows em x) : em.roundedMantissa = nearest x := by
  have whole := floor_of_shows shows
  obtain ⟨m, roundBit, stickyBit⟩ := em
  obtain ⟨lower, upper, half, other⟩ := shows
  unfold nearest
  rw [whole]
  dsimp only at *
  cases roundBit with
  | false =>
    have less : x - m < 1 / 2 := not_le.mp (mt half.mpr Bool.false_ne_true)
    rw [if_pos less]
    cases stickyBit <;> rfl
  | true =>
    have more : 1 / 2 ≤ x - m := half.mp rfl
    rw [if_neg (not_lt.mpr more)]
    cases stickyBit with
    | false =>
      have same : x - m = 1 / 2 := by
        by_contra differ
        exact Bool.false_ne_true (other.mpr ⟨fun none => by linarith, differ⟩)
      rw [if_neg same.le.not_gt]
      rfl
    | true =>
      rw [if_pos (lt_of_le_of_ne more (Ne.symm (other.mp rfl).2))]
      rfl

/-! ## The place of the last bit -/

theorem log_eq_iff (pos : 0 < x) : Int.log 2 x = k ↔ (2 : Rat) ^ k ≤ x ∧ x < 2 ^ (k + 1) := by
  have low : (2 : Rat) ^ k ≤ x ↔ k ≤ Int.log 2 x := Int.zpow_le_iff_le_log Nat.one_lt_two pos
  have high : x < (2 : Rat) ^ (k + 1) ↔ Int.log 2 x < k + 1 := Int.lt_zpow_iff_log_lt Nat.one_lt_two pos
  rw [low, high]
  omega

theorem log_mul_zpow (pos : 0 < x) (e : Int) : Int.log 2 (x * 2 ^ e) = Int.log 2 x + e := by
  obtain ⟨low, high⟩ := (log_eq_iff pos).mp rfl
  refine (log_eq_iff (mul_pos pos (two_zpow_pos e))).mpr ⟨?_, ?_⟩
  · rw [two_zpow_add]
    exact mul_le_mul_of_nonneg_right low (two_zpow_pos e).le
  · rw [add_right_comm, two_zpow_add]
    exact mul_lt_mul_of_pos_right high (two_zpow_pos e)

theorem log_natCast_eq (m : Nat) : Int.log 2 (m : Rat) = m.log2 := by
  rw [Int.log_natCast, Nat.log2_eq_log_two]

/-- The place of the last bit that a double near a number has. -/
def place (x : Rat) : Int := max (Int.log 2 x - 52) (-1074)

theorem least_le_place : -1074 ≤ place x := le_max_right _ _

theorem mantissa_of_shows (shows : Shows em x) (pos : 0 < em.mantissa) :
    (em.mantissa.log2 : Int) = Int.log 2 x := by
  have one : 1 ≤ x := le_trans (by exact_mod_cast pos) shows.lower
  rw [Int.log_of_one_le_right 2 one, floor_of_shows shows, Nat.log2_eq_log_two]

/-- A number with its last bit in place has at most 53 bits. -/
theorem div_place_lt (pos : 0 < x) : x / 2 ^ place x < 2 ^ 53 := by
  rw [div_lt_iff₀ (two_zpow_pos _), ← zpow_natCast, ← two_zpow_add]
  exact (Int.lt_zpow_iff_log_lt Nat.one_lt_two pos).mpr (by unfold place; omega)

/-- It has just 53 bits unless the place is the least. -/
theorem le_div_place (pos : 0 < x) (inner : -1074 < place x) : 2 ^ 52 ≤ x / 2 ^ place x := by
  rw [le_div_iff₀ (two_zpow_pos _), ← zpow_natCast, ← two_zpow_add]
  exact (Int.zpow_le_iff_le_log Nat.one_lt_two pos).mpr (by unfold place at *; omega)

theorem place_eq (pos : 0 < m) (e : Int) : place (m * 2 ^ e) = max (m.log2 + e - 52) (-1074) := by
  rw [place, log_mul_zpow (by exact_mod_cast pos), log_natCast_eq]

theorem mul_zpow_pos (pos : 0 < m) (e : Int) : (0 : Rat) < m * 2 ^ e :=
  mul_pos (by exact_mod_cast pos) (two_zpow_pos e)

/-- The mantissa of the double nearest to a number. -/
def mantissa (x : Rat) : Nat := nearest (x / 2 ^ place x)

theorem div_place_nonneg (pos : 0 < x) : 0 ≤ x / 2 ^ place x := (div_pos pos (two_zpow_pos _)).le

theorem mantissa_le (pos : 0 < x) : mantissa x ≤ 2 ^ 53 :=
  nearest_le (div_place_nonneg pos) (by exact_mod_cast (div_place_lt pos).le)

theorem length_mantissa (pos : 0 < x) : 2 ^ 52 ≤ mantissa x ∨ place x = -1074 := by
  by_cases inner : -1074 < place x
  · exact .inl (le_nearest (by exact_mod_cast le_div_place pos inner))
  · exact .inr (le_antisymm (not_lt.mp inner) least_le_place)

/-- What the double nearest to a number stands for, if doubles had no greatest exponent. -/
def approximation (x : Rat) : Rat := mantissa x * 2 ^ place x

theorem approximation_error (pos : 0 < x) : |approximation x - x| ≤ 1 / 2 * 2 ^ place x := by
  have unit := two_zpow_pos (place x)
  have split : approximation x - x = (mantissa x - x / 2 ^ place x) * 2 ^ place x := by
    rw [sub_mul, div_mul_cancel₀ x unit.ne', approximation]
  rw [split, abs_mul, abs_of_pos unit]
  exact mul_le_mul_of_nonneg_right (nearest_error (div_place_nonneg pos)) unit.le

/-- A number of which no bit has to be cut off is not rounded. -/
theorem approximation_of_low (low : place (m * 2 ^ e) ≤ e) :
    approximation (m * 2 ^ e) = m * 2 ^ e := by
  obtain ⟨n, more⟩ := Int.eq_ofNat_of_zero_le (sub_nonneg.mpr low)
  have whole : (m : Rat) * 2 ^ e / 2 ^ place (m * 2 ^ e) = (m * 2 ^ n : Nat) := by
    rw [mul_div_assoc, ← zpow_sub₀ two_ne_zero, more, zpow_natCast]
    push_cast
    rfl
  rw [approximation, mantissa, whole, nearest_natCast, ← whole, div_mul_cancel₀ _ (two_zpow_pos _).ne']

/-- A number that is not too small is off by at most one part in two to the power of 53. -/
theorem approximation_near_of_log (pos : 0 < x) (normal : -1022 ≤ Int.log 2 x) :
    |approximation x - x| * 2 ^ 53 ≤ x := by
  have inner : place x = Int.log 2 x - 52 := max_eq_left (by omega)
  have low : (2 : Rat) ^ (Int.log 2 x) ≤ x := Int.zpow_log_le_self Nat.one_lt_two pos
  calc |approximation x - x| * 2 ^ 53 ≤ 1 / 2 * 2 ^ place x * 2 ^ 53 :=
        mul_le_mul_of_nonneg_right (approximation_error pos) (by norm_num)
    _ = 2 ^ (Int.log 2 x) := by
        rw [show Int.log 2 x = place x + 52 by omega, two_zpow_add]
        norm_num
        ring
    _ ≤ x := low

theorem approximation_near (normal : 2 ^ (-1022 : Int) ≤ x) :
    |approximation x - x| * 2 ^ 53 ≤ x := by
  have pos : 0 < x := lt_of_lt_of_le (two_zpow_pos _) normal
  exact approximation_near_of_log pos ((Int.zpow_le_iff_le_log Nat.one_lt_two pos).mp normal)

/-- Multiples of the least double are off by no more, since small ones are not rounded at all. -/
theorem approximation_near_of_least (pos : 0 < m) (least : -1074 ≤ e) :
    |approximation (m * 2 ^ e) - m * 2 ^ e| * 2 ^ 53 ≤ m * 2 ^ e := by
  have positive := mul_zpow_pos pos e
  by_cases low : place (m * 2 ^ e) ≤ e
  · rw [approximation_of_low low, sub_self, abs_zero, zero_mul]
    exact positive.le
  · refine approximation_near_of_log positive ?_
    unfold place at low
    omega

/-- A number that a double can stand for is not rounded. -/
theorem approximation_eq (pos : 0 < m) (bits : m < 2 ^ 53) (least : -1074 ≤ e) :
    approximation (m * 2 ^ e) = m * 2 ^ e := by
  have length : m.log2 ≤ 52 := Nat.lt_succ_iff.mp ((Nat.log2_lt pos.ne').mpr bits)
  refine approximation_of_low ?_
  rw [place_eq pos]
  omega

/-- The greatest double is less than two to the power of 1024. -/
theorem greatest_lt : ((2 ^ 53 - 1 : Nat) : Rat) * 2 ^ (971 : Int) < 2 ^ (1024 : Int) := by
  have whole : (2 : Rat) ^ (1024 : Int) = 2 ^ 53 * 2 ^ (971 : Int) := (two_pow_mul_zpow 53 971).symm
  rw [whole]
  exact mul_lt_mul_of_pos_right (by norm_num) (two_zpow_pos _)

/-- What is no larger than the greatest double stays in the range of doubles. -/
theorem approximation_lt (pos : 0 < x) (small : x ≤ (2 ^ 53 - 1 : Nat) * 2 ^ (971 : Int)) :
    approximation x < 2 ^ (1024 : Int) := by
  have log : Int.log 2 x < 1024 := by
    refine (Int.lt_zpow_iff_log_lt Nat.one_lt_two pos).mp (lt_of_le_of_lt small greatest_lt)
  have top : place x ≤ 971 := max_le (by omega) (by norm_num)
  have unit := two_zpow_pos (place x)
  unfold approximation
  obtain same | less := top.eq_or_lt
  · have most : mantissa x ≤ 2 ^ 53 - 1 := by
      refine nearest_le (div_place_nonneg pos) ?_
      rw [div_le_iff₀ unit, same]
      exact small
    calc (mantissa x : Rat) * 2 ^ place x ≤ (2 ^ 53 - 1 : Nat) * 2 ^ place x :=
          mul_le_mul_of_nonneg_right (by exact_mod_cast most) unit.le
      _ < 2 ^ (1024 : Int) := by
          rw [same]
          exact greatest_lt
  · calc (mantissa x : Rat) * 2 ^ place x ≤ 2 ^ 53 * 2 ^ (970 : Int) :=
          mul_le_mul (by exact_mod_cast mantissa_le pos)
            (zpow_le_zpow_right₀ one_le_two (Int.le_of_lt_add_one less)) unit.le (by norm_num)
      _ = 2 ^ (1023 : Int) := two_pow_mul_zpow 53 970
      _ < 2 ^ (1024 : Int) := zpow_lt_zpow_right₀ one_lt_two (by norm_num)

theorem approximation_lt_of_le (pos : 0 < x) (small : x ≤ 2 ^ (1023 : Int)) :
    approximation x < 2 ^ (1024 : Int) := by
  refine approximation_lt pos (small.trans ?_)
  rw [show (1023 : Int) = (52 : Nat) + 971 by norm_num, ← two_pow_mul_zpow]
  exact mul_le_mul_of_nonneg_right (by norm_num) (two_zpow_pos _).le

/-- What is out of the range of doubles stays so. -/
theorem le_approximation (large : 2 ^ (1024 : Int) ≤ x) : 2 ^ (1024 : Int) ≤ approximation x := by
  have pos : 0 < x := lt_of_lt_of_le (two_zpow_pos _) large
  have log : 1024 ≤ Int.log 2 x := (Int.zpow_le_iff_le_log Nat.one_lt_two pos).mp large
  have high : 972 ≤ place x := le_trans (by omega) (le_max_left _ _)
  have full : 2 ^ 52 ≤ mantissa x := (length_mantissa pos).resolve_right (by omega)
  calc (2 : Rat) ^ (1024 : Int) = 2 ^ 52 * 2 ^ (972 : Int) := (two_pow_mul_zpow 52 972).symm
    _ ≤ mantissa x * 2 ^ place x :=
        mul_le_mul (by exact_mod_cast full) (zpow_le_zpow_right₀ one_le_two high)
          (two_zpow_pos _).le (Nat.cast_nonneg _)

theorem least_mantissa_pos : 0 < 2 ^ 52 := Nat.two_pow_pos 52

/-- A rounded mantissa with its exponent. If it has come to need one bit more it is even. -/
def settle (s : Sign) (r : Nat) (e : Int) : UnpackedFloat :=
  if zero : r = 0 then .zero s
  else if r < 2 ^ 53 then .finite s r e (Nat.pos_of_ne_zero zero)
  else .finite s (2 ^ 52) (e + 1) least_mantissa_pos

/-- The double nearest to a positive number, with the given sign. -/
def rounded (s : Sign) (x : Rat) : UnpackedFloat := settle s (mantissa x) (place x)

/-! ## What rounding gives -/

/-- The exponent that a number gets, of which the first bit has the place `m.log2 + e`. -/
theorem targetExponent_eq (m : Nat) (e : Int) :
    Format.binary64.targetExponent (totalExponent m e) = max (m.log2 + e - 52) (-1074) := by
  simp only [Format.targetExponent, totalExponent, Format.mantissaBits, Format.minExponent]
  omega

theorem shiftToTargetExponent_small (bits : r < 2 ^ 53) (least : -1074 ≤ e) :
    shiftToTargetExponent .binary64 r e .exact = (⟨r, false, false⟩, e) := by
  have length : r.log2 ≤ 52 := by
    by_cases zero : r = 0
    · simp [zero]
    · exact Nat.lt_succ_iff.mp ((Nat.log2_lt zero).mpr bits)
  have still : (Format.binary64.targetExponent (totalExponent r e) - e).toNat = 0 := by
    rw [targetExponent_eq]
    omega
  unfold shiftToTargetExponent shiftToExponent
  simp only [still]
  simp [ExtendedMantissa.ofMantissaAndAccuracy, HShiftRight.hShiftRight, Nat.repeat]

theorem shiftToTargetExponent_full (least : -1074 ≤ e) :
    shiftToTargetExponent .binary64 (2 ^ 53) e .exact = (⟨2 ^ 52, false, false⟩, e + 1) := by
  have once : (Format.binary64.targetExponent (totalExponent (2 ^ 53) e) - e).toNat = 1 := by
    rw [targetExponent_eq, Nat.log2_two_pow]
    omega
  unfold shiftToTargetExponent shiftToExponent
  simp only [once]
  rfl

@[simp] theorem mantissa_ofMantissaAndAccuracy :
    (ExtendedMantissa.ofMantissaAndAccuracy m accuracy).mantissa = m := by
  rcases accuracy with _ | (_ | _ | _) <;> rfl

/-- A number of which no bit has been cut off yet gets its last bit in place. -/
theorem targetExponent_of_shows (shows : Shows (.ofMantissaAndAccuracy m accuracy) (x / 2 ^ e))
    (pos : 0 < x) (low : e ≤ place x) :
    Format.binary64.targetExponent (totalExponent m e) = place x := by
  have same : x = x / 2 ^ e * 2 ^ e := (div_mul_cancel₀ x (two_zpow_pos e).ne').symm
  have log := log_mul_zpow (div_pos pos (two_zpow_pos e)) e
  rw [← same] at log
  rw [targetExponent_eq]
  obtain none | some := Nat.eq_zero_or_pos m
  · -- no bit of the number reaches the exponent, which is then below the least place
    have upper := shows.upper
    rw [mantissa_ofMantissaAndAccuracy, none, Nat.cast_zero, zero_add,
      div_lt_one (two_zpow_pos e)] at upper
    have below : Int.log 2 x < e := (Int.lt_zpow_iff_log_lt Nat.one_lt_two pos).mp upper
    rw [none]
    unfold place at *
    simp only [Nat.log2_zero]
    omega
  · have bits := mantissa_of_shows shows (by simpa using some)
    rw [mantissa_ofMantissaAndAccuracy] at bits
    rw [bits, ← log, place]

theorem roundWithAccuracy_of_shows (s : Sign)
    (shows : Shows (.ofMantissaAndAccuracy m accuracy) (x / 2 ^ e)) (pos : 0 < x)
    (low : e ≤ place x) : roundWithAccuracy .binary64 s m e accuracy = rounded s x := by
  obtain ⟨n, more⟩ := Int.eq_ofNat_of_zero_le (sub_nonneg.mpr low)
  have shift : (place x - e).toNat = n := by omega
  have there : e + (n : Int) = place x := by omega
  have first : shiftToTargetExponent .binary64 m e accuracy =
      (ExtendedMantissa.ofMantissaAndAccuracy m accuracy >>> n, place x) := by
    unfold shiftToTargetExponent shiftToExponent
    simp only [targetExponent_of_shows shows pos low, shift, there]
  have shown := shows_shiftRight shows n
  rw [div_div, ← zpow_natCast, ← two_zpow_add, there] at shown
  have cut := roundedMantissa_of_shows shown
  have bits := mantissa_le pos
  unfold roundWithAccuracy rounded settle
  simp only [first, cut]
  change (let final := shiftToTargetExponent .binary64 (mantissa x) (place x) .exact
    if zero : final.1.mantissa = 0 then UnpackedFloat.zero s
    else .finite s final.1.mantissa final.2 (Nat.pos_of_ne_zero zero)) = _
  rcases bits.lt_or_eq with small | full
  · simp only [shiftToTargetExponent_small small least_le_place, small, if_true]
  · simp only [full, shiftToTargetExponent_full least_le_place]
    rfl

/-! ## Operations -/

theorem round_eq_rounded (s : Sign) (pos : 0 < m) (e : Int) :
    round .binary64 s m e = rounded s (m * 2 ^ e) := by
  unfold UnpackedFloat.round decreaseExponent
  simp only [targetExponent_eq, ← place_eq pos]
  generalize exponent : e - ((e - place (m * 2 ^ e)).toNat : Int) = t
  have shift : e = t + ((e - place (m * 2 ^ e)).toNat : Nat) := by omega
  refine roundWithAccuracy_of_shows s ?_ (mul_zpow_pos pos e) (by omega)
  have value : (m : Rat) * 2 ^ e / 2 ^ t = (m <<< (e - place (m * 2 ^ e)).toNat : Nat) := by
    rw [div_eq_iff (two_zpow_pos t).ne', Nat.shiftLeft_eq]
    generalize (e - place (m * 2 ^ e)).toNat = n at *
    rw [shift, two_zpow_add, zpow_natCast]
    push_cast
    ring
  rw [value]
  exact shows_natCast _

/-- What is left of a division tells how the quotient is to be rounded. -/
theorem shows_fraction (q : Nat) (less : r < n) :
    Shows (.ofMantissaAndAccuracy q (accuracyOfFraction r n)) (q + r / n) := by
  have pos : (0 : Rat) < n := by exact_mod_cast Nat.zero_lt_of_lt less
  have nonneg : (0 : Rat) ≤ r / n := div_nonneg (Nat.cast_nonneg r) pos.le
  have whole : (r : Rat) / n < 1 := by
    rw [div_lt_one pos]
    exact_mod_cast less
  have half : 1 / 2 ≤ (r : Rat) / n ↔ n ≤ 2 * r := by
    rw [div_le_div_iff₀ two_pos pos, one_mul, mul_comm]
    exact_mod_cast Iff.rfl
  have middle : (r : Rat) / n = 1 / 2 ↔ 2 * r = n := by
    rw [div_eq_div_iff pos.ne' two_ne_zero, one_mul, mul_comm]
    exact_mod_cast Iff.rfl
  have none : (r : Rat) / n = 0 ↔ r = 0 := by
    rw [div_eq_zero_iff, or_iff_left pos.ne', Nat.cast_eq_zero]
  have rest : (q : Rat) + r / n - q = r / n := add_sub_cancel_left _ _
  have bits : (ExtendedMantissa.ofMantissaAndAccuracy q (accuracyOfFraction r n)) =
      ⟨q, decide (n ≤ 2 * r), decide (r ≠ 0 ∧ 2 * r ≠ n)⟩ := by
    unfold accuracyOfFraction
    split
    · rename_i zero
      have above : ¬n ≤ 2 * r := by omega
      simp [ExtendedMantissa.ofMantissaAndAccuracy, zero, Nat.pos_iff_ne_zero.mp (Nat.zero_lt_of_lt less)]
    · rename_i some
      rcases lt_trichotomy (2 * r) n with below | same | above
      · rw [compare_lt_iff_lt.mpr below]
        simp [ExtendedMantissa.ofMantissaAndAccuracy, some, below, below.ne]
      · rw [compare_eq_iff_eq.mpr same]
        simp [ExtendedMantissa.ofMantissaAndAccuracy, same]
      · rw [compare_gt_iff_gt.mpr above]
        simp [ExtendedMantissa.ofMantissaAndAccuracy, some, above.le, above.ne']
  rw [bits]
  constructor
  · exact le_add_of_nonneg_right nonneg
  · exact add_lt_add_right whole _
  · rw [rest, half, decide_eq_true_iff]
  · rw [rest, decide_eq_true_iff, ne_eq, ne_eq, ne_eq, ne_eq, none, middle]

theorem div_eq_rounded {pos : 0 < m} {pos' : 0 < m'} :
    UnpackedFloat.div .binary64 (.finite s m e pos) (.finite s' m' e' pos') =
      rounded (s / s') (m * 2 ^ e / (m' * 2 ^ e')) := by
  have positive : (0 : Rat) < m * 2 ^ e / (m' * 2 ^ e') :=
    div_pos (mul_zpow_pos pos e) (mul_zpow_pos pos' e')
  have size : (m.log2 : Int) - m'.log2 - 1 + e - e' ≤ Int.log 2 ((m : Rat) * 2 ^ e / (m' * 2 ^ e')) := by
    refine (Int.zpow_le_iff_le_log Nat.one_lt_two positive).mp ?_
    rw [Nat.cast_ofNat, le_div_iff₀ (mul_zpow_pos pos' e')]
    have low : (2 : Rat) ^ (m.log2 : Int) ≤ m := by
      rw [zpow_natCast]
      exact_mod_cast Nat.log2_self_le pos.ne'
    have high : (m' : Rat) ≤ 2 ^ (m'.log2 + 1 : Int) := by
      rw [← Nat.cast_succ, zpow_natCast]
      exact_mod_cast (Nat.lt_log2_self (n := m')).le
    calc (2 : Rat) ^ ((m.log2 : Int) - m'.log2 - 1 + e - e') * (m' * 2 ^ e')
        ≤ 2 ^ ((m.log2 : Int) - m'.log2 - 1 + e - e') * (2 ^ (m'.log2 + 1 : Int) * 2 ^ e') :=
          mul_le_mul_of_nonneg_left (mul_le_mul_of_nonneg_right high (two_zpow_pos e').le)
            (two_zpow_pos _).le
      _ = 2 ^ (m.log2 : Int) * 2 ^ e := by
          rw [← two_zpow_add, ← two_zpow_add, ← two_zpow_add]
          congr 1
          omega
      _ ≤ m * 2 ^ e := mul_le_mul_of_nonneg_right low (two_zpow_pos e).le
  unfold UnpackedFloat.div divCore
  simp only [Format.targetExponent, totalExponent, Format.mantissaBits, Format.minExponent]
  generalize exponent : min (e - e') (max ((m.log2 : Int) + 1 + e - (m'.log2 + 1 + e') -
    ((1 + 52 : Nat) : Int)) (3 - 2 ^ (11 - 1) - ((1 + 52 : Nat) : Int))) = t
  obtain ⟨k, shift⟩ := Int.eq_ofNat_of_zero_le (show 0 ≤ e - e' - t by omega)
  rw [shift, Int.toNat_natCast]
  refine roundWithAccuracy_of_shows _ ?_ positive (by unfold place; omega)
  have value : (m : Rat) * 2 ^ e / (m' * 2 ^ e') / 2 ^ t =
      (m <<< k / m' : Nat) + (m <<< k % m' : Nat) / m' := by
    have split : ((m <<< k : Nat) : Rat) = m' * (m <<< k / m' : Nat) + (m <<< k % m' : Nat) := by
      exact_mod_cast (Nat.div_add_mod _ _).symm
    have whole : (m' : Rat) ≠ 0 := by exact_mod_cast pos'.ne'
    rw [div_div, div_eq_iff (mul_pos (mul_zpow_pos pos' e') (two_zpow_pos t)).ne', add_mul]
    have cancelled : ((m <<< k % m' : Nat) : Rat) / m' * (m' * 2 ^ e' * 2 ^ t) =
        (m <<< k % m' : Nat) * (2 ^ e' * 2 ^ t) := by
      field_simp
    have exponent : e = k + e' + t := by omega
    rw [cancelled, exponent, two_zpow_add, two_zpow_add, zpow_natCast]
    rw [Nat.shiftLeft_eq] at split ⊢
    push_cast at split
    linear_combination split * (2 ^ e' * 2 ^ t)
  rw [value]
  exact shows_fraction _ (Nat.mod_lt _ pos')

end Cassowary.Rounding
