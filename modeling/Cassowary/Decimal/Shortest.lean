/-!
The shortest decimal that reads back to a given double. The decimals that read back are those in the
interval of reals that round to the double. Grids of powers of ten are tried from the coarsest on; the
first that has a point in the interval decides the number of digits, and of two such points the one
nearer to the double is taken, the upper one on a tie. All of it is exact rational arithmetic.
-/

namespace Cassowary

/-- The number `digits * 10 ^ exponent`. -/
structure Decimal where
  digits : Nat
  exponent : Int
  deriving DecidableEq, Repr

/-- A positive double with the interval of reals that round to it. The ends belong to it when the
significand is even. -/
structure RoundingInterval where
  value : Rat
  low : Rat
  high : Rat
  closed : Bool

namespace RoundingInterval

/-- The interval of a double `significand * 2 ^ exponent`. Below a power of two the doubles lie half as
far apart, so there the lower end is nearer. -/
def ofScaled (significand : Nat) (exponent : Int) (narrow : Bool) : RoundingInterval :=
  let unit : Rat := 2 ^ (exponent - 2)
  { value := (4 * significand : Nat) * unit
    low := (4 * significand - (if narrow then 1 else 2) : Nat) * unit
    high := (4 * significand + 2 : Nat) * unit
    closed := significand % 2 == 0 }

/-- The interval of the magnitude of a finite double that is not zero. -/
def ofFloat (x : Float) : RoundingInterval :=
  let bits := x.toBits.toNat
  let fraction : Nat := bits % (1 <<< 52)
  let biased : Nat := bits / (1 <<< 52) % (1 <<< 11)
  if biased = 0 then ofScaled fraction (-1074) false
  else ofScaled ((1 <<< 52) + fraction) ((biased : Int) - 1075) (fraction == 0 && 1 < biased)

def contains (i : RoundingInterval) (y : Rat) : Bool :=
  if i.closed then decide (i.low ≤ y) && decide (y ≤ i.high)
  else decide (i.low < y) && decide (y < i.high)

/-- The point of the grid of a power of ten that reads back and lies nearest to the double. Only the
two neighbours of the double on the grid come into question. -/
def nearest? (i : RoundingInterval) (power : Int) : Option Nat :=
  let grid : Rat := 10 ^ power
  let below := (i.value / grid).floor.toNat
  let lower : Rat := below * grid
  let upper : Rat := (below + 1 : Nat) * grid
  match i.contains lower, i.contains upper with
  | true, true => some (if i.value - lower < upper - i.value then below else below + 1)
  | true, false => some below
  | false, true => some (below + 1)
  | false, false => none

end RoundingInterval

namespace Decimal

/-- The number of digits of a number. -/
def width (n : Nat) : Nat := (Nat.toDigits 10 n).length

/-- The power of ten of the leading digit of a positive rational. -/
def leadingPower (x : Rat) : Int :=
  if 1 ≤ x then (width x.floor.toNat : Int) - 1
  else -(width ((x.den + x.num.toNat - 1) / x.num.toNat - 1) : Int)

/-- Leaves out trailing zeros, at most as many as the first argument says. -/
def trim : Nat → Decimal → Decimal
  | 0, d => d
  | n + 1, d => if d.digits % 10 = 0 then trim n ⟨d.digits / 10, d.exponent + 1⟩ else d

/-- The shortest decimal in an interval. Seventeen digits suffice for every double. -/
def shortestIn (i : RoundingInterval) : Decimal :=
  let lead := leadingPower i.value
  let found := (List.range 17).findSome? fun (n : Nat) =>
    (i.nearest? (lead - n)).map (⟨·, lead - n⟩)
  let chosen := found.getD ⟨(i.value / 10 ^ (lead - 16)).floor.toNat, lead - 16⟩
  trim (width chosen.digits) chosen

/-- The shortest decimal that reads back to the magnitude of a finite double that is not zero. -/
def shortest (x : Float) : Decimal := shortestIn (.ofFloat x)

end Decimal

end Cassowary
