/-!
The arithmetic the solver computes with. A `Scalar` type has the four operations, comparisons and a
tolerance, and is promised no law at all, so that one program runs on doubles and is reasoned about
over the rationals. Every test for zero, negative and positive goes through the tolerance, which keeps
pruning, feasibility and satisfaction in agreement with each other.
-/

namespace Cassowary

/-- Numbers with a tolerance. No algebraic law is assumed: doubles satisfy few of them. -/
class Scalar (α : Type) extends
    Zero α, One α, NatCast α, Add α, Sub α, Mul α, Div α, Neg α, BEq α, LT α, LE α where
  [decidableLT : DecidableLT α]
  [decidableLE : DecidableLE α]
  /-- Values closer to zero than this count as zero. -/
  tolerance : α

attribute [reducible, instance] Scalar.decidableLT Scalar.decidableLE

namespace Scalar

variable {α : Type} [Scalar α]

/-- A value counts as zero when it is zero or lies strictly within the tolerance. The first test only
matters for a tolerance of zero, which reads every comparison exactly. -/
def nearZero (x : α) : Bool := x == 0 || (decide (-tolerance < x) && decide (x < tolerance))

/-- Negative beyond the tolerance. -/
def isNegative (x : α) : Bool := decide (x < -tolerance)

/-- Positive beyond the tolerance. -/
def isPositive (x : α) : Bool := decide (tolerance < x)

/-- Two values agree when their difference counts as zero. -/
def approxEq (x y : α) : Bool := nearZero (x - y)

/-- Limits a value to a range. A value that compares with neither end, such as a NaN, is kept. -/
def clamp (x low high : α) : α := if x < low then low else if high < x then high else x

/-- Doubles compare with a tolerance of 1e-8. -/
instance : Scalar Float where
  zero := 0.0
  one := 1.0
  natCast := Float.ofNat
  tolerance := 1e-8

/-- Exact rational arithmetic, read with the given tolerance. -/
@[reducible]
def rational (ε : Rat) : Scalar Rat where
  zero := 0
  one := 1
  tolerance := ε

end Scalar

end Cassowary
