import Cassowary.Decimal.Shortest

/-!
How numbers are written. Both styles write the shortest digits that read back. Plain style never uses an
exponent and gives whole numbers no fraction; literal style marks every number as fractional and writes
very large and very small ones with an exponent.
-/

namespace Cassowary

/-- The decisions in which the ways of writing numbers differ. -/
structure NumberStyle where
  /-- Whole numbers are written with a fraction of zero. -/
  pointZero : Bool
  /-- Whether a number is written without an exponent, by the power of ten of its leading digit. -/
  positional : Int → Bool

namespace NumberStyle

def plain : NumberStyle := { pointZero := false, positional := fun _ => true }

/-- From 1e-4 up to 1e16 numbers are written without an exponent. -/
def literal : NumberStyle :=
  { pointZero := true, positional := fun power => decide (-4 ≤ power) && decide (power < 16) }

end NumberStyle

namespace Decimal

private def zeros (n : Nat) : String := String.ofList (List.replicate n '0')

/-- The digits of a decimal with the point in its place. -/
def positional (d : Decimal) (pointZero : Bool) : String :=
  let digits := Nat.repr d.digits
  let point := (digits.length : Int) + d.exponent
  if 0 ≤ d.exponent then digits ++ zeros d.exponent.toNat ++ (if pointZero then ".0" else "")
  else if point ≤ 0 then "0." ++ zeros (-point).toNat ++ digits
  else
    let (whole, fraction) := digits.toList.splitAt point.toNat
    String.ofList whole ++ "." ++ String.ofList fraction

/-- One digit before the point, the others after it, and an exponent. -/
def scientific (d : Decimal) : String :=
  let digits := (Nat.repr d.digits).toList
  let power := (digits.length : Int) + d.exponent - 1
  let fraction := digits.drop 1
  String.ofList (digits.take 1) ++
    (if fraction.isEmpty then "" else "." ++ String.ofList fraction) ++ "e" ++ power.repr

end Decimal

/-- The text of a double in a style. -/
def NumberStyle.render (style : NumberStyle) (x : Float) : String :=
  if x.isNaN then "NaN"
  else
    let sign := if x.toBits.toNat < 1 <<< 63 then "" else "-"
    if x.isInf then sign ++ "inf"
    else if x == 0.0 then sign ++ (if style.pointZero then "0.0" else "0")
    else
      let d := Decimal.shortest x
      let power := (Decimal.width d.digits : Int) + d.exponent - 1
      sign ++ (if style.positional power then d.positional style.pointZero else d.scientific)

end Cassowary
