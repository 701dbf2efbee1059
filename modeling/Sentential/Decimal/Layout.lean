import Sentential.Decimal.Shortest

/-! The text of decimals. A decimal is written in positional form if its exponent is in a certain
range, and in scientific form otherwise. -/

namespace Sentential.Decimal

/-- The exponents, of the first digit, for which decimals are written in positional form. -/
structure Layout where
  leastPositional : Int
  greatestPositional : Int
deriving DecidableEq, Repr

/-- All digits, with a point after the one of exponent zero and at least one digit on either side of
the point. -/
def Digits.positional (d : Digits) : List Char :=
  if d.exponent < 0 then
    "0.".toList ++ List.replicate (-d.exponent - 1).toNat '0' ++ d.digits
  else
    let whole := d.exponent.toNat + 1
    let fraction := d.digits.drop whole
    d.digits.take whole ++ List.replicate (whole - d.digits.length) '0' ++ '.' ::
      (if fraction.isEmpty then ['0'] else fraction)

/-- The first digit, a point and the other digits if there are any, and the exponent with its
sign. -/
def Digits.scientific (d : Digits) : List Char :=
  let sign := if d.exponent < 0 then '-' else '+'
  let fraction := d.digits.drop 1
  d.digits.take 1 ++ (if fraction.isEmpty then [] else '.' :: fraction) ++
    'e' :: sign :: Nat.toDigits 10 d.exponent.natAbs

/-- The text of a finite number, with a minus sign also for negative zero. -/
def Layout.text (layout : Layout) (x : Float) : List Char :=
  let sign := if power 2 63 ≤ x.toBits.toNat then ['-'] else []
  if x == 0 then sign ++ "0.0".toList
  else
    let d := shortest x.abs
    sign ++ (if layout.leastPositional ≤ d.exponent ∧ d.exponent ≤ layout.greatestPositional then
      d.positional else d.scientific)

end Sentential.Decimal
