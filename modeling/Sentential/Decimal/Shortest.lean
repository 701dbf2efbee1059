import Sentential.Decimal.Binary

/-! The shortest decimals from which floating point numbers are read back. Among the decimals in the
interval of a number that have the fewest digits, the one closest to the number is taken. -/

namespace Sentential.Decimal

/-- The decimal `0.d₁d₂d₃… * 10^(exponent + 1)`, where `digits` are the digits from the first one
that is not zero. -/
structure Digits where
  digits : List Char
  exponent : Int
deriving DecidableEq, Repr, Inhabited

/-- The digits of `count * 10^exponent` without zeros at the end. -/
def Digits.ofCount (count : Nat) (exponent : Int) : Digits :=
  let digits := Nat.toDigits 10 count
  ⟨(digits.reverse.dropWhile (· == '0')).reverse, exponent + digits.length - 1⟩

/-- The neighbour of the interval's value among the multiples of `10^exponent` that lies in the
interval, the closer one if both do. -/
def Interval.neighbour? (i : Interval) (exponent : Int) : Option Nat :=
  let below := i.countBelow exponent
  let above := below + 1
  match i.contains below exponent, i.contains above exponent with
  | true, true =>
    -- The value is less than half of the way up, or just there with an even neighbour below.
    match compareDecimal (below + above) exponent (2 * i.value) i.scale with
    | .gt => some below
    | .eq => some (if below % 2 = 0 then below else above)
    | .lt => some above
  | true, false => some below
  | false, true => some above
  | false, false => none

/-- The digits of the first grid, from `count` digits on, that has a point in the interval. Of
`fuel` grids none may have one, and then the value is cut. -/
def Interval.shortestFrom (i : Interval) (count : Nat) : (fuel : Nat) → Digits
  | 0 =>
    let exponent := i.leading - count + 1
    .ofCount (i.countBelow exponent) exponent
  | fuel + 1 =>
    let exponent := i.leading - count + 1
    match i.neighbour? exponent with
    | some found => .ofCount found exponent
    | none => i.shortestFrom (count + 1) fuel

/-- The shortest digits of a positive finite number. Seventeen digits tell any two apart. -/
def shortest (x : Float) : Digits := (Interval.ofFloat x).shortestFrom 1 17

end Sentential.Decimal
