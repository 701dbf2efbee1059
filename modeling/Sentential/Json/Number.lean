import Sentential.Decimal.Layout

/-! The numbers of JSON texts. A number without fraction and exponent is an integer if 64 bits hold
it, and every other number is a floating point number. -/

namespace Sentential.Json

/-- A number as it is written: its sign, the digits before and after the point, and the exponent
with its sign. -/
structure Literal where
  negative : Bool
  whole : List Char
  fraction : Option (List Char)
  exponent : Option (Bool × List Char)
deriving DecidableEq, Repr, Inhabited

inductive Number where
  | integer (value : Int)
  | real (value : Float)
deriving Repr, Inhabited

def isDigit (c : Char) : Bool := '0' ≤ c && c ≤ '9'

/-- The number that digits write after those of `value`. -/
def ofDigits (value : Nat) (digits : List Char) : Nat :=
  digits.foldl (fun value digit => value * 10 + (digit.toNat - '0'.toNat)) value

/-- The number that digits write after those of `value`, as long as it has 64 bits, and the digits
that follow. -/
def takeDigits (value : Nat) : List Char → Nat × List Char
  | [] => (value, [])
  | digit :: rest =>
    let next := value * 10 + (digit.toNat - '0'.toNat)
    if next < UInt64.size then takeDigits next rest else (value, digit :: rest)

def powerOfTen (exponent : Nat) : Float := Float.ofScientific 1 false exponent

/-- `x * 10^exponent` with one rounded multiplication or division, and one division more for each
308 by which the exponent is below -308. There is no result beyond the greatest number. -/
def scale (x : Float) (exponent : Int) : Option Float :=
  if exponent.natAbs ≤ 308 then
    if 0 ≤ exponent then
      let result := x * powerOfTen exponent.natAbs
      if result.isInf then none else some result
    else some (x / powerOfTen exponent.natAbs)
  else if x == 0 then some x
  else if 0 ≤ exponent then none
  else scale (x / powerOfTen 308) (exponent + 308)
termination_by exponent.natAbs

namespace Literal

/-- The number for a literal with a fraction or an exponent, or of more than 64 bits. Digits beyond
the 64 bits of the significand are dropped, and count only as powers of ten. -/
def real? (literal : Literal) : Option Float :=
  let fraction := literal.fraction.getD []
  let (whole, dropped) := takeDigits 0 literal.whole
  let (significand, ignored) := takeDigits whole fraction
  let written : Int := match literal.exponent with
    | none => 0
    | some (true, digits) => - (ofDigits 0 digits : Int)
    | some (false, digits) => ofDigits 0 digits
  let shift : Int := dropped.length - (fraction.length - ignored.length : Nat)
  (scale (Float.ofNat significand) (written + shift)).map fun x =>
    if literal.negative then -x else x

/-- The number that a literal writes, unless it is too great. Negative zero is not an integer. -/
def number? (literal : Literal) : Option Number :=
  let whole := ofDigits 0 literal.whole
  if literal.fraction.isNone && literal.exponent.isNone && !literal.negative && whole < UInt64.size then
    some (.integer whole)
  else if literal.fraction.isNone && literal.exponent.isNone && literal.negative && 0 < whole &&
      whole ≤ UInt64.size / 2 then
    some (.integer (-whole))
  else literal.real?.map .real

end Literal

namespace Number

/-- Numbers from `0.00001` to below `10^16` are written in positional form. -/
def layout : Decimal.Layout := ⟨-5, 15⟩

def isZero : Number → Bool
  | integer value => value == 0
  | real value => value == 0

def text : Number → List Char
  | integer value =>
    (if value < 0 then ['-'] else []) ++ Nat.toDigits 10 value.natAbs
  | real value => layout.text value

end Number

end Sentential.Json
