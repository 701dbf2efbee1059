/-! The exact values of floating point numbers, as fractions, with the interval of values that round
to each number. -/

namespace Sentential.Decimal

/-- The power of a base. A negative exponent counts as zero. -/
def power (base : Nat) (exponent : Int) : Nat := Nat.pow base exponent.toNat

/-- A positive fraction `value / scale` between two others, `low / scale` and `high / scale`. The
ends belong to the interval if it is closed. -/
structure Interval where
  low : Nat
  value : Nat
  high : Nat
  scale : Nat
  closed : Bool
deriving DecidableEq, Repr, Inhabited

/-- The interval around `significand * 2^exponent` that reaches half of the way to its neighbours.
The neighbour below is at half the usual distance if `narrow`. Ties round to an even significand, so
the ends belong to the interval of an even one. -/
def Interval.around (significand : Nat) (exponent : Int) (narrow : Bool) : Interval :=
  let unit := power 2 (exponent - 2)
  { low := (4 * significand - if narrow then 1 else 2) * unit
    value := 4 * significand * unit
    high := (4 * significand + 2) * unit
    scale := power 2 (2 - exponent)
    closed := significand % 2 == 0 }

/-- The interval of the values that round to a positive finite number. The 52 low bits are the
fraction of the significand, which has one bit more unless the eleven bits above them are zero. -/
def Interval.ofFloat (x : Float) : Interval :=
  let bits := x.toBits.toNat
  let fraction : Nat := bits % power 2 52
  let exponent : Nat := bits / power 2 52 % power 2 11
  if exponent = 0 then around fraction (-1074) false
  else around (power 2 52 + fraction) (exponent - 1075) (fraction == 0 && exponent != 1)

/-- The decimal `count * 10^exponent` compared with the fraction `part / scale`. -/
def compareDecimal (count : Nat) (exponent : Int) (part scale : Nat) : Ordering :=
  compare (count * power 10 exponent * scale) (part * power 10 (-exponent))

/-- The decimal `count * 10^exponent` lies in the interval. -/
def Interval.contains (i : Interval) (count : Nat) (exponent : Int) : Bool :=
  let below := compareDecimal count exponent i.low i.scale
  let above := compareDecimal count exponent i.high i.scale
  if i.closed then below != .lt && above != .gt else below == .gt && above == .lt

/-- The number of digits of a number; none for zero. -/
def digitCount (n : Nat) : Nat := if n = 0 then 0 else (Nat.toDigits 10 n).length

/-- The exponent of the greatest power of ten that is at most `i.value / i.scale`. -/
def Interval.leading (i : Interval) : Int :=
  if i.scale ≤ i.value then digitCount (i.value / i.scale) - 1
  else - digitCount ((i.scale - 1) / i.value)

/-- The greatest count of `10^exponent` that is at most `i.value / i.scale`. -/
def Interval.countBelow (i : Interval) (exponent : Int) : Nat :=
  i.value * power 10 (-exponent) / (i.scale * power 10 exponent)

end Sentential.Decimal
