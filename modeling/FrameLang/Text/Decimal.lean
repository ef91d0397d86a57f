/-!
# Floating-point numbers as decimal text

A floating-point number of 64 bits stands for all the reals that are rounded to it.  They
form an interval around its value, which has its ends when the significand is even.  The
number is written as a multiple of the largest power of ten that has a multiple in the
interval, so with as few digits as tell it apart from all others.  If two multiples are in
the interval the nearer is taken, and the upper one if they are equally near.

The text has no exponent, and no point if the number is an integer.
-/

namespace FrameLang.Text

/-! ## Decimals -/

/-- The number `coefficient * 10 ^ exponent`. -/
structure Decimal where
  coefficient : Nat
  exponent : Int
  deriving DecidableEq, Repr, Inhabited

/-- The digits of a decimal without an exponent: with zeros after an integer, and with at
least one digit before the point otherwise. -/
def Decimal.positional (decimal : Decimal) : List Char :=
  let digits := Nat.toDigits 10 decimal.coefficient
  match decimal.exponent with
  | .ofNat zeros => digits ++ List.replicate zeros '0'
  | .negSucc n =>
      let padded := List.replicate (n + 2 - digits.length) '0' ++ digits
      padded.take (padded.length - (n + 1)) ++
        '.' :: padded.drop (padded.length - (n + 1))

/-! ## Intervals -/

/-- An interval around a value, over a common denominator. -/
structure RoundingInterval where
  low : Nat
  value : Nat
  high : Nat
  denominator : Nat
  /-- True when the ends belong to the interval. -/
  closed : Bool
  deriving DecidableEq, Repr

namespace RoundingInterval

/-- The reals that are rounded to the number with the given fraction and exponent fields.
The neighbour below a power of two is only half as far away as the one above. -/
def ofFields (fraction exponent : Nat) : RoundingInterval :=
  let significand := if exponent = 0 then fraction else Nat.pow 2 52 + fraction
  let below := if fraction = 0 && 1 < exponent then 1 else 2
  let scale := Nat.pow 2 (max exponent 1)
  { low := (4 * significand - below) * scale
    value := 4 * significand * scale
    high := (4 * significand + 2) * scale
    denominator := Nat.pow 2 1077
    closed := significand % 2 = 0 }

/-- Whether the quotient of a numerator by `denominator * scale` is in the interval. -/
def holds (interval : RoundingInterval) (scale numerator : Nat) : Bool :=
  if interval.closed then
    interval.low * scale ≤ numerator && numerator ≤ interval.high * scale
  else interval.low * scale < numerator && numerator < interval.high * scale

/-- The multiple of a power of ten in the interval, if there is one: the nearer of the two
around the value, and the upper one if they are equally near. -/
def multiple? (interval : RoundingInterval) (exponent : Int) : Option Decimal :=
  let scale := Nat.pow 10 (-exponent).toNat
  let unit := interval.denominator * Nat.pow 10 exponent.toNat
  let below := interval.value * scale / unit
  let rest := interval.value * scale % unit
  let lower := interval.holds scale (below * unit)
  let upper := interval.holds scale ((below + 1) * unit)
  if upper && (!lower || unit ≤ 2 * rest) then some ⟨below + 1, exponent⟩
  else if lower then some ⟨below, exponent⟩
  else none

/-- The powers of ten that are tried, largest first.  Every interval of a number of 64 bits
has a multiple of the last one, since the numbers are multiples of `2 ^ (-1074)`. -/
def exponents : List Int := (List.range 634).map fun (n : Nat) => 309 - (n : Int)

/-- The multiple of the largest power of ten in the interval. -/
def coarsest (interval : RoundingInterval) : Decimal :=
  (exponents.findSome? interval.multiple?).getD ⟨0, 0⟩

end RoundingInterval

/-! ## Numbers -/

/-- The decimal text of a floating-point number that is given by its bits. -/
def decimalText (bits : UInt64) : String :=
  let fraction := (bits &&& 0xFFFFFFFFFFFFF).toNat
  let exponent := ((bits >>> 52) &&& 0x7FF).toNat
  let sign := if 0x8000000000000000 ≤ bits then "-" else ""
  if exponent = 2047 then
    if fraction = 0 then sign ++ "inf" else "NaN"
  else if exponent = 0 && fraction = 0 then sign ++ "0"
  else
    sign ++ String.ofList (RoundingInterval.ofFields fraction exponent).coarsest.positional

end FrameLang.Text
