import FrameLang.Text.Decimal

/-!
# Numbers in JSON texts

A `Numeral` is a number as it is written: `1`, `1.0` and `1e0` are three of them.  The
integers are those that have neither a point nor an exponent.

Every other numeral, and every integer too large for a word, is read as a floating-point
number of 64 bits, and some of them are too large for that.  `Numeral.finite` says which
are not.  It follows the way in which such a number is read:

1. the digits are cut off where they no longer fit in a word of 64 bits;
2. the number that is left, and the power of ten that it is to be multiplied by, are each
   rounded to the nearest floating-point number;
3. their product is rounded once more.

At the very edge of the range this is not the same as rounding the number once:
`1.7976931348623158e308` rounds to the largest floating-point number, but the product of
`17976931348623158` and the floating-point number nearest to `10 ^ 292` is out of range.
-/

namespace FrameLang

/-- A number as it is written: sign, digits before the point, digits after it, and
exponent. -/
structure Numeral where
  negative : Bool
  whole : Nat
  /-- The digits after the point; empty when there is no point. -/
  fraction : List Nat
  exponent : Option Int
  deriving DecidableEq, Repr

namespace Numeral

/-! ## Integers -/

/-- A natural number, written plainly. -/
def ofNat (value : Nat) : Numeral := ⟨false, value, [], none⟩

/-- An integer, written plainly. -/
def ofInt (value : Int) : Numeral := ⟨value < 0, value.natAbs, [], none⟩

/-- The natural number that a numeral plainly writes: no sign, point or exponent. -/
def toNat? (numeral : Numeral) : Option Nat :=
  if !numeral.negative && numeral.fraction.isEmpty && numeral.exponent.isNone then
    some numeral.whole
  else none

/-- The integer that a numeral plainly writes: no point or exponent. -/
def toInt? (numeral : Numeral) : Option Int :=
  if numeral.fraction.isEmpty && numeral.exponent.isNone then
    some (if numeral.negative then -numeral.whole else numeral.whole)
  else none

/-! ## Digits that are kept -/

/-- The first digits of a natural number, as many as fit in a word.  The power of ten is
the number of digits left out. -/
def leading (value : Nat) : Text.Decimal :=
  if value < UInt64.size then ⟨value, 0⟩
  else
    let shorter := leading (value / 10)
    ⟨shorter.coefficient, shorter.exponent + 1⟩
termination_by value
decreasing_by
  rename_i large
  exact Nat.div_lt_self (Nat.lt_of_lt_of_le (by decide) (Nat.le_of_not_lt large)) (by decide)

/-- A decimal with more digits, up to the first with which it no longer fits in a word. -/
def extend (decimal : Text.Decimal) : List Nat → Text.Decimal
  | [] => decimal
  | digit :: rest =>
      let longer := 10 * decimal.coefficient + digit
      if longer < UInt64.size then extend ⟨longer, decimal.exponent - 1⟩ rest else decimal

/-- The magnitude of a numeral, with the digits that are kept.  A digit before the point
that is left out still counts for the power of ten; one after the point is lost. -/
def kept (numeral : Numeral) : Text.Decimal :=
  let decimal := extend (leading numeral.whole) numeral.fraction
  ⟨decimal.coefficient, decimal.exponent + numeral.exponent.getD 0⟩

/-! ## Range -/

/-- The nearest multiple of a unit; of two that are equally near, the even one. -/
def roundTo (unit value : Nat) : Nat :=
  let below := value / unit
  let rest := 2 * (value % unit)
  if unit < rest || (rest = unit && below % 2 = 1) then (below + 1) * unit
  else below * unit

/-- A natural number rounded to a significand of 53 bits. -/
def rounded (value : Nat) : Nat := roundTo (Nat.pow 2 (value.log2 - 52)) value

/-- Half-way between the largest binary floating-point number of 64 bits and the next
power of two: from here on, rounding to the nearest such number gives infinity. -/
def overflow : Nat := Nat.pow 2 1024 - Nat.pow 2 970

/-- True of the numerals that can be read as a floating-point number.

What is kept fits in a word, so only a positive power of ten can lead out of the range.
A power above 308 does so whatever it multiplies, zero apart; it is told by its exponent,
so that no number of absurd size is ever computed. -/
def finite (numeral : Numeral) : Bool :=
  let ⟨coefficient, exponent⟩ := numeral.kept
  if coefficient = 0 || exponent ≤ 0 then true
  else if 308 < exponent then false
  else rounded coefficient * rounded (Nat.pow 10 exponent.toNat) < overflow

end Numeral

end FrameLang
