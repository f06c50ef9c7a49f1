import HclEditor.Number.Decimal

/-!
# Binary floating point

The positive finite numbers of the 64-bit binary format are a significand below `2 ^ 53`
times a power of two that is at least `2 ^ -1074`. The module rounds decimals to them,
and finds the shortest decimal that is rounded to a given one. All arithmetic is on
natural numbers.
-/

namespace HclEditor.Number

/-- The number `significand * 2 ^ exponent`. -/
structure Binary64 where
  significand : Nat
  exponent : Int
deriving DecidableEq, Repr

namespace Binary64

/-- Significands are below this power of two, and as large as possible. -/
def precision : Nat := 53

/-- The least exponent. -/
def leastExponent : Int := -1074

/-- The greatest exponent. -/
def greatestExponent : Int := 971

/-- The power of a base, or one if the exponent is negative. -/
def powPos (base : Nat) (exponent : Int) : Nat :=
  Nat.pow base exponent.toNat

/-- The quotient, rounded to the nearest natural number, a half to the even one. -/
def roundQuotient (numerator denominator : Nat) : Nat :=
  let quotient := numerator / denominator
  let rest := numerator % denominator
  if 2 * rest < denominator then quotient
  else if denominator < 2 * rest then quotient + 1
  else quotient + quotient % 2

/-- The exponent with which the quotient of two positive numbers has a significand of
full precision, or the least exponent if that is greater. -/
def exponentOf (numerator denominator : Nat) : Int :=
  let estimate : Int := (Nat.log2 numerator : Int) - Nat.log2 denominator - precision
  let significand :=
    numerator * powPos 2 (-estimate) / (denominator * powPos 2 estimate)
  max leastExponent (if Nat.pow 2 precision ≤ significand then estimate + 1 else estimate)

/-- The number nearest to a quotient of positive numbers, if the format reaches that
far. -/
def ofQuotient (numerator denominator : Nat) : Magnitude Binary64 :=
  let exponent := exponentOf numerator denominator
  let significand :=
    roundQuotient (numerator * powPos 2 (-exponent)) (denominator * powPos 2 exponent)
  let rounded : Binary64 :=
    if significand = Nat.pow 2 precision then ⟨Nat.pow 2 (precision - 1), exponent + 1⟩
    else ⟨significand, exponent⟩
  if greatestExponent < rounded.exponent then .infinite else .finite rounded

/-- The number nearest to a decimal. Decimals beyond the format's range on either side
are recognised by their number of digits. -/
def ofDecimal (decimal : Decimal) : Magnitude Binary64 :=
  let digits : Int := (Nat.toDigits 10 decimal.coefficient).length
  if decimal.coefficient = 0 ∨ digits + decimal.exponent < -324 then .finite ⟨0, leastExponent⟩
  else if 310 < digits + decimal.exponent then .infinite
  else
    ofQuotient (decimal.coefficient * powPos 10 decimal.exponent)
      (powPos 10 (-decimal.exponent))

/-- The decimals that are rounded to a number lie around it. The ends of the interval are
counted in quarters of the number's last place; they belong to the interval if the
significand is even. -/
structure Rounding where
  low : Nat
  value : Nat
  high : Nat
  closed : Bool
  exponent : Int

/-- The interval of a positive number. Below a power of two the numbers lie closer. -/
def rounding (number : Binary64) : Rounding where
  low := 4 * number.significand -
    (if number.significand = Nat.pow 2 (precision - 1) ∧ leastExponent < number.exponent
      then 1 else 2)
  value := 4 * number.significand
  high := 4 * number.significand + 2
  closed := number.significand % 2 = 0
  exponent := number.exponent - 2

/-- The multiple of a power of ten that lies in the interval and nearest to its number,
the greater one if two are equally near. -/
def Rounding.multiple? (interval : Rounding) (power : Int) : Option Decimal :=
  let left := powPos 2 interval.exponent * powPos 10 (-power)
  let right := powPos 10 power * powPos 2 (-interval.exponent)
  let below := interval.value * left / right
  let contains (multiple : Nat) : Bool :=
    if interval.closed then
      interval.low * left ≤ multiple * right && multiple * right ≤ interval.high * left
    else interval.low * left < multiple * right && multiple * right < interval.high * left
  let nearerBelow := 2 * interval.value * left < (2 * below + 1) * right
  if contains below && (nearerBelow || !contains (below + 1)) then some ⟨below, power⟩
  else if contains (below + 1) then some ⟨below + 1, power⟩
  else none

/-- The powers of ten that can be the last place of a shortest decimal, greatest first. -/
def lastPlaces : List Int :=
  (List.range 640).map fun (index : Nat) => (310 : Int) - index

/-- The decimal with the fewest digits that is rounded to the number, and nearest to it
among those. -/
def shortest (number : Binary64) : Decimal :=
  if number.significand = 0 then ⟨0, 0⟩
  else (lastPlaces.findSome? number.rounding.multiple?).getD ⟨0, 0⟩

end Binary64

end HclEditor.Number
