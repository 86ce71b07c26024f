/-!
# Doubles

A finite binary64 value is a sign, a significand and an exponent, and stands for
`± significand * 2 ^ exponent`. Rounding a decimal to the nearest such value is
done in exact integer arithmetic, so it never loses a bit to an intermediate
result. A value above every finite double is refused instead of becoming
infinite.

Two zeros exist and differ in their sign alone; `same` identifies them, because
they are the same number.
-/

namespace Workflow

/-- A finite double. The rounding function keeps the significand below `2 ^ 53`
and the exponent between `-1074` and `971`. -/
structure Double where
  negative : Bool
  significand : Nat
  exponent : Int
deriving DecidableEq, Repr

namespace Double

/-- Two to a power. -/
def twoTo (power : Nat) : Nat := Nat.pow 2 power

/-- Ten to a power. -/
def tenTo (power : Nat) : Nat := Nat.pow 10 power

/-- Zero with a sign. -/
def zero (negative : Bool) : Double := ⟨negative, 0, -1074⟩

/-- Numeric equality: the two zeros are one number, and any other number has one
form only. -/
def same (x y : Double) : Bool := (x.significand == 0 && y.significand == 0) || x == y

/-- The quotient rounded to the nearest natural number; a half goes to the even
neighbour. -/
def roundQuotient (numerator denominator : Nat) : Nat :=
  let quotient := numerator / denominator
  let twice := 2 * (numerator % denominator)
  if denominator < twice ∨ (denominator = twice ∧ quotient % 2 = 1) then quotient + 1 else quotient

/-- The exponent at which a positive fraction has a significand of exactly 53
bits before rounding, or the least exponent if that one is too small. -/
def exponentOf (numerator denominator : Nat) : Int :=
  let width : Int := (Nat.log2 numerator : Int) - Nat.log2 denominator
  let below : Bool :=
    if width < 0 then numerator * twoTo (-width).toNat < denominator
    else numerator < denominator * twoTo width.toNat
  max (-1074) (if below then width - 53 else width - 52)

/-- The double nearest to a positive fraction, or nothing if that is above every
finite double. Rounding up to `2 ^ 53` moves to the next exponent. -/
def ofFraction? (negative : Bool) (numerator denominator : Nat) : Option Double :=
  let exponent := exponentOf numerator denominator
  let rounded :=
    if exponent < 0 then roundQuotient (numerator * twoTo (-exponent).toNat) denominator
    else roundQuotient numerator (denominator * twoTo exponent.toNat)
  let (significand, exponent) :=
    if rounded = twoTo 53 then (twoTo 52, exponent + 1) else (rounded, exponent)
  if 971 < exponent then none else some ⟨negative, significand, exponent⟩

/-- The double nearest to `± digits * 10 ^ scale`. A value of more than 310
digits before the point is above every double, and one whose first digit stands
more than 330 places after the point is nearest to zero, so neither needs a
power of ten to be computed. -/
def ofDecimal? (negative : Bool) (digits : Nat) (scale : Int) : Option Double :=
  if digits = 0 then some (zero negative)
  else
    let magnitude : Int := (Nat.toDigits 10 digits).length + scale
    if 310 < magnitude then none
    else if magnitude < -330 then some (zero negative)
    else if scale < 0 then ofFraction? negative digits (tenTo (-scale).toNat)
    else ofFraction? negative (digits * tenTo scale.toNat) 1

/-- The double nearest to an integer. -/
def ofInt? (n : Int) : Option Double := ofDecimal? (n < 0) n.natAbs 0

end Double

end Workflow
