import Workflow.Number.Double

/-!
# The shortest decimal of a double

Every decimal inside a double's rounding interval reads back as that double. Of
those, the one with the fewest digits is chosen, and of two with equally few the
nearer one. The search asks, for one digit, two digits and so on, whether one of
the two neighbours of the value on that decimal grid lies in the interval; the
first grid with a hit has the fewest digits.

How the digits are laid out in a text is a separate decision, recorded in
`Layout`.
-/

namespace Workflow

/-- A positive decimal `digits * 10 ^ scale`. -/
structure ShortDecimal where
  digits : Nat
  scale : Int
deriving DecidableEq, Repr

namespace Double

/-- The decimal exponent of a positive fraction: its first digit has the weight
`10` to this power. -/
def decimalExponent (numerator denominator : Nat) : Int :=
  if denominator ≤ numerator then (Nat.toDigits 10 (numerator / denominator)).length - 1
  else
    let places := (Nat.toDigits 10 (denominator / numerator)).length
    if denominator ≤ numerator * tenTo (places - 1) then 1 - (places : Int) else -(places : Int)

/-- The same decimal without trailing zeros in its digits. The fuel bounds the
number of zeros removed. -/
def dropZeros : Nat → ShortDecimal → ShortDecimal
  | 0, decimal => decimal
  | fuel + 1, decimal =>
      if decimal.digits % 10 = 0 then dropZeros fuel ⟨decimal.digits / 10, decimal.scale + 1⟩
      else decimal

/-- The ends and the middle of the rounding interval as multiples of one quarter
of the last place, over a common denominator: low, value, high, denominator. The
lower neighbour of a power of two is only half as far away as the upper one. -/
def interval (x : Double) : Nat × Nat × Nat × Nat :=
  let unit : Int := x.exponent - 2
  let up := twoTo unit.toNat
  let down := twoTo (-unit).toNat
  let below := if x.significand = twoTo 52 ∧ -1074 < x.exponent then 1 else 2
  ((4 * x.significand - below) * up, 4 * x.significand * up, (4 * x.significand + 2) * up, down)

/-- A neighbour of the value on the grid of the given number of digits that lies
in the rounding interval, the nearer one if both do. The ends belong to the
interval exactly for an even significand; an exact tie goes to the even digit. -/
def onGrid? (x : Double) (top : Int) (count : Nat) : Option ShortDecimal :=
  let (low, value, high, denominator) := x.interval
  let scale := top - count + 1
  let up := tenTo scale.toNat
  let down := tenTo (-scale).toNat
  let lower := value * down / (denominator * up)
  let place (n : Nat) : Nat := n * (denominator * up)
  let closed := x.significand % 2 = 0
  let inside (n : Nat) : Bool :=
    (low * down < place n && place n < high * down) ||
      (closed && (low * down == place n || place n == high * down))
  let toLower := value * down - place lower
  let toUpper := place (lower + 1) - value * down
  match inside lower, inside (lower + 1) with
  | false, false => none
  | true, false => some ⟨lower, scale⟩
  | false, true => some ⟨lower + 1, scale⟩
  | true, true =>
      if toLower < toUpper ∨ (toLower = toUpper ∧ lower % 2 = 0) then some ⟨lower, scale⟩
      else some ⟨lower + 1, scale⟩

/-- The shortest decimal of a double that is not zero. Seventeen digits always
have a hit, so the decimal given for a search without one is never used. -/
def shortest (x : Double) : ShortDecimal :=
  let (_, value, _, denominator) := x.interval
  let top := decimalExponent value denominator
  let found := (List.range 17).findSome? fun fewer => x.onGrid? top (fewer + 1)
  dropZeros 20 (found.getD ⟨x.significand, 0⟩)

end Double

/-- Where a decimal text changes from positional to scientific notation: the
exponents from `lowest` to `highest` are written positionally. -/
structure Layout where
  lowest : Int
  highest : Int

/-- Numbers in stored documents are positional for exponents from -5 to 15. -/
def documentLayout : Layout := ⟨-5, 15⟩

/-- The text of a positive decimal. Positional notation always has a point and a
digit after it; the exponent of scientific notation always has a sign and no
padding. -/
def ShortDecimal.text (layout : Layout) (decimal : ShortDecimal) : List Char :=
  let digits := Nat.toDigits 10 decimal.digits
  let exponent : Int := decimal.scale + digits.length - 1
  if layout.lowest ≤ exponent ∧ exponent ≤ layout.highest then
    if exponent < 0 then
      '0' :: '.' :: (List.replicate (-exponent - 1).toNat '0' ++ digits)
    else
      let whole := (exponent + 1).toNat
      if digits.length ≤ whole then
        digits ++ List.replicate (whole - digits.length) '0' ++ ['.', '0']
      else digits.take whole ++ '.' :: digits.drop whole
  else
    let mantissa := match digits with
      | [] => []
      | [digit] => [digit]
      | digit :: rest => digit :: '.' :: rest
    let sign := if exponent < 0 then '-' else '+'
    mantissa ++ 'e' :: sign :: Nat.toDigits 10 exponent.natAbs

/-- The text of a double: its shortest decimal after a minus sign for a negative
value; zero keeps its sign. -/
def Double.text (x : Double) : List Char :=
  let magnitude := if x.significand = 0 then ['0', '.', '0'] else x.shortest.text documentLayout
  if x.negative then '-' :: magnitude else magnitude

end Workflow
