import Workflow.Json.Draft
import Workflow.Number.Decimal

/-!
# Numbers in a text

The form of a number is an optional minus sign, digits without a superfluous
leading zero, then perhaps a point with digits and an exponent with digits. The
scan takes the longest such text; a character after it is the business of
whatever surrounds the number.

Without fraction and exponent the value is an integer if it fits into a word of
64 bits. Minus zero does not: it is the negative zero of the doubles.
-/

namespace Workflow.Json

/-- A run of digits at the start of a text, and the text after it. A missing
digit is a cut at the end of the text and a break elsewhere. -/
def scanDigits (text : List Char) : Except Fault (List Char × List Char) :=
  match text with
  | [] => .error .numeralCut
  | c :: _ =>
      if c.isDigit then .ok (text.takeWhile Char.isDigit, text.dropWhile Char.isDigit)
      else .error .numeralBroken

/-- The digits before the point. A zero in front stands alone. -/
def scanWhole (text : List Char) : Except Fault (List Char × List Char) :=
  match scanDigits text with
  | .ok ('0' :: _ :: _, _) => .error .numeralBroken
  | outcome => outcome

/-- A point and the digits after it, if there is a point. -/
def scanFraction (text : List Char) : Except Fault (Option (List Char) × List Char) :=
  match text with
  | '.' :: rest => (scanDigits rest).map fun (digits, after) => (some digits, after)
  | _ => .ok (none, text)

/-- The sign an exponent may carry. -/
def scanSign : List Char → Bool × List Char
  | '-' :: rest => (true, rest)
  | '+' :: rest => (false, rest)
  | text => (false, text)

/-- The mark of an exponent with its sign and digits, if there is one. -/
def scanExponent (text : List Char) : Except Fault (Option (Bool × List Char) × List Char) :=
  match text with
  | c :: rest =>
      if c = 'e' ∨ c = 'E' then
        let (negative, rest) := scanSign rest
        (scanDigits rest).map fun (digits, after) => (some (negative, digits), after)
      else .ok (none, text)
  | [] => .ok (none, [])

/-- The number at the start of a text, and the text after it. -/
def scanNumeral (text : List Char) : Except Fault (Numeral × List Char) := do
  let (negative, text) := match text with
    | '-' :: rest => (true, rest)
    | _ => (false, text)
  let (whole, text) ← scanWhole text
  let (fraction, text) ← scanFraction text
  let (exponent, text) ← scanExponent text
  pure (⟨negative, whole, fraction, exponent⟩, text)

namespace Numeral

/-- The value of a digit text. -/
def natural (digits : List Char) : Nat := Nat.ofDigitChars 10 digits 0

/-- The double nearest to a number. -/
def double? (numeral : Numeral) : Option Double :=
  let fraction := numeral.fraction.getD []
  let power : Int := match numeral.exponent with
    | none => 0
    | some (true, digits) => -(natural digits : Int)
    | some (false, digits) => natural digits
  Double.ofDecimal? numeral.negative (natural (numeral.whole ++ fraction))
    (power - fraction.length)

/-- The integer a number is written as, if it has the form of one and fits. -/
def integer? (numeral : Numeral) : Option Int :=
  match numeral.fraction, numeral.exponent with
  | none, none =>
      let n := natural numeral.whole
      if numeral.negative then
        if n ≠ 0 ∧ Decimal.fitsSigned64 (-(n : Int)) then some (-(n : Int)) else none
      else if Decimal.fitsUnsigned64 n then some n else none
  | _, _ => none

/-- The value of a number, unless it is above every double. -/
def number? (numeral : Numeral) : Option Number :=
  match numeral.integer? with
  | some n => some (.int n)
  | none => numeral.double?.map .float

end Numeral

end Workflow.Json
