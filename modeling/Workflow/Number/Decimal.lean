/-!
# Reading decimal numerals

A natural number is written as one or more of the ten ASCII digits; leading
zeros are allowed and change nothing. An integer may carry one sign in front.
No bound is imposed here: a caller with a range compares the value with it.
-/

namespace Workflow.Decimal

/-- The natural number a digit text stands for, if it is one. -/
def natural? (text : List Char) : Option Nat :=
  if text ≠ [] ∧ text.all Char.isDigit then some (Nat.ofDigitChars 10 text 0) else none

/-- The integer a text stands for: an optional sign, then a natural number. -/
def integer? : List Char → Option Int
  | '-' :: digits => (natural? digits).map fun n : Nat => -(n : Int)
  | '+' :: digits => (natural? digits).map fun n : Nat => (n : Int)
  | digits => (natural? digits).map fun n : Nat => (n : Int)

/-- True for the integers a signed word of 64 bits holds. -/
def fitsSigned64 (n : Int) : Bool :=
  decide (-9223372036854775808 ≤ n ∧ n ≤ 9223372036854775807)

/-- True for the naturals a word of 64 bits holds. -/
def fitsUnsigned64 (n : Int) : Bool := decide (0 ≤ n ∧ n ≤ 18446744073709551615)

/-- The digits of a natural number read back as that number. -/
theorem natural?_toDigits (n : Nat) : natural? (Nat.toDigits 10 n) = some n := by
  have digits : (Nat.toDigits 10 n).all Char.isDigit = true :=
    List.all_eq_true.mpr fun _ member => Nat.isDigit_of_mem_toDigits (by decide) (by decide) member
  simp [natural?, digits, Nat.toDigits_ne_nil, Nat.ofDigitChars_ten_toDigits]

end Workflow.Decimal
