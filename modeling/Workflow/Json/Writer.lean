import Workflow.Json.Value
import Workflow.Number.Shortest

/-!
# Writing values as text

A value has one compact text and one indented text. They differ in nothing but
the blanks between tokens, so both are the same traversal under two styles. Each
writing function takes the text that follows and puts its own in front, which
keeps the time linear in the text however deep the value is.

In a string only the quote, the backslash and the characters below the space are
escaped; everything else, beyond ASCII too, stands for itself.
-/

namespace Workflow.Json

/-- The blanks between tokens: none at all, or a line for every item and member
with two spaces a level. -/
inductive Style where
  | compact
  | indented
deriving DecidableEq, Repr

/-- A hexadecimal digit in lower case. -/
def hexDigit (n : Nat) : Char := Nat.digitChar (n % 16)

/-- One character inside a quoted text. -/
def escapeChar (c : Char) : List Char :=
  match c with
  | '"' => ['\\', '"']
  | '\\' => ['\\', '\\']
  | '\x08' => ['\\', 'b']
  | '\x0c' => ['\\', 'f']
  | '\n' => ['\\', 'n']
  | '\r' => ['\\', 'r']
  | '\t' => ['\\', 't']
  | c =>
      if c.toNat < 0x20 then ['\\', 'u', '0', '0', hexDigit (c.toNat / 16), hexDigit c.toNat]
      else [c]

/-- The characters of a string up to and with its closing quote, before `after`. -/
def writeChars : List Char → List Char → List Char
  | [], after => '"' :: after
  | c :: rest, after => escapeChar c ++ writeChars rest after

/-- A quoted string before `after`. -/
def writeString (text : String) (after : List Char) : List Char :=
  '"' :: writeChars text.toList after

/-- The text of an integer: a minus sign for a negative one, then its digits. -/
def intText (n : Int) : List Char :=
  if n < 0 then '-' :: Nat.toDigits 10 n.natAbs else Nat.toDigits 10 n.natAbs

/-- The text of a number. -/
def Number.text : Number → List Char
  | .int n => intText n
  | .float x => x.text

/-- The start of a new line at a depth, which only the indented style has. -/
def Style.newLine (style : Style) (depth : Nat) (after : List Char) : List Char :=
  match style with
  | .compact => after
  | .indented => '\n' :: (List.replicate (2 * depth) ' ' ++ after)

/-- What stands between a key and its value. -/
def Style.colon (style : Style) (after : List Char) : List Char :=
  match style with
  | .compact => ':' :: after
  | .indented => ':' :: ' ' :: after

namespace Value

mutual

/-- A value at a depth, before `after`. An empty array or object has no line of
its own in either style. -/
def write (style : Style) (depth : Nat) : Value → List Char → List Char
  | .null, after => 'n' :: 'u' :: 'l' :: 'l' :: after
  | .bool true, after => 't' :: 'r' :: 'u' :: 'e' :: after
  | .bool false, after => 'f' :: 'a' :: 'l' :: 's' :: 'e' :: after
  | .number n, after => n.text ++ after
  | .string text, after => writeString text after
  | .array [], after => '[' :: ']' :: after
  | .array (item :: rest), after =>
      '[' :: style.newLine (depth + 1)
        (write style (depth + 1) item (writeItems style depth rest after))
  | .object [], after => '{' :: '}' :: after
  | .object ((key, value) :: rest), after =>
      '{' :: style.newLine (depth + 1) (writeString key (style.colon
        (write style (depth + 1) value (writeMembers style depth rest after))))
termination_by structural value => value

/-- The items after the first, and the closing bracket of their array. -/
def writeItems (style : Style) (depth : Nat) : List Value → List Char → List Char
  | [], after => style.newLine depth (']' :: after)
  | item :: rest, after =>
      ',' :: style.newLine (depth + 1)
        (write style (depth + 1) item (writeItems style depth rest after))
termination_by structural items => items

/-- The members after the first, and the closing bracket of their object. -/
def writeMembers (style : Style) (depth : Nat) : List (String × Value) → List Char → List Char
  | [], after => style.newLine depth ('}' :: after)
  | (key, value) :: rest, after =>
      ',' :: style.newLine (depth + 1) (writeString key (style.colon
        (write style (depth + 1) value (writeMembers style depth rest after))))
termination_by structural members => members

end

/-- The text of a value in a style. -/
def text (style : Style) (value : Value) : List Char := value.write style 0 []

/-- The text of a value without blanks between tokens. -/
def compact (value : Value) : String := String.ofList (value.text .compact)

/-- The text of a value with a line for every item and member. -/
def indented (value : Value) : String := String.ofList (value.text .indented)

end Value

end Workflow.Json
