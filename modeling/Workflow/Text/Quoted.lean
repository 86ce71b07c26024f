import Workflow.Text.Printable

/-!
# Quoting a text in a message

A text inside a message stands in quotes. The quote, the backslash and the four
common control characters are escaped with one letter; every other character
that would not show by itself is written as its code point, so a message can be
read whatever the text holds.
-/

namespace Workflow.Text

/-- One character of a quoted text. -/
def quotedChar (c : Char) : List Char :=
  match c with
  | '"' => ['\\', '"']
  | '\\' => ['\\', '\\']
  | '\x00' => ['\\', '0']
  | '\t' => ['\\', 't']
  | '\n' => ['\\', 'n']
  | '\r' => ['\\', 'r']
  | c => if isPrintable c then [c] else ['\\', 'u', '{'] ++ Nat.toDigits 16 c.toNat ++ ['}']

/-- A text in quotes. -/
def quoted (text : String) : String :=
  String.ofList ('"' :: (text.toList.flatMap quotedChar ++ ['"']))

end Workflow.Text
