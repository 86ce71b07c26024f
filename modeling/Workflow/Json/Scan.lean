import Workflow.Json.Numeral
import Workflow.Json.Spelling

/-!
# From a text to its draft

The scan is one pass from left to right. Every call that continues below the
current value has consumed at least one character, so the length of the text
bounds the number of nested calls; it is the fuel of the recursion. With no fuel
left no text is left either, and the answer given there is the one for an empty
text.

A draft that records a fault leaves no text. A complete one leaves the text after
its last character.
-/

namespace Workflow.Json

/-- The four characters that may stand between tokens. -/
def isSpace (c : Char) : Bool := c == ' ' || c == '\n' || c == '\r' || c == '\t'

/-- A text without the spaces in front. -/
def skipSpaces (text : List Char) : List Char := text.dropWhile isSpace

/-- The rest of a word whose first letter has been read. -/
def scanWord (value : Draft) : List Char → List Char → Draft × List Char
  | [], text => (value, text)
  | _ :: _, [] => (.broken .wordCut, [])
  | letter :: word, c :: text =>
      if letter = c then scanWord value word text else (.broken .wordBroken, [])

/-- A number as a draft. -/
def scanNumber (text : List Char) : Draft × List Char :=
  match scanNumeral text with
  | .ok (numeral, after) => (.number numeral, after)
  | .error fault => (.broken fault, [])

mutual

/-- The value at the start of a text. -/
def scanValue : Nat → List Char → Draft × List Char
  | 0, _ => (.broken .textEnds, [])
  | fuel + 1, text =>
      match skipSpaces text with
      | [] => (.broken .textEnds, [])
      | 'n' :: rest => scanWord .null ['u', 'l', 'l'] rest
      | 't' :: rest => scanWord (.bool true) ['r', 'u', 'e'] rest
      | 'f' :: rest => scanWord (.bool false) ['a', 'l', 's', 'e'] rest
      | '"' :: rest =>
          let (spelling, after) := scanString rest
          (.string spelling, after)
      | '[' :: rest =>
          match skipSpaces rest with
          | [] => (.array .cut, [])
          | ']' :: after => (.array .closed, after)
          | first =>
              let (value, rest) := scanValue fuel first
              let (items, after) := scanItems fuel rest
              (.array (.cons value items), after)
      | '{' :: rest =>
          match skipSpaces rest with
          | [] => (.object .cut, [])
          | '}' :: after => (.object .closed, after)
          | '"' :: first =>
              let (members, after) := scanMember fuel first
              (.object members, after)
          | other =>
              let (found, _) := scanValue fuel other
              (.object (.stray found), [])
      | c :: rest =>
          if c = '-' ∨ c.isDigit then scanNumber (c :: rest) else (.broken .noValue, [])

/-- The items after one that has been read, up to the end of their array. -/
def scanItems : Nat → List Char → DraftItems × List Char
  | 0, _ => (.cut, [])
  | fuel + 1, text =>
      match skipSpaces text with
      | [] => (.cut, [])
      | ']' :: after => (.closed, after)
      | ',' :: rest =>
          match skipSpaces rest with
          | ']' :: _ => (.commaAtEnd, [])
          | next =>
              let (value, rest) := scanValue fuel next
              let (items, after) := scanItems fuel rest
              (.cons value items, after)
      | _ => (.noComma, [])

/-- A member whose key's opening quote has been read, and the members after it,
up to the end of their object. -/
def scanMember : Nat → List Char → DraftMembers × List Char
  | 0, _ => (.cons .cut (.broken .colonCut) .cut, [])
  | fuel + 1, text =>
      let (key, rest) := scanString text
      match skipSpaces rest with
      | [] => (.cons key (.broken .colonCut) .cut, [])
      | ':' :: rest =>
          let (value, rest) := scanValue fuel rest
          let (members, after) := scanMembers fuel rest
          (.cons key value members, after)
      | _ => (.cons key (.broken .noColon) .cut, [])

/-- The members after one that has been read, up to the end of their object. -/
def scanMembers : Nat → List Char → DraftMembers × List Char
  | 0, _ => (.cut, [])
  | fuel + 1, text =>
      match skipSpaces text with
      | [] => (.cut, [])
      | '}' :: after => (.closed, after)
      | ',' :: rest =>
          match skipSpaces rest with
          | [] => (.cutAfterComma, [])
          | '}' :: _ => (.commaAtEnd, [])
          | '"' :: next => scanMember fuel next
          | other =>
              let (found, _) := scanValue fuel other
              (.stray found, [])
      | _ => (.noComma, [])

end

/-- The draft of a text's first value, and the text after it. -/
def scan (text : List Char) : Draft × List Char := scanValue text.length text

end Workflow.Json
