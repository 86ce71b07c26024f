import Workflow.Json.Writer
import Workflow.Text.Quoted

/-!
# Why a text is refused

Each cause has one message. A text can end too early, break the grammar, or be
well formed and hold other data than wanted; `category` tells these apart. No
cause carries a position, because the first one in the text's order is the only
one reported.
-/

namespace Workflow.Json

/-- The three classes of causes. -/
inductive Category where
  | cut
  | grammar
  | data
deriving DecidableEq, Repr

/-- A cause for refusing a text. -/
inductive ReadError where
  | valueCut
  | listCut
  | objectCut
  | stringCut
  | valueExpected
  | wordExpected
  | keyExpected
  | colonExpected
  | listCommaExpected
  | objectCommaExpected
  | trailingComma
  | trailingText
  | controlCharacter
  | badEscape
  | loneSurrogate
  | unpairedSurrogate
  | badNumber
  | numberOutOfRange
  | wrongType (found : Value) (wanted : String)
  | wrongLength (given : Nat) (record : String) (fields : Nat)
  | missingField (key : String)
  | repeatedField (key : String)
  | unknownVariant (name : String) (known : List String)
deriving Repr

namespace ReadError

/-- The class of a cause. -/
def category : ReadError → Category
  | valueCut | listCut | objectCut | stringCut => .cut
  | wrongType _ _ | wrongLength _ _ _ | missingField _ | repeatedField _ | unknownVariant _ _ => .data
  | _ => .grammar

/-- How a value that was found is named. Of an array or object only the form is
named, so its content plays no part. -/
def describe : Value → String
  | .null => "null"
  | .bool true => "boolean `true`"
  | .bool false => "boolean `false`"
  | .number (.int n) => "integer `" ++ String.ofList (intText n) ++ "`"
  | .number (.float x) => "floating point `" ++ String.ofList x.text ++ "`"
  | .string text => "string " ++ Text.quoted text
  | .array _ => "sequence"
  | .object _ => "map"

/-- A list of alternatives, each in backquotes. -/
def oneOf (names : List String) : String :=
  String.intercalate ", " (names.map fun name => "`" ++ name ++ "`")

/-- The message of a cause. -/
def message : ReadError → String
  | valueCut => "EOF while parsing a value"
  | listCut => "EOF while parsing a list"
  | objectCut => "EOF while parsing an object"
  | stringCut => "EOF while parsing a string"
  | valueExpected => "expected value"
  | wordExpected => "expected ident"
  | keyExpected => "key must be a string"
  | colonExpected => "expected `:`"
  | listCommaExpected => "expected `,` or `]`"
  | objectCommaExpected => "expected `,` or `\x7d`"
  | trailingComma => "trailing comma"
  | trailingText => "trailing characters"
  | controlCharacter => "control character (\\u0000-\\u001F) found while parsing a string"
  | badEscape => "invalid escape"
  | loneSurrogate => "lone leading surrogate in hex escape"
  | unpairedSurrogate => "unexpected end of hex escape"
  | badNumber => "invalid number"
  | numberOutOfRange => "number out of range"
  | wrongType found wanted => "invalid type: " ++ describe found ++ ", expected " ++ wanted
  | wrongLength given record fields =>
      "invalid length " ++ toString given ++ ", expected struct " ++ record ++ " with " ++
        toString fields ++ " elements"
  | missingField key => "missing field `" ++ key ++ "`"
  | repeatedField key => "duplicate field `" ++ key ++ "`"
  | unknownVariant name known =>
      "unknown variant `" ++ name ++ "`, expected one of " ++ oneOf known

end ReadError

end Workflow.Json
