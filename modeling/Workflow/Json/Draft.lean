import Workflow.Json.ReadError

/-!
# Drafts

A draft is what a text spells at the place of a value, as far as it goes. Reading
a text has two parts. The first makes the draft and knows nothing about what is
wanted: where the text ends too early or breaks the grammar, the draft records
the fault and stops. The second part compares the draft with what is wanted, from
left to right, and reports the first thing that does not fit, be it other data or
the recorded fault.

A fault may have two messages, because a value that is kept and a value that is
passed over are checked differently. A draft therefore keeps the causes apart and
leaves the choice of the message to the reader.
-/

namespace Workflow.Json

/-- The digits and marks of a number. -/
structure Numeral where
  negative : Bool
  whole : List Char
  fraction : Option (List Char)
  exponent : Option (Bool × List Char)
deriving DecidableEq, Repr

/-- What stands between the quotes of a string: characters, simple escapes
already resolved, and numbered code units. The ending says how the string
closes or why it does not. -/
inductive Spelling where
  | closed
  | cut
  | control
  | badEscape
  | badDigit
  | char (c : Char) (rest : Spelling)
  | unit (code : Nat) (rest : Spelling)
deriving DecidableEq, Repr

/-- Why no value stands where one is needed. -/
inductive Fault where
  | textEnds
  | wordCut
  | numeralCut
  | numeralBroken
  | wordBroken
  | noValue
  | colonCut
  | noColon
deriving DecidableEq, Repr

mutual

/-- What a text spells at the place of a value. -/
inductive Draft where
  | null
  | bool (value : Bool)
  | number (numeral : Numeral)
  | string (spelling : Spelling)
  | array (items : DraftItems)
  | object (members : DraftMembers)
  | broken (fault : Fault)

/-- The items of an array, and how the array ends. -/
inductive DraftItems where
  | closed
  | cut
  | noComma
  | commaAtEnd
  | cons (value : Draft) (rest : DraftItems)

/-- The members of an object, and how the object ends. A `stray` value stands
where a key is needed. -/
inductive DraftMembers where
  | closed
  | cut
  | cutAfterComma
  | noComma
  | commaAtEnd
  | stray (found : Draft)
  | cons (key : Spelling) (value : Draft) (rest : DraftMembers)

end

/-- True for a null. -/
def Draft.isNull : Draft → Bool
  | .null => true
  | _ => false

/-- The cause a fault amounts to in a value that is kept. A number that stops
early counts as a value that stops early. -/
def Fault.whenKept : Fault → ReadError
  | textEnds | wordCut | numeralCut => .valueCut
  | numeralBroken => .badNumber
  | wordBroken => .wordExpected
  | noValue => .valueExpected
  | colonCut => .objectCut
  | noColon => .colonExpected

/-- True for a fault that comes before the first character of a value. Any other
fault is inside something that has begun like a value. -/
def Fault.beforeValue : Fault → Bool
  | textEnds | colonCut | noColon => true
  | _ => false

/-- The cause a fault amounts to in a value that is passed over. A number that
stops early is then no number. -/
def Fault.whenPassed : Fault → ReadError
  | numeralCut => .badNumber
  | fault => fault.whenKept

end Workflow.Json
