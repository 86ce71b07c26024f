import Workflow.Number.Double

/-!
# JSON values

A number is an integer or a double; which of the two it is belongs to the value,
because the texts `1` and `1.0` are different values. The members of an object
are kept in ascending order of their keys, one member a key, so two objects with
the same members are the same value whatever order a text gave them in.

`same` is equality up to the sign of a zero, the one place where two different
values are the same number.
-/

namespace Workflow.Json

/-- A number as a text spells it: without a fraction or exponent it is an
integer, as long as it fits into a word of 64 bits. -/
inductive Number where
  | int (value : Int)
  | float (value : Double)
deriving DecidableEq, Repr

/-- A value of a document. -/
inductive Value where
  | null
  | bool (value : Bool)
  | number (value : Number)
  | string (value : String)
  | array (items : List Value)
  | object (members : List (String × Value))
deriving Inhabited, Repr

/-- Numeric equality of two numbers of the same form. -/
def Number.same : Number → Number → Bool
  | .int m, .int n => m == n
  | .float x, .float y => x.same y
  | _, _ => false

namespace Value

mutual

/-- Equality of values, with numbers compared as numbers. -/
def same : Value → Value → Bool
  | .null, .null => true
  | .bool a, .bool b => a == b
  | .number a, .number b => a.same b
  | .string a, .string b => a == b
  | .array a, .array b => sameItems a b
  | .object a, .object b => sameMembers a b
  | _, _ => false
termination_by structural value => value

/-- Equality of the items of two arrays, place by place. -/
def sameItems : List Value → List Value → Bool
  | [], [] => true
  | a :: as, b :: bs => same a b && sameItems as bs
  | _, _ => false
termination_by structural items => items

/-- Equality of the members of two objects. Both lists are in key order, so they
are compared place by place. -/
def sameMembers : List (String × Value) → List (String × Value) → Bool
  | [], [] => true
  | (key, a) :: as, (key', b) :: bs => key == key' && same a b && sameMembers as bs
  | _, _ => false
termination_by structural members => members

end

/-- The text of a string value. -/
def string? : Value → Option String
  | .string text => some text
  | _ => none

/-- The truth value of a boolean. -/
def bool? : Value → Option Bool
  | .bool truth => some truth
  | _ => none

/-- The items of an array. -/
def items : Value → List Value
  | .array items => items
  | _ => []

/-- The members of an object. -/
def members : Value → List (String × Value)
  | .object members => members
  | _ => []

/-- The member of an object with the given key. -/
def get? (value : Value) (key : String) : Option Value := value.members.lookup key

end Value

/-- The members with one more, in key order. A member with the same key is
replaced, so the later of two wins. -/
def insertMember {α : Type} (key : String) (value : α) : List (String × α) → List (String × α)
  | [] => [(key, value)]
  | (other, held) :: rest =>
      if key < other then (key, value) :: (other, held) :: rest
      else if key = other then (key, value) :: rest
      else (other, held) :: insertMember key value rest

/-- The inserted member is the one found under its key. -/
theorem lookup_insertMember {α : Type} (key : String) (value : α) (members : List (String × α)) :
    (insertMember key value members).lookup key = some value := by
  induction members with
  | nil => simp [insertMember]
  | cons member rest inductionHypothesis =>
    obtain ⟨other, held⟩ := member
    by_cases before : key < other
    · simp [insertMember, before]
    · by_cases equal : key = other
      · simp [insertMember, equal]
      · have apart : (key == other) = false := by simpa using equal
        simp [insertMember, before, equal, List.lookup_cons, apart, inductionHypothesis]

/-- Every other key finds what it found before. -/
theorem lookup_insertMember_of_ne {α : Type} {key wanted : String} (apart : wanted ≠ key)
    (value : α) (members : List (String × α)) :
    (insertMember key value members).lookup wanted = members.lookup wanted := by
  have missed : (wanted == key) = false := by simpa using apart
  induction members with
  | nil => simp [insertMember, List.lookup_cons, missed]
  | cons member rest inductionHypothesis =>
    obtain ⟨other, held⟩ := member
    by_cases before : key < other
    · simp [insertMember, before, List.lookup_cons, missed]
    · by_cases equal : key = other
      · subst equal
        simp [insertMember, List.lookup_cons, missed]
      · simp [insertMember, before, equal, List.lookup_cons, inductionHypothesis]

end Workflow.Json
