import Workflow.Json.Value

/-!
# Shapes

A shape says what a place in a document may hold. Records are referred to by
name, so a record may hold itself; a schema gives the fields of every name.

A record is written as an object, its members in any order, or as an array of its
fields in the order of the schema. A lenient record may leave out any field; any
other record may leave out the ones that may be null, and those in object form
only.
-/

namespace Workflow.Json

/-- What a place may hold, with `ρ` the names of records. -/
inductive Shape (ρ : Type) where
  | any
  | text
  | flag
  | real
  | variant (names : List String)
  | list (item : Shape ρ)
  | table (item : Shape ρ)
  | record (name : ρ)

/-- A field of a record. -/
structure RecordField (ρ : Type) where
  key : String
  shape : Shape ρ
  nullable : Bool

/-- The name a record has in messages, and its fields. -/
structure Record (ρ : Type) where
  name : String
  lenient : Bool
  fields : List (RecordField ρ)

/-- The fields behind every name. -/
abbrev Schema (ρ : Type) := ρ → Record ρ

/-- A field that may be left out of an object. -/
def Record.mayOmit {ρ : Type} (record : Record ρ) (field : RecordField ρ) : Bool :=
  record.lenient || field.nullable

/-- The first field that may not be left out and is not among the given keys. -/
def Record.missing? {ρ : Type} (record : Record ρ) (keys : List String) : Option String :=
  (record.fields.find? fun field => !record.mayOmit field && !keys.contains field.key).map (·.key)

/-- The field with a key. -/
def Record.field? {ρ : Type} (record : Record ρ) (key : String) : Option (RecordField ρ) :=
  record.fields.find? fun field => field.key == key

end Workflow.Json
