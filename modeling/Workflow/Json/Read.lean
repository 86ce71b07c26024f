import Workflow.Json.Shape
import Workflow.Json.Scan

/-!
# Reading a draft by shape

Reading walks a draft from left to right and stops at the first thing that does
not fit. A value that no field asks for is passed over, which checks its form
only. A value that is wanted is kept: its strings are decoded and its numbers
must be in range.

What comes out of a record is an object of the known members that the text gives.
A place that holds no array or object is read completely before it is called the
wrong type, so a fault inside a number or a string comes first; the content of an
array or object is not looked at.
-/

namespace Workflow.Json

mutual

/-- The check of a value that no field asks for. -/
def Draft.pass : Draft → Except ReadError Unit
  | .null => .ok ()
  | .bool _ => .ok ()
  | .number _ => .ok ()
  | .string spelling => spelling.pass
  | .array items => items.pass
  | .object members => members.pass
  | .broken fault => .error fault.whenPassed

/-- The check of the items of an array that is passed over. -/
def DraftItems.pass : DraftItems → Except ReadError Unit
  | .closed => .ok ()
  | .cut => .error .listCut
  | .noComma => .error .listCommaExpected
  | .commaAtEnd => .error .valueExpected
  | .cons value rest => do
      value.pass
      rest.pass

/-- The check of the members of an object that is passed over. -/
def DraftMembers.pass : DraftMembers → Except ReadError Unit
  | .closed => .ok ()
  | .cut => .error .objectCut
  | .cutAfterComma => .error .objectCut
  | .noComma => .error .objectCommaExpected
  | .commaAtEnd => .error .keyExpected
  | .stray _ => .error .keyExpected
  | .cons key value rest => do
      key.pass
      value.pass
      rest.pass

end

/-- Why the items of an array that is kept do not go on. -/
def DraftItems.ending : DraftItems → ReadError
  | .cut => .listCut
  | .commaAtEnd => .trailingComma
  | _ => .listCommaExpected

/-- Why the members of an object that is kept do not go on. -/
def DraftMembers.ending : DraftMembers → ReadError
  | .cut => .objectCut
  | .cutAfterComma => .valueCut
  | .commaAtEnd => .trailingComma
  | .stray _ => .keyExpected
  | _ => .objectCommaExpected

/-- The number that is kept. -/
def Numeral.value (numeral : Numeral) : Except ReadError Number :=
  match numeral.number? with
  | some n => .ok n
  | none => .error .numberOutOfRange

mutual

/-- Any value, kept as it is. -/
def Draft.keep : Draft → Except ReadError Value
  | .null => .ok .null
  | .bool truth => .ok (.bool truth)
  | .number numeral => numeral.value.map .number
  | .string spelling => spelling.string.map .string
  | .array items => items.keep.map .array
  | .object members => (members.keep []).map .object
  | .broken fault => .error fault.whenKept

/-- The items of an array that is kept. -/
def DraftItems.keep : DraftItems → Except ReadError (List Value)
  | .closed => .ok []
  | .cons value rest => do
      let value ← value.keep
      let rest ← rest.keep
      pure (value :: rest)
  | other => .error other.ending

/-- The members of an object that is kept, added to those before them. -/
def DraftMembers.keep (before : List (String × Value)) :
    DraftMembers → Except ReadError (List (String × Value))
  | .closed => .ok before
  | .cons key value rest => do
      let key ← key.string
      let value ← value.keep
      rest.keep (insertMember key value before)
  | other => .error other.ending

end

/-- The cause when a draft has another form than wanted. -/
def Draft.mismatch (wanted : String) : Draft → ReadError
  | .array _ => .wrongType (.array []) wanted
  | .object _ => .wrongType (.object []) wanted
  | draft => match draft.keep with
      | .ok value => .wrongType value wanted
      | .error cause => cause

/-- One of several names, as a string. -/
def Spelling.variant (names : List String) (spelling : Spelling) : Except ReadError Value := do
  let name ← spelling.string
  if names.contains name then pure (.string name) else throw (.unknownVariant name names)

/-- One of several names: a string, or an object with that one key and a null.
Nothing else is looked into, so only a fault in front of the value is reported. -/
def Draft.variant (names : List String) : Draft → Except ReadError Value
  | .string spelling => spelling.variant names
  | .object members => match members with
      | .cut => .error .valueCut
      | .stray found => .error (found.mismatch "variant identifier")
      | .cons key value rest => do
          let name ← key.variant names
          match value with
          | .null => pure ()
          | other => throw (other.mismatch "unit")
          match rest with
          | .closed => pure name
          | .cut => throw .objectCut
          | _ => throw .valueExpected
      | _ => .error .valueExpected
  | .broken fault => .error (if fault.beforeValue then fault.whenKept else .valueExpected)
  | _ => .error .valueExpected

/-- The double a number is read as where a real number is wanted. -/
def Numeral.real (numeral : Numeral) : Except ReadError Value := do
  match ← numeral.value with
  | .float x => pure (.number (.float x))
  | .int n => match Double.ofInt? n with
      | some x => pure (.number (.float x))
      | none => throw .numberOutOfRange

/-- What follows the last field of a record in array form must be the end. -/
def DraftItems.finish (given : List (String × Value)) :
    DraftItems → Except ReadError (List (String × Value))
  | .closed => .ok given
  | .cut => .error .listCut
  | .commaAtEnd => .error .trailingComma
  | _ => .error .trailingText

/-- The members of a record once its object has ended. -/
def Record.complete {ρ : Type} (record : Record ρ) (given : List (String × Value)) :
    Except ReadError (List (String × Value)) :=
  match record.missing? (given.map (·.1)) with
  | some key => .error (.missingField key)
  | none => .ok given

variable {ρ : Type} (schema : Schema ρ)

mutual

/-- The value of a draft that must have a shape. -/
def Draft.read : Shape ρ → Draft → Except ReadError Value
  | .any, draft => draft.keep
  | .text, draft => match draft with
      | .string spelling => spelling.string.map .string
      | other => .error (other.mismatch "a string")
  | .flag, draft => match draft with
      | .bool truth => .ok (.bool truth)
      | other => .error (other.mismatch "a boolean")
  | .real, draft => match draft with
      | .number numeral => numeral.real
      | other => .error (other.mismatch "f64")
  | .variant names, draft => draft.variant names
  | .list item, draft => match draft with
      | .array items => (items.read item).map .array
      | other => .error (other.mismatch "a sequence")
  | .table item, draft => match draft with
      | .object members => (members.readTable item []).map .object
      | other => .error (other.mismatch "a map")
  | .record name, draft => match draft with
      | .object members => (members.readRecord (schema name) []).map .object
      | .array items =>
          (items.readRecord (schema name) (schema name).fields []).map .object
      | other => .error (other.mismatch ("struct " ++ (schema name).name))
termination_by structural _ draft => draft

/-- The items of a list. -/
def DraftItems.read (item : Shape ρ) : DraftItems → Except ReadError (List Value)
  | .closed => .ok []
  | .cons value rest => do
      let value ← value.read item
      let rest ← rest.read item
      pure (value :: rest)
  | other => .error other.ending
termination_by structural items => items

/-- The fields of a record in array form, in the order of the schema. -/
def DraftItems.readRecord (record : Record ρ) :
    List (RecordField ρ) → List (String × Value) → DraftItems →
      Except ReadError (List (String × Value))
  | [], given, items => items.finish given
  | field :: fields, given, items => match items with
      | .closed =>
          if record.lenient then .ok given
          else .error (.wrongLength given.length record.name record.fields.length)
      | .cons value rest => do
          let value ←
            (if field.nullable && value.isNull then .ok .null else value.read field.shape)
          rest.readRecord record fields ((field.key, value) :: given)
      | other => .error other.ending
termination_by structural _ _ items => items

/-- The members of a table, added to those before them. -/
def DraftMembers.readTable (item : Shape ρ) (before : List (String × Value)) :
    DraftMembers → Except ReadError (List (String × Value))
  | .closed => .ok before
  | .cons key value rest => do
      let key ← key.string
      let value ← value.read item
      rest.readTable item (insertMember key value before)
  | other => .error other.ending
termination_by structural members => members

/-- The members of a record in object form. A key that is no field's is passed
over with its value; a field given a second time is refused at its key. -/
def DraftMembers.readRecord (record : Record ρ) (given : List (String × Value)) :
    DraftMembers → Except ReadError (List (String × Value))
  | .closed => record.complete given
  | .cons key value rest => do
      let key ← key.string
      match record.field? key with
      | none => do
          value.pass
          rest.readRecord record given
      | some field =>
          if (given.lookup key).isSome then throw (.repeatedField key)
          else do
            let value ←
              (if field.nullable && value.isNull then .ok .null else value.read field.shape)
            rest.readRecord record ((key, value) :: given)
  | other => .error other.ending
termination_by structural members => members

end

/-- The value of a text that must have a shape. After the value only spaces may
follow. -/
def readText (shape : Shape ρ) (text : String) : Except ReadError Value := do
  let (draft, after) := scan text.toList
  let value ← draft.read schema shape
  if skipSpaces after = [] then pure value else throw .trailingText

end Workflow.Json
