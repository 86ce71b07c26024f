import Workflow.Documents
import Workflow.Proofs.Reading

/-!
# Written records are read back

A record is written as an object with its members in the order of the fields, and some of them
may be left out. Each member is taken by the field of its key, and what comes out are the taken
members, the last one first. No two fields have the same key, so a member is found under its key
in whatever order the members stand.
-/

namespace Workflow.Json

/-- The members of fields that are given a value. -/
def membersOf {ρ : Type} : List (RecordField ρ) → List (Option Value) → List (String × Value)
  | field :: fields, value :: values => optionalMember field.key value ++ membersOf fields values
  | _, _ => []

/-- The numbers in an object of members are those in the values that are given. -/
theorem isWhole_membersOf {ρ : Type} (fields : List (RecordField ρ))
    (values : List (Option Value)) (each : ∀ given ∈ values, ∀ value ∈ given, value.isWhole) :
    (Value.object (membersOf fields values)).isWhole := by
  rw [Value.isWhole_object]
  induction fields generalizing values with
  | nil => rfl
  | cons field fields inductionHypothesis =>
    cases values with
    | nil => rfl
    | cons given values =>
      have others := inductionHypothesis values fun other member =>
        each other (List.mem_cons_of_mem given member)
      rw [membersOf, List.all_append, others, Bool.and_true]
      cases given with
      | none => rfl
      | some value =>
        have whole := each (some value) List.mem_cons_self value rfl
        rw [optionalMember, List.all_cons, whole]
        rfl

variable {ρ : Type} (schema : Schema ρ)

/-- A field takes a written value: it is read as a result. -/
def RecordField.Takes (field : RecordField ρ) (value result : Value) : Prop :=
  (if field.nullable && value.draft.isNull then .ok .null
    else value.draft.read schema field.shape) = .ok result

/-- Every field takes the value that it is given, or is given none. -/
inductive FieldsTake :
    List (RecordField ρ) → List (Option Value) → List (Option Value) → Prop
  | nil : FieldsTake [] [] []
  | cons (field : RecordField ρ) (value result : Option Value) (fields : List (RecordField ρ))
      (values results : List (Option Value))
      (taken : Option.Rel (field.Takes schema) value result)
      (rest : FieldsTake fields values results) :
      FieldsTake (field :: fields) (value :: values) (result :: results)

/-- A member whose key is new is taken by the field of its key. -/
theorem readRecord_cons (record : Record ρ) (field : RecordField ρ) (key : String)
    (value result : Value) (rest given : List (String × Value))
    (known : record.field? key = some field) (fresh : given.lookup key = none)
    (taken : field.Takes schema value result) :
    (Value.membersDraft ((key, value) :: rest)).readRecord schema record given =
      (Value.membersDraft rest).readRecord schema record ((key, result) :: given) := by
  rw [RecordField.Takes] at taken
  simp only [Value.membersDraft, DraftMembers.readRecord, string_spell, known, fresh, taken, bind,
    Except.bind, Option.isSome_none]
  rfl

/-- Members are taken one after the other by fields of different keys. -/
theorem readRecord_membersOf (record : Record ρ) (fields : List (RecordField ρ))
    (values results : List (Option Value)) (given : List (String × Value))
    (take : FieldsTake schema fields values results)
    (known : ∀ field ∈ fields, record.field? field.key = some field)
    (distinct : (fields.map (·.key)).Nodup)
    (fresh : ∀ field ∈ fields, given.lookup field.key = none) :
    (Value.membersDraft (membersOf fields values)).readRecord schema record given =
      record.complete ((membersOf fields results).reverse ++ given) := by
  induction take generalizing given with
  | nil => rfl
  | cons field value result fields values results taken rest inductionHypothesis =>
    rw [List.map_cons, List.nodup_cons] at distinct
    have later : ∀ field ∈ fields, record.field? field.key = some field := fun other member =>
      known other (List.mem_cons_of_mem field member)
    cases taken with
    | none =>
      exact inductionHypothesis given later distinct.2 fun other member =>
        fresh other (List.mem_cons_of_mem field member)
    | @some value result taken =>
      have first := readRecord_cons schema record field field.key value result
        (membersOf fields values) given (known field List.mem_cons_self)
        (fresh field List.mem_cons_self) taken
      -- The key just given is none of those to come, so they are still new.
      have others := inductionHypothesis ((field.key, result) :: given) later distinct.2 (by
        intro other member
        have apart : other.key ≠ field.key := fun same =>
          distinct.1 (same ▸ List.mem_map_of_mem member)
        rw [List.lookup_cons, beq_false_of_ne apart]
        exact fresh other (List.mem_cons_of_mem field member))
      rw [membersOf, membersOf, optionalMember, optionalMember, List.singleton_append, first, others,
        List.singleton_append, List.reverse_cons, List.append_assoc, List.singleton_append]

/-- Of items with different keys, each is the one that is found under its key. -/
theorem find?_key {α : Type} (key : α → String) (items : List α) (distinct : (items.map key).Nodup)
    (item : α) (member : item ∈ items) :
    (items.find? fun other => key other == key item) = some item := by
  induction items with
  | nil => exact False.elim (List.not_mem_nil member)
  | cons first items inductionHypothesis =>
    rw [List.map_cons, List.nodup_cons] at distinct
    rcases List.mem_cons.mp member with rfl | later
    · exact List.find?_cons_of_pos (beq_self_eq_true (key item))
    · have apart : key first ≠ key item := fun same =>
        distinct.1 (same ▸ List.mem_map_of_mem later)
      have others := inductionHypothesis distinct.2 later
      rwa [List.find?_cons, beq_false_of_ne apart]

/-- A member that may be left out is found under its own key only. -/
theorem lookup_optionalMember (key wanted : String) (value : Option Value) :
    (optionalMember key value).reverse.lookup wanted = if wanted = key then value else none := by
  cases value with
  | none => simp [optionalMember]
  | some value =>
    by_cases same : wanted = key
    · simp [optionalMember, same]
    · simp [optionalMember, List.lookup_cons, same, beq_false_of_ne same]

/-- Under a key that is no field's nothing is found among the members. -/
theorem lookup_membersOf_none (fields : List (RecordField ρ)) (values : List (Option Value))
    (key : String) (foreign : key ∉ fields.map (·.key)) :
    (membersOf fields values).reverse.lookup key = none := by
  induction fields generalizing values with
  | nil => rfl
  | cons field fields inductionHypothesis =>
    rw [List.map_cons, List.mem_cons, not_or] at foreign
    cases values with
    | nil => rfl
    | cons value values =>
      rw [membersOf, List.reverse_append, List.lookup_append, lookup_optionalMember,
        if_neg foreign.1, inductionHypothesis values foreign.2]
      rfl

/-- Among the members, the last one first, that of a field is found under the key of the field. -/
theorem lookup_membersOf (fields : List (RecordField ρ)) (values : List (Option Value))
    (distinct : (fields.map (·.key)).Nodup) (index : Nat) (key : String) (value : Option Value)
    (named : (fields.map (·.key))[index]? = some key) (given : values[index]? = some value) :
    (membersOf fields values).reverse.lookup key = value := by
  induction fields generalizing values index with
  | nil => cases named
  | cons first fields inductionHypothesis =>
    rw [List.map_cons, List.nodup_cons] at distinct
    cases values with
    | nil => cases given
    | cons other values =>
      rw [membersOf, List.reverse_append, List.lookup_append, lookup_optionalMember]
      cases index with
      | zero =>
        cases named
        cases given
        rw [lookup_membersOf_none fields values first.key distinct.1, if_pos rfl]
        rfl
      | succ index =>
        have apart : key ≠ first.key := fun same =>
          distinct.1 (same ▸ List.mem_of_getElem? named)
        rw [inductionHypothesis values distinct.2 index named given, if_neg apart, Option.or_none]

/-- A record that is written in the order of its fields is read if what is taken makes it
complete. -/
theorem read_record (name : ρ) (values results : List (Option Value))
    (distinct : ((schema name).fields.map (·.key)).Nodup)
    (take : FieldsTake schema (schema name).fields values results)
    (complete : (schema name).complete (membersOf (schema name).fields results).reverse =
      .ok (membersOf (schema name).fields results).reverse) :
    (Value.object (membersOf (schema name).fields values)).draft.read schema (.record name) =
      .ok (.object (membersOf (schema name).fields results).reverse) := by
  have read := readRecord_membersOf schema (schema name) (schema name).fields values results [] take
    (find?_key RecordField.key (schema name).fields distinct) distinct fun _ _ => rfl
  rw [List.append_nil, complete] at read
  simp only [Value.draft, Draft.read, read]
  rfl

/-- A lenient record is complete whatever it gives. -/
theorem complete_of_lenient (record : Record ρ) (given : List (String × Value))
    (lenient : record.lenient) : record.complete given = .ok given := by
  have missing : record.missing? (given.map (·.1)) = none := by
    simp [Record.missing?, Record.mayOmit, lenient]
  rw [Record.complete, missing]

/-- If every field is given a value, the members have the keys of the fields. -/
theorem keys_membersOf (fields : List (RecordField ρ)) (values : List Value)
    (full : values.length = fields.length) :
    (membersOf fields (values.map some)).map (·.1) = fields.map (·.key) := by
  induction fields generalizing values with
  | nil =>
    obtain rfl : values = [] := List.eq_nil_of_length_eq_zero full
    rfl
  | cons field fields inductionHypothesis =>
    obtain ⟨value, values, rfl⟩ := List.exists_cons_of_length_eq_add_one full
    have others := inductionHypothesis values (Nat.succ.inj full)
    rw [List.map_cons, membersOf, optionalMember, List.singleton_append, List.map_cons, others,
      List.map_cons]

/-- A record is complete if every field is given a value. -/
theorem complete_of_full (record : Record ρ) (values : List Value)
    (full : values.length = record.fields.length) :
    record.complete (membersOf record.fields (values.map some)).reverse =
      .ok (membersOf record.fields (values.map some)).reverse := by
  have keys : (membersOf record.fields (values.map some)).reverse.map (·.1) =
      (record.fields.map (·.key)).reverse := by
    rw [List.map_reverse, keys_membersOf record.fields values full]
  have missing : record.missing? (record.fields.map (·.key)).reverse = none := by
    rw [Record.missing?, Option.map_eq_none_iff, List.find?_eq_none]
    intro field member
    have given : field.key ∈ (record.fields.map (·.key)).reverse :=
      List.mem_reverse.mpr (List.mem_map_of_mem member)
    simp [given]
  rw [Record.complete, keys, missing]

/-- As many values are taken as there are fields. -/
theorem length_of_fieldsTake (fields : List (RecordField ρ)) (values results : List (Option Value))
    (take : FieldsTake schema fields values results) : results.length = fields.length := by
  induction take with
  | nil => rfl
  | cons _ _ _ _ _ _ _ _ inductionHypothesis =>
    rw [List.length_cons, List.length_cons, inductionHypothesis]

/-- A record is read if every field takes the value that it is given. -/
theorem read_fullRecord (name : ρ) (values results : List Value)
    (distinct : ((schema name).fields.map (·.key)).Nodup)
    (take : FieldsTake schema (schema name).fields (values.map some) (results.map some)) :
    (Value.object (membersOf (schema name).fields (values.map some))).draft.read schema
        (.record name) =
      .ok (.object (membersOf (schema name).fields (results.map some)).reverse) := by
  have full := length_of_fieldsTake schema _ _ _ take
  rw [List.length_map] at full
  exact read_record schema name _ _ distinct take (complete_of_full (schema name) results full)

/-- A text is taken as it is. -/
theorem takes_text (field : RecordField ρ) (text : String) (shape : field.shape = .text) :
    field.Takes schema (.string text) (.string text) := by
  have filled : (field.nullable && (Value.string text).draft.isNull) = false := by
    simp [Value.draft, Draft.isNull]
  rw [RecordField.Takes, filled, shape]
  simp only [Bool.false_eq_true, if_false, Value.draft, Draft.read, string_spell]
  rfl

/-- A text that may be absent is taken as it is. -/
theorem takes_optionalText (field : RecordField ρ) (text : Option String)
    (shape : field.shape = .text) :
    Option.Rel (field.Takes schema) (text.map .string) (text.map .string) := by
  cases text with
  | none => exact Option.Rel.none
  | some text => exact Option.Rel.some (takes_text schema field text shape)

/-- A null is taken by a field that may be null, and so is a text. -/
theorem takes_textOrNull (field : RecordField ρ) (text : Option String) (shape : field.shape = .text)
    (mayBeNull : field.nullable) :
    field.Takes schema (optionalText text) (optionalText text) := by
  cases text with
  | none =>
    have null : (field.nullable && (optionalText none).draft.isNull) = true := by
      rw [mayBeNull]
      rfl
    rw [RecordField.Takes, null]
    rfl
  | some text => exact takes_text schema field text shape

/-- A truth value is taken as it is. -/
theorem takes_flag (field : RecordField ρ) (truth : Bool) (shape : field.shape = .flag) :
    field.Takes schema (.bool truth) (.bool truth) := by
  have filled : (field.nullable && (Value.bool truth).draft.isNull) = false := by
    simp [Value.draft, Draft.isNull]
  rw [RecordField.Takes, filled, shape]
  rfl

/-- One of the names that a field admits is taken as it is. -/
theorem takes_variant (field : RecordField ρ) (names : List String) (name : String)
    (shape : field.shape = .variant names) (known : name ∈ names) :
    field.Takes schema (.string name) (.string name) := by
  have filled : (field.nullable && (Value.string name).draft.isNull) = false := by
    simp [Value.draft, Draft.isNull]
  have listed : names.contains name = true := List.contains_iff_mem.mpr known
  rw [RecordField.Takes, filled, shape]
  simp only [Bool.false_eq_true, if_false, Value.draft, Draft.read, Draft.variant,
    Spelling.variant, string_spell, bind, Except.bind, if_pos listed]
  rfl

/-- Items that are read one by one are read as a list. -/
theorem read_items {α : Type} (item : Shape ρ) (toValue : α → Value) (ofValue : Value → α)
    (items : List α)
    (each : ∀ one ∈ items, ∃ result, (toValue one).draft.read schema item = .ok result ∧
      ofValue result = one) :
    ∃ results, (Value.itemsDraft (items.map toValue)).read schema item = .ok results ∧
      results.map ofValue = items := by
  induction items with
  | nil => exact ⟨[], rfl, rfl⟩
  | cons one rest inductionHypothesis =>
    obtain ⟨result, read, restored⟩ := each one List.mem_cons_self
    obtain ⟨results, others, restoredRest⟩ := inductionHypothesis fun other member =>
      each other (List.mem_cons_of_mem one member)
    refine ⟨result :: results, ?_, ?_⟩
    · simp only [List.map_cons, Value.itemsDraft, DraftItems.read, read, others, bind, Except.bind,
        pure, Except.pure]
    · rw [List.map_cons, restored, restoredRest]

/-- A list of items that are read one by one is taken. -/
theorem takes_list {α : Type} (field : RecordField ρ) (item : Shape ρ) (toValue : α → Value)
    (ofValue : Value → α) (items : List α) (shape : field.shape = .list item)
    (each : ∀ one ∈ items, ∃ result, (toValue one).draft.read schema item = .ok result ∧
      ofValue result = one) :
    ∃ results, field.Takes schema (.array (items.map toValue)) (.array results) ∧
      results.map ofValue = items := by
  obtain ⟨results, read, restored⟩ := read_items schema item toValue ofValue items each
  have filled : (field.nullable && (Value.array (items.map toValue)).draft.isNull) = false := by
    simp [Value.draft, Draft.isNull]
  refine ⟨results, ?_, restored⟩
  rw [RecordField.Takes, filled, shape]
  simp only [Bool.false_eq_true, if_false, Value.draft, Draft.read, read]
  rfl

end Workflow.Json
