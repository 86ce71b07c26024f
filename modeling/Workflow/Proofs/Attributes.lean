import Workflow.Proofs.InOrder
import Workflow.Step.Metadata

/-!
# What the attributes of a task must be

Three attributes of a task are reserved. The strategy code is an integer that a
signed word holds, or a text that spells one between blanks; the parameter is a text,
a number or a truth value; the permissions are a list of objects without nested
values. Each may be absent or null. The predicates here say so without reference to
the functions that read the attributes, and each reader succeeds exactly on what its
predicate allows. `AttributeFault` names the first reserved attribute that a task's
kind gives a meaning to and that is not what it must be, with the rule it breaks.
-/

namespace Workflow

open Json (Value)

namespace Decimal

/-- An integer and a text that spells it: digits, with at most one sign in front. -/
inductive Spells : List Char → Int → Prop
  | plain (digits : List Char) (some_digit : digits ≠ []) (decimal : digits.all Char.isDigit) :
      Spells digits (Nat.ofDigitChars 10 digits 0)
  | plus (digits : List Char) (some_digit : digits ≠ []) (decimal : digits.all Char.isDigit) :
      Spells ('+' :: digits) (Nat.ofDigitChars 10 digits 0)
  | minus (digits : List Char) (some_digit : digits ≠ []) (decimal : digits.all Char.isDigit) :
      Spells ('-' :: digits) (-(Nat.ofDigitChars 10 digits 0 : Int))

/-- A digit text is read as its decimal value. -/
theorem natural?_eq_some_iff (text : List Char) (n : Nat) :
    natural? text = some n ↔
      text ≠ [] ∧ text.all Char.isDigit = true ∧ Nat.ofDigitChars 10 text 0 = n := by
  simp [natural?, and_assoc]

/-- The reader of integers reads exactly the texts that spell one. -/
theorem integer?_eq_some_iff (text : List Char) (n : Int) :
    integer? text = some n ↔ Spells text n := by
  constructor
  · intro read
    unfold integer? at read
    split at read <;> rw [Option.map_eq_some_iff] at read
    · obtain ⟨magnitude, digits, rfl⟩ := read
      obtain ⟨some_digit, decimal, rfl⟩ := (natural?_eq_some_iff _ _).mp digits
      exact Spells.minus _ some_digit decimal
    · obtain ⟨magnitude, digits, rfl⟩ := read
      obtain ⟨some_digit, decimal, rfl⟩ := (natural?_eq_some_iff _ _).mp digits
      exact Spells.plus _ some_digit decimal
    · obtain ⟨magnitude, digits, rfl⟩ := read
      obtain ⟨some_digit, decimal, rfl⟩ := (natural?_eq_some_iff _ _).mp digits
      exact Spells.plain _ some_digit decimal
  · intro spelled
    cases spelled with
    | plain _ some_digit decimal =>
      have read := (natural?_eq_some_iff text _).mpr ⟨some_digit, decimal, rfl⟩
      -- A digit is no sign, so the text falls through to the last case of the reader.
      unfold integer?
      split
      · simp at decimal
      · simp at decimal
      · simp [read]
    | plus digits some_digit decimal =>
      simp [integer?, (natural?_eq_some_iff digits _).mpr ⟨some_digit, decimal, rfl⟩]
    | minus digits some_digit decimal =>
      simp [integer?, (natural?_eq_some_iff digits _).mpr ⟨some_digit, decimal, rfl⟩]

/-- The integers of a signed word of 64 bits. -/
def Signed64 (n : Int) : Prop := -9223372036854775808 ≤ n ∧ n ≤ 9223372036854775807

/-- The test for signed words is exact. -/
theorem fitsSigned64_iff (n : Int) : fitsSigned64 n = true ↔ Signed64 n := by
  simp [fitsSigned64, Signed64]

end Decimal

/-- What the strategy code may be. -/
inductive StrategyValid : Option Value → Prop
  | absent : StrategyValid none
  | null : StrategyValid (some .null)
  | number (n : Int) (word : Decimal.Signed64 n) : StrategyValid (some (.number (.int n)))
  | text (text : String) (n : Int) (spelled : Decimal.Spells (Text.trim text.toList) n)
      (word : Decimal.Signed64 n) : StrategyValid (some (.string text))

/-- A value that is neither null nor made of other values. -/
inductive Scalar : Value → Prop
  | text (text : String) : Scalar (.string text)
  | number (n : Json.Number) : Scalar (.number n)
  | truth (truth : Bool) : Scalar (.bool truth)

/-- What the parameter may be. -/
inductive ParameterValid : Option Value → Prop
  | absent : ParameterValid none
  | null : ParameterValid (some .null)
  | scalar (value : Value) (scalar : Scalar value) : ParameterValid (some value)

/-- What is wrong with an entry of a permission list. -/
inductive EntryFault : Value → AttributeRule → Prop
  | notObject (entry : Value) (other : ∀ fields, entry ≠ .object fields) : EntryFault entry .objects
  | nested (fields : List (String × Value)) (field : String × Value) (member : field ∈ fields)
      (filled : field.2 ≠ .null) (composed : ¬ Scalar field.2) :
      EntryFault (.object fields) .scalars

/-- What is wrong with permissions: they are no list, or their first faulty entry is. -/
inductive PermissionsFault : Option Value → AttributeRule → Prop
  | notList (value : Value) (filled : value ≠ .null) (other : ∀ entries, value ≠ .array entries) :
      PermissionsFault (some value) .list
  | entry (entries : List Value) (rule : AttributeRule)
      (first : InOrder.FirstFault (fun _ => EntryFault) entries rule) :
      PermissionsFault (some (.array entries)) rule

/-- What permissions may be. -/
inductive PermissionsValid : Option Value → Prop
  | absent : PermissionsValid none
  | null : PermissionsValid (some .null)
  | list (entries : List Value)
      (objects : ∀ entry ∈ entries, ∃ fields, entry = .object fields ∧
        ∀ field ∈ fields, field.2 = .null ∨ Scalar field.2) :
      PermissionsValid (some (.array entries))

/-- An integer is a strategy code exactly if a signed word holds it. -/
theorem strategyCode_error_iff (n : Int) (rule : AttributeRule) :
    strategyCode n = .error rule ↔ ¬ Decimal.Signed64 n ∧ rule = .integer := by
  rw [← Decimal.fitsSigned64_iff]
  cases fits : Decimal.fitsSigned64 n <;> simp [strategyCode, fits, eq_comm]

/-- The strategy code is refused exactly if it is not what it may be, and there is one
rule for it to break. -/
theorem strategy_error_iff (value : Option Value) (rule : AttributeRule) :
    strategy value = .error rule ↔ ¬ StrategyValid value ∧ rule = .integer := by
  have refused {value : Option Value} (invalid : ¬ StrategyValid value)
      (read : strategy value = .error .integer) :
      strategy value = .error rule ↔ ¬ StrategyValid value ∧ rule = .integer := by
    simp [read, invalid, eq_comm]
  cases value with
  | none => simp [strategy, StrategyValid.absent]
  | some value =>
    cases value with
    | null => simp [strategy, StrategyValid.null]
    | number n =>
      cases n with
      | int n =>
        have valid : StrategyValid (some (.number (.int n))) ↔ Decimal.Signed64 n :=
          ⟨fun valid => by cases valid; assumption, StrategyValid.number n⟩
        rw [valid]
        exact strategyCode_error_iff n rule
      | float x => exact refused (by rintro ⟨⟩) rfl
    | string text =>
      cases read : Decimal.integer? (Text.trim text.toList) with
      | none =>
        refine refused ?_ (by simp [strategy, read])
        intro valid
        cases valid with
        | text _ n spelled word =>
          rw [(Decimal.integer?_eq_some_iff _ n).mpr spelled] at read
          cases read
      | some n =>
        have valid : StrategyValid (some (.string text)) ↔ Decimal.Signed64 n := by
          constructor
          · intro valid
            cases valid with
            | text _ other spelled word =>
              rw [(Decimal.integer?_eq_some_iff _ other).mpr spelled] at read
              exact Option.some.inj read ▸ word
          · exact StrategyValid.text text n ((Decimal.integer?_eq_some_iff _ n).mp read)
        rw [valid, ← strategyCode_error_iff n rule]
        simp [strategy, read]
    | bool truth => exact refused (by rintro ⟨⟩) rfl
    | array items => exact refused (by rintro ⟨⟩) rfl
    | object members => exact refused (by rintro ⟨⟩) rfl

/-- Exactly the scalars have a text. -/
theorem scalarText?_isSome_iff (value : Value) : (scalarText? value).isSome ↔ Scalar value := by
  constructor
  · intro told
    cases value with
    | string text => exact Scalar.text text
    | number n => exact Scalar.number n
    | bool truth => exact Scalar.truth truth
    | null => simp [scalarText?] at told
    | array items => simp [scalarText?] at told
    | object members => simp [scalarText?] at told
  · intro scalar
    cases scalar with
    | text text => rfl
    | number n => rfl
    | truth truth => cases truth <;> rfl

/-- A value that is no scalar has no text. -/
theorem scalarText?_eq_none_iff (value : Value) : scalarText? value = none ↔ ¬ Scalar value := by
  rw [← scalarText?_isSome_iff]
  cases scalarText? value <;> simp

/-- The parameter is refused exactly if it is not what it may be, and there is one rule
for it to break. -/
theorem parameter_error_iff (value : Option Value) (rule : AttributeRule) :
    parameter value = .error rule ↔ ¬ ParameterValid value ∧ rule = .scalar := by
  cases value with
  | none => simp [parameter, ParameterValid.absent]
  | some value =>
    by_cases null : value = .null
    · subst null
      simp [parameter, ParameterValid.null]
    · have valid : ParameterValid (some value) ↔ Scalar value := by
        constructor
        · intro valid
          cases valid with
          | null => exact False.elim (null rfl)
          | scalar _ scalar => exact scalar
        · exact ParameterValid.scalar value
      rw [valid, ← scalarText?_eq_none_iff]
      cases told : scalarText? value <;> simp [parameter, told, eq_comm]

/-- The fields of an entry are refused exactly if one of them is a nested value. -/
theorem permissionFields_error_iff (fields : List (String × Value)) (rule : AttributeRule) :
    permissionFields fields = .error rule ↔
      (∃ field ∈ fields, field.2 ≠ .null ∧ ¬ Scalar field.2) ∧ rule = .scalars := by
  induction fields with
  | nil => simp [permissionFields]
  | cons field rest inductionHypothesis =>
    obtain ⟨key, value⟩ := field
    by_cases null : value = .null
    · subst null
      simpa [permissionFields] using inductionHypothesis
    · rw [List.exists_mem_cons_iff]
      cases told : scalarText? value with
      | none =>
        have nested : ¬ Scalar value := (scalarText?_eq_none_iff value).mp told
        simp [permissionFields, told, null, nested, eq_comm]
      | some text =>
        have scalar : Scalar value := (scalarText?_isSome_iff value).mp (by simp [told])
        simp [permissionFields, told, scalar, InOrder.map_error_iff, inductionHypothesis]

/-- The fields of one entry. -/
def permissionEntry : Value → Except AttributeRule (List (String × String))
  | .object fields => permissionFields fields
  | _ => .error .objects

/-- An entry is refused exactly for its fault. -/
theorem permissionEntry_error_iff (entry : Value) (rule : AttributeRule) :
    permissionEntry entry = .error rule ↔ EntryFault entry rule := by
  by_cases object : ∃ fields, entry = .object fields
  · obtain ⟨fields, rfl⟩ := object
    rw [permissionEntry, permissionFields_error_iff]
    constructor
    · rintro ⟨⟨field, member, filled, nested⟩, rfl⟩
      exact EntryFault.nested fields field member filled nested
    · intro fault
      cases fault with
      | notObject _ other => exact False.elim (other fields rfl)
      | nested _ field member filled nested => exact ⟨⟨field, member, filled, nested⟩, rfl⟩
  · have other : ∀ fields, entry ≠ .object fields := by
      intro fields same
      exact object ⟨fields, same⟩
    have refused : permissionEntry entry = .error .objects := by
      unfold permissionEntry
      split
      · exact False.elim (other _ rfl)
      · rfl
    rw [refused]
    constructor
    · rintro ⟨⟩
      exact EntryFault.notObject entry other
    · intro fault
      cases fault with
      | notObject => rfl
      | nested fields => exact False.elim (other fields rfl)

/-- The entries of a permission list are read in their order. -/
theorem permissionEntries_eq (entries : List Value) :
    permissionEntries entries = InOrder.examine (fun _ => permissionEntry) entries := by
  induction entries with
  | nil => rfl
  | cons entry rest inductionHypothesis =>
    rw [InOrder.examine, ← inductionHypothesis]
    cases entry with
    | object fields =>
      cases read : permissionFields fields with
      | error rule => simp [permissionEntries, permissionEntry, read, bind, Except.bind]
      | ok entry =>
        cases others : permissionEntries rest <;>
          simp [permissionEntries, permissionEntry, read, others, bind, Except.bind, pure,
            Except.pure, Except.map]
    | null => rfl
    | bool truth => rfl
    | number n => rfl
    | string text => rfl
    | array items => rfl

/-- Permissions are refused exactly for their fault. -/
theorem permissions_error_iff (value : Option Value) (rule : AttributeRule) :
    permissions value = .error rule ↔ PermissionsFault value rule := by
  have entries_error (entries : List Value) :
      permissionEntries entries = .error rule ↔
        InOrder.FirstFault (fun _ => EntryFault) entries rule := by
    rw [permissionEntries_eq]
    exact InOrder.examine_error_iff _ _ (fun _ => permissionEntry_error_iff) entries rule
  constructor
  · intro refused
    unfold permissions at refused
    split at refused
    · cases refused
    · cases refused
    · exact PermissionsFault.entry _ rule ((entries_error _).mp refused)
    · rename_i value notNull notList
      cases refused
      exact PermissionsFault.notList value (fun same => notNull same) (fun _ same => notList _ same)
  · intro fault
    cases fault with
    | notList value filled other =>
      unfold permissions
      split
      · rename_i absent; cases absent
      · rename_i null; cases null; exact False.elim (filled rfl)
      · rename_i items list; cases list; exact False.elim (other items rfl)
      · rfl
    | entry entries rule first => exact (entries_error entries).mpr first

/-- An entry has no fault exactly if it is an object without nested values. -/
theorem entry_faultless_iff (entry : Value) :
    (∀ rule, ¬ EntryFault entry rule) ↔
      ∃ fields, entry = .object fields ∧ ∀ field ∈ fields, field.2 = .null ∨ Scalar field.2 := by
  constructor
  · intro faultless
    have object : ∃ fields, entry = .object fields := by
      by_contra other
      exact faultless .objects (EntryFault.notObject entry fun fields same => other ⟨fields, same⟩)
    obtain ⟨fields, rfl⟩ := object
    refine ⟨fields, rfl, ?_⟩
    intro field member
    by_contra nested
    rw [not_or] at nested
    exact faultless .scalars (EntryFault.nested fields field member nested.1 nested.2)
  · rintro ⟨fields, rfl, flat⟩ rule fault
    cases fault with
    | notObject _ other => exact other fields rfl
    | nested _ field member filled nested => exact (flat field member).elim filled nested

/-- Permissions have no fault exactly if they are what they may be. -/
theorem permissionsValid_iff (value : Option Value) :
    PermissionsValid value ↔ ∀ rule, ¬ PermissionsFault value rule := by
  have list_faultless (entries : List Value) :
      (∀ rule, ¬ InOrder.FirstFault (fun _ => EntryFault) entries rule) ↔
        ∀ entry ∈ entries, ∃ fields, entry = .object fields ∧
          ∀ field ∈ fields, field.2 = .null ∨ Scalar field.2 := by
    rw [← InOrder.faultless_iff, InOrder.faultless_const_iff]
    exact forall₂_congr fun entry _ => entry_faultless_iff entry
  constructor
  · intro valid rule fault
    cases fault with
    | notList value filled other =>
      cases valid with
      | null => exact filled rfl
      | list entries _ => exact other entries rfl
    | entry entries _ first =>
      cases valid with
      | list _ objects => exact (list_faultless entries).mpr objects rule first
  · intro faultless
    cases value with
    | none => exact PermissionsValid.absent
    | some value =>
      by_cases null : value = .null
      · exact null ▸ PermissionsValid.null
      · by_cases list : ∃ entries, value = .array entries
        · obtain ⟨entries, rfl⟩ := list
          apply PermissionsValid.list entries
          apply (list_faultless entries).mp
          intro rule first
          exact faultless rule (PermissionsFault.entry entries rule first)
        · exact False.elim (faultless .list
            (PermissionsFault.notList value null fun entries same => list ⟨entries, same⟩))

/-- The kinds whose candidates are read. -/
def StepKind.isTask : StepKind → Bool
  | userTask | copyTask => true
  | _ => false

/-- The first reserved attribute of a step that is not what the step's kind asks for,
with the rule it breaks. The permissions of a copy task are not looked at. -/
inductive AttributeFault (step : Step) (kind : StepKind) : String → AttributeRule → Prop
  | strategy (task : kind.isTask)
      (fault : ¬ StrategyValid (step.attributes.lookup strategyKey)) :
      AttributeFault step kind strategyKey .integer
  | parameter (task : kind.isTask)
      (code : StrategyValid (step.attributes.lookup strategyKey))
      (fault : ¬ ParameterValid (step.attributes.lookup parameterKey)) :
      AttributeFault step kind parameterKey .scalar
  | permissions (rule : AttributeRule) (user : kind = .userTask)
      (code : StrategyValid (step.attributes.lookup strategyKey))
      (text : ParameterValid (step.attributes.lookup parameterKey))
      (fault : PermissionsFault (step.attributes.lookup permissionsKey) rule) :
      AttributeFault step kind permissionsKey rule

/-- The reserved attributes of a step are what the step's kind asks for. -/
structure AttributesValid (step : Step) (kind : StepKind) : Prop where
  code : kind.isTask → StrategyValid (step.attributes.lookup strategyKey)
  text : kind.isTask → ParameterValid (step.attributes.lookup parameterKey)
  permissions : kind = .userTask → PermissionsValid (step.attributes.lookup permissionsKey)

/-- Attributes have no fault exactly if they are all valid. -/
theorem attributesValid_iff (step : Step) (kind : StepKind) :
    AttributesValid step kind ↔ ∀ key rule, ¬ AttributeFault step kind key rule := by
  constructor
  · intro valid key rule fault
    cases fault with
    | strategy task fault => exact fault (valid.code task)
    | parameter task _ fault => exact fault (valid.text task)
    | permissions rule user _ _ fault =>
      exact (permissionsValid_iff _).mp (valid.permissions user) rule fault
  · intro faultless
    have code (task : kind.isTask) : StrategyValid (step.attributes.lookup strategyKey) := by
      by_contra fault
      exact faultless _ _ (AttributeFault.strategy task fault)
    have text (task : kind.isTask) : ParameterValid (step.attributes.lookup parameterKey) := by
      by_contra fault
      exact faultless _ _ (AttributeFault.parameter task (code task) fault)
    refine ⟨code, text, ?_⟩
    intro user
    have task : kind.isTask := user ▸ rfl
    rw [permissionsValid_iff]
    intro rule fault
    exact faultless _ _ (AttributeFault.permissions rule user (code task) (text task) fault)

end Workflow
