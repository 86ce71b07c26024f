import Workflow.Proofs.Reading
import Workflow.Proofs.Validity

/-!
# What the extensions of an element say

The reserved attributes of a task come out as extensions of its element, and elements of other
steps have none. The relations here say what an attribute tells, without reference to the
functions that read it: a strategy code tells a decimal, a parameter the text of a scalar, and
permissions one list of names and texts for every entry. `Element.Carries` fixes the extensions
of an element, in their order, together with what the look-ups on the element find.

`compile_metadata` says that every element of a compiled net carries what the attributes of its
step tell, and nothing else, and that the element of a task is refused exactly for attributes
that are not what they must be.
-/

namespace Workflow

open Json (Value)

/-- A scalar and its text. -/
inductive ScalarText : Value → String → Prop
  | text (text : String) : ScalarText (.string text) text
  | number (n : Json.Number) : ScalarText (.number n) (String.ofList n.text)
  | truth (truth : Bool) : ScalarText (.bool truth) (if truth then "true" else "false")

/-- What a parameter tells, which is nothing if it is absent or null. -/
inductive ParameterTells : Option Value → Option String → Prop
  | absent : ParameterTells none none
  | null : ParameterTells (some .null) none
  | scalar (value : Value) (text : String) (told : ScalarText value text) :
      ParameterTells (some value) (some text)

/-- What a strategy code tells: the decimal of the integer that it is or spells, and nothing if
it is absent or null. -/
inductive StrategyTells : Option Value → Option String → Prop
  | absent : StrategyTells none none
  | null : StrategyTells (some .null) none
  | number (n : Int) (word : Decimal.Signed64 n) :
      StrategyTells (some (.number (.int n))) (some (String.ofList (Json.intText n)))
  | text (text : String) (n : Int) (spelled : Decimal.Spells (Text.trim text.toList) n)
      (word : Decimal.Signed64 n) :
      StrategyTells (some (.string text)) (some (String.ofList (Json.intText n)))

/-- The fields of a permission entry and the extension for it. Its attributes are the fields that
are not null, in ascending order of their keys and hence each once, with the texts of their
values; and every key finds what the field under it tells. -/
structure EntryTells (fields : List (String × Value)) (extension : Extension) : Prop where
  flat : ∀ field ∈ fields, field.2 = .null ∨ Scalar field.2
  made : ∃ entry : List (String × String), extension = .ofAttributes permissionsKey entry ∧
    (entry.map (·.1)).Pairwise (· < ·) ∧
    ∀ key text, (key, text) ∈ entry ↔ ∃ value, (key, value) ∈ fields ∧ ScalarText value text
  found : ∀ key, ParameterTells (fields.lookup key) (extension.attribute? key)

/-- What permissions tell: one extension for every entry, in the order of the entries. -/
inductive PermissionsTell : Option Value → List Extension → Prop
  | absent : PermissionsTell none []
  | null : PermissionsTell (some .null) []
  | list (entries : List Value) (extensions : List Extension)
      (each : List.Forall₂ (fun entry extension =>
        ∃ fields, entry = .object fields ∧ EntryTells fields extension) entries extensions) :
      PermissionsTell (some (.array entries)) extensions

/-- The extension with a text, if there is one. -/
def textExtensions (key : String) (text : Option String) : List Extension :=
  (text.map (Extension.ofText key)).toList

/-- An element has the extensions of a code, then of a parameter, then for permissions, and no
others. Each of the three is found under its key, and nothing under other keys. -/
structure Element.Carries (element : Element) (code parameter : Option String)
    (permissions : List Extension) : Prop where
  extensions : element.extensions =
    textExtensions strategyKey code ++ textExtensions parameterKey parameter ++ permissions
  codeNamed : element.extensionsNamed strategyKey = textExtensions strategyKey code
  codeText : element.extensionText? strategyKey = code
  parameterNamed : element.extensionsNamed parameterKey = textExtensions parameterKey parameter
  parameterText : element.extensionText? parameterKey = parameter
  permissionsNamed : element.extensionsNamed permissionsKey = permissions
  otherNamed : ∀ key, key ≠ strategyKey → key ≠ parameterKey → key ≠ permissionsKey →
    element.extensionsNamed key = []

/-- What the element of a step of a kind carries. The permissions of a copy task are not looked
at, and neither is any attribute of a step that is no task. -/
inductive Step.Metadata (step : Step) : StepKind → Element → Prop
  | userTask (element : Element) (code parameter : Option String) (permissions : List Extension)
      (codeTold : StrategyTells (step.attributes.lookup strategyKey) code)
      (parameterTold : ParameterTells (step.attributes.lookup parameterKey) parameter)
      (permissionsTold : PermissionsTell (step.attributes.lookup permissionsKey) permissions)
      (carries : element.Carries code parameter permissions) : Metadata step .userTask element
  | copyTask (element : Element) (code parameter : Option String)
      (codeTold : StrategyTells (step.attributes.lookup strategyKey) code)
      (parameterTold : ParameterTells (step.attributes.lookup parameterKey) parameter)
      (carries : element.Carries code parameter []) : Metadata step .copyTask element
  | other (kind : StepKind) (element : Element) (noTask : kind.isTask = false)
      (bare : element.extensions = []) : Metadata step kind element

/-- The text of a value is that of the scalar it is. -/
theorem scalarText?_eq_some_iff (value : Value) (text : String) :
    scalarText? value = some text ↔ ScalarText value text := by
  constructor
  · intro told
    have scalar : Scalar value := (scalarText?_isSome_iff value).mp (by simp [told])
    cases scalar with
    | text held => exact Option.some.inj told ▸ ScalarText.text held
    | number n => exact Option.some.inj told ▸ ScalarText.number n
    | truth truth =>
      cases truth with
      | true => exact Option.some.inj told ▸ ScalarText.truth true
      | false => exact Option.some.inj told ▸ ScalarText.truth false
  · intro told
    cases told with
    | text => rfl
    | number => rfl
    | truth truth => cases truth <;> rfl

/-- A null has no text. -/
theorem not_scalarText_null (text : String) : ¬ ScalarText .null text := by
  intro told
  cases told

/-- A parameter that is read is what the attribute tells. -/
theorem parameterTells_of_ok (value : Option Value) (text : Option String)
    (read : parameter value = .ok text) : ParameterTells value text := by
  unfold parameter at read
  split at read
  · cases read
    exact ParameterTells.absent
  · cases read
    exact ParameterTells.null
  · split at read
    · rename_i told
      cases read
      exact ParameterTells.scalar _ _ ((scalarText?_eq_some_iff _ _).mp told)
    · cases read

/-- A strategy code is an integer that a signed word holds. -/
theorem strategyCode_ok_iff (n : Int) (code : Option Int) :
    strategyCode n = .ok code ↔ Decimal.Signed64 n ∧ code = some n := by
  rw [← Decimal.fitsSigned64_iff]
  cases fits : Decimal.fitsSigned64 n <;> simp [strategyCode, fits, eq_comm]

/-- A strategy code that is read is an integer that a signed word holds. -/
theorem word_of_strategy (value : Option Value) (n : Int) (read : strategy value = .ok (some n)) :
    Decimal.Signed64 n := by
  have ofCode (found : Int) (read : strategyCode found = .ok (some n)) : Decimal.Signed64 n := by
    obtain ⟨word, same⟩ := (strategyCode_ok_iff found _).mp read
    exact Option.some.inj same ▸ word
  unfold strategy at read
  split at read
  · cases read
  · cases read
  · exact ofCode _ read
  · split at read
    · exact ofCode _ read
    · cases read
  · cases read

/-- A strategy code tells the decimal of the integer that is read, and nothing if none is. -/
theorem strategyTells_iff (value : Option Value) (text : Option String) :
    StrategyTells value text ↔
      ∃ code, strategy value = .ok code ∧ text = code.map fun n => String.ofList (Json.intText n) := by
  constructor
  · intro tells
    cases tells with
    | absent => exact ⟨none, rfl, rfl⟩
    | null => exact ⟨none, rfl, rfl⟩
    | number n word => exact ⟨some n, (strategyCode_ok_iff n _).mpr ⟨word, rfl⟩, rfl⟩
    | text text n spelled word =>
      refine ⟨some n, ?_, rfl⟩
      simp only [strategy, (Decimal.integer?_eq_some_iff _ n).mpr spelled]
      exact (strategyCode_ok_iff n _).mpr ⟨word, rfl⟩
  · rintro ⟨code, read, rfl⟩
    unfold strategy at read
    split at read
    · cases read
      exact StrategyTells.absent
    · cases read
      exact StrategyTells.null
    · obtain ⟨word, rfl⟩ := (strategyCode_ok_iff _ _).mp read
      exact StrategyTells.number _ word
    · split at read
      · rename_i spelled
        obtain ⟨word, rfl⟩ := (strategyCode_ok_iff _ _).mp read
        exact StrategyTells.text _ _ ((Decimal.integer?_eq_some_iff _ _).mp spelled) word
      · cases read
    · cases read

/-- The entry of some fields begins with the text of the first one, unless this is null. -/
theorem permissionFields_cons_ok (key : String) (value : Value) (rest : List (String × Value))
    (entry : List (String × String)) (read : permissionFields ((key, value) :: rest) = .ok entry) :
    (value = .null ∧ permissionFields rest = .ok entry) ∨
      ∃ text others, ScalarText value text ∧ permissionFields rest = .ok others ∧
        entry = (key, text) :: others := by
  by_cases null : value = .null
  · subst null
    exact Or.inl ⟨rfl, read⟩
  · right
    rw [permissionFields.eq_3 key value rest null] at read
    split at read
    · rename_i text told
      obtain ⟨others, rest_read, rfl⟩ := (InOrder.map_ok_iff _ _ _).mp read
      exact ⟨text, others, (scalarText?_eq_some_iff value text).mp told, rest_read, rfl⟩
    · cases read

/-- An entry has the texts of the fields that have one. -/
theorem mem_permissionFields (fields : List (String × Value)) (entry : List (String × String))
    (read : permissionFields fields = .ok entry) (key text : String) :
    (key, text) ∈ entry ↔ ∃ value, (key, value) ∈ fields ∧ ScalarText value text := by
  induction fields generalizing entry with
  | nil =>
    cases read
    simp
  | cons field rest inductionHypothesis =>
    obtain ⟨first, held⟩ := field
    rcases permissionFields_cons_ok first held rest entry read with
      ⟨rfl, rest_read⟩ | ⟨spoken, others, told, rest_read, rfl⟩
    · rw [inductionHypothesis entry rest_read]
      constructor
      · rintro ⟨value, member, told⟩
        exact ⟨value, List.mem_cons_of_mem _ member, told⟩
      · rintro ⟨value, member, told⟩
        rcases List.mem_cons.mp member with same | member
        · cases same
          exact False.elim (not_scalarText_null text told)
        · exact ⟨value, member, told⟩
    · rw [List.mem_cons, inductionHypothesis others rest_read]
      have only : ScalarText held text ↔ text = spoken := by
        rw [← scalarText?_eq_some_iff, (scalarText?_eq_some_iff held spoken).mpr told,
          Option.some.injEq, eq_comm]
      constructor
      · rintro (same | ⟨value, member, told⟩)
        · cases same
          exact ⟨held, List.mem_cons_self, told⟩
        · exact ⟨value, List.mem_cons_of_mem _ member, told⟩
      · rintro ⟨value, member, toldText⟩
        rcases List.mem_cons.mp member with same | member
        · cases same
          exact Or.inl (by rw [only.mp toldText])
        · exact Or.inr ⟨value, member, toldText⟩

/-- The keys of an entry are among those of the fields, in their order. -/
theorem permissionFields_sublist (fields : List (String × Value)) (entry : List (String × String))
    (read : permissionFields fields = .ok entry) :
    (entry.map (·.1)).Sublist (fields.map (·.1)) := by
  induction fields generalizing entry with
  | nil =>
    cases read
    exact List.Sublist.slnil
  | cons field rest inductionHypothesis =>
    obtain ⟨first, held⟩ := field
    rcases permissionFields_cons_ok first held rest entry read with
      ⟨rfl, rest_read⟩ | ⟨spoken, others, told, rest_read, rfl⟩
    · exact (inductionHypothesis entry rest_read).cons first
    · exact (inductionHypothesis others rest_read).cons_cons first

/-- A key that is not among those of some members finds nothing. -/
theorem lookup_eq_none_of_notMem {β : Type} (members : List (String × β)) (key : String)
    (free : key ∉ members.map (·.1)) : members.lookup key = none := by
  rw [List.lookup_eq_none_iff]
  intro member listed
  have apart : key ≠ member.1 := by
    rintro rfl
    exact free (List.mem_map_of_mem listed)
  simpa using apart

/-- A key finds in an entry what the field under it tells, if no two fields share a key. -/
theorem lookup_permissionFields (fields : List (String × Value)) (entry : List (String × String))
    (read : permissionFields fields = .ok entry) (distinct : (fields.map (·.1)).Nodup)
    (key : String) : ParameterTells (fields.lookup key) (entry.lookup key) := by
  induction fields generalizing entry with
  | nil =>
    cases read
    exact ParameterTells.absent
  | cons field rest inductionHypothesis =>
    obtain ⟨first, held⟩ := field
    rw [List.map_cons, List.nodup_cons] at distinct
    obtain ⟨fresh, distinct⟩ := distinct
    rcases permissionFields_cons_ok first held rest entry read with
      ⟨rfl, rest_read⟩ | ⟨spoken, others, told, rest_read, rfl⟩
    · by_cases same : key = first
      · subst same
        have free : key ∉ entry.map (·.1) := by
          intro listed
          exact fresh ((permissionFields_sublist rest entry rest_read).mem listed)
        rw [List.lookup_cons_self, lookup_eq_none_of_notMem entry key free]
        exact ParameterTells.null
      · have apart : (key == first) = false := by simpa using same
        rw [List.lookup_cons, apart]
        exact inductionHypothesis entry rest_read distinct
    · by_cases same : key = first
      · subst same
        rw [List.lookup_cons_self, List.lookup_cons_self]
        exact ParameterTells.scalar held spoken told
      · have apart : (key == first) = false := by simpa using same
        rw [List.lookup_cons, List.lookup_cons, apart]
        exact inductionHypothesis others rest_read distinct

/-- An attribute of an extension is looked up in the list that the extension was made from. -/
theorem attribute?_ofAttributes (name key : String) (entry : List (String × String)) :
    (Extension.ofAttributes name entry).attribute? key = entry.lookup key := by
  induction entry with
  | nil => rfl
  | cons member rest inductionHypothesis =>
    obtain ⟨first, text⟩ := member
    simp only [Extension.ofAttributes, Extension.attribute?, List.map_cons, List.find?_cons,
      List.lookup_cons] at inductionHypothesis ⊢
    by_cases same : key = first
    · simp [same]
    · have apart : (key == first) = false := by simpa using same
      have apartToo : (first == key) = false := by simpa using Ne.symm same
      rw [apart, apartToo]
      exact inductionHypothesis

/-- The extension of an entry that is read tells its fields. -/
theorem entryTells_of_ok (fields : List (String × Value)) (entry : List (String × String))
    (read : permissionFields fields = .ok entry) (ascending : Value.ascending fields) :
    EntryTells fields (.ofAttributes permissionsKey entry) := by
  have sorted : (fields.map (·.1)).Pairwise (· < ·) := of_decide_eq_true ascending
  have distinct : (fields.map (·.1)).Nodup := sorted.imp fun less => String.ne_of_lt less
  refine ⟨?flat, ⟨entry, rfl, ?ordered, mem_permissionFields fields entry read⟩, ?found⟩
  case flat =>
    intro field member
    by_contra nested
    rw [not_or] at nested
    have refused := (permissionFields_error_iff fields .scalars).mpr
      ⟨⟨field, member, nested.1, nested.2⟩, rfl⟩
    rw [read] at refused
    cases refused
  case ordered => exact sorted.sublist (permissionFields_sublist fields entry read)
  case found =>
    intro key
    rw [attribute?_ofAttributes]
    exact lookup_permissionFields fields entry read distinct key

/-- The extensions of permissions that are read tell the entries, if these are in key order. -/
theorem permissionsTell_of_ok (value : Option Value) (entries : List (List (String × String)))
    (read : permissions value = .ok entries)
    (ordered : ∀ held, value = some held → held.isOrdered) :
    PermissionsTell value (entries.map (Extension.ofAttributes permissionsKey)) := by
  unfold permissions at read
  split at read
  · cases read
    exact PermissionsTell.absent
  · cases read
    exact PermissionsTell.null
  · rename_i items
    have inItems : ∀ item ∈ items, item.isOrdered := by
      have whole := ordered _ rfl
      rwa [Value.isOrdered_array, List.all_eq_true] at whole
    rw [permissionEntries_eq] at read
    have each := InOrder.examine_forall₂ _ _ _ read
    refine PermissionsTell.list _ _ ?_
    rw [List.forall₂_map_right_iff]
    refine ((List.forall₂_and_left _ _).mpr ⟨inItems, each⟩).imp ?_
    rintro item entry ⟨itemOrdered, _, itemRead⟩
    cases item with
    | object fields =>
      rw [Value.isOrdered_object, Bool.and_eq_true] at itemOrdered
      exact ⟨fields, rfl, entryTells_of_ok fields entry itemRead itemOrdered.1⟩
    | null => cases itemRead
    | bool truth => cases itemRead
    | number n => cases itemRead
    | string text => cases itemRead
    | array items => cases itemRead
  · cases read

/-- Extensions that share a name are found under that name and under no other. -/
theorem filter_named (key wanted : String) (extensions : List Extension)
    (named : ∀ extension ∈ extensions, extension.name = key) :
    extensions.filter (fun extension => extension.name == wanted) =
      if key = wanted then extensions else [] := by
  split
  · rename_i same
    apply List.filter_eq_self.mpr
    intro extension member
    simpa [same] using named extension member
  · rename_i apart
    apply List.filter_eq_nil_iff.mpr
    intro extension member
    simpa [named extension member] using apart

/-- A text is found under its own key and under no other. -/
theorem filter_textExtensions (key wanted : String) (text : Option String) :
    (textExtensions key text).filter (fun extension => extension.name == wanted) =
      if key = wanted then textExtensions key text else [] := by
  apply filter_named
  cases text with
  | none => simp [textExtensions]
  | some text => simp [textExtensions, Extension.ofText]

/-- The text that is found is the one that was put there. -/
theorem findSome?_textExtensions (key : String) (text : Option String) :
    (textExtensions key text).findSome? (·.text) = text := by
  cases text <;> rfl

/-- An element whose extensions stand in their order carries what they say. -/
theorem carries_of_extensions (element : Element) (code parameter : Option String)
    (permissions : List Extension)
    (extensions : element.extensions =
      textExtensions strategyKey code ++ textExtensions parameterKey parameter ++ permissions)
    (named : ∀ extension ∈ permissions, extension.name = permissionsKey) :
    element.Carries code parameter permissions := by
  have found (key : String) : element.extensionsNamed key =
      (if strategyKey = key then textExtensions strategyKey code else []) ++
        (if parameterKey = key then textExtensions parameterKey parameter else []) ++
        (if permissionsKey = key then permissions else []) := by
    rw [Element.extensionsNamed, extensions, List.filter_append, List.filter_append,
      filter_textExtensions, filter_textExtensions, filter_named _ _ _ named]
  have codeNamed : element.extensionsNamed strategyKey = textExtensions strategyKey code := by
    simp [found, strategyKey, parameterKey, permissionsKey]
  have parameterNamed :
      element.extensionsNamed parameterKey = textExtensions parameterKey parameter := by
    simp [found, strategyKey, parameterKey, permissionsKey]
  refine ⟨extensions, codeNamed, ?codeText, parameterNamed, ?parameterText, ?permissionsNamed,
    ?otherNamed⟩
  case codeText => rw [Element.extensionText?, codeNamed, findSome?_textExtensions]
  case parameterText => rw [Element.extensionText?, parameterNamed, findSome?_textExtensions]
  case permissionsNamed => simp [found, strategyKey, parameterKey, permissionsKey]
  case otherNamed =>
    intro key noCode noParameter noPermissions
    rw [found, if_neg noCode.symm, if_neg noParameter.symm, if_neg noPermissions.symm]
    simp

/-- A result under a rule is the result. -/
theorem underRule_eq_ok {α : Type} (id key : String) (result : Except AttributeRule α) (value : α)
    (read : Step.underRule id key result = .ok value) : result = .ok value := by
  cases result with
  | error rule => cases read
  | ok held => simpa [Step.underRule] using read

/-- The candidates of a task are the texts that its code and its parameter tell. -/
theorem candidateExtensions_ok (step : Step) (id : String) (extensions : List Extension)
    (read : step.candidateExtensions id = .ok extensions) :
    ∃ code parameter, StrategyTells (step.attributes.lookup strategyKey) code ∧
      ParameterTells (step.attributes.lookup parameterKey) parameter ∧
      extensions = textExtensions strategyKey code ++ textExtensions parameterKey parameter := by
  cases readCode : Step.underRule id strategyKey (strategy (step.attributes.lookup strategyKey)) with
  | error defect => simp [Step.candidateExtensions, readCode, bind, Except.bind] at read
  | ok code =>
    cases readText :
        Step.underRule id parameterKey (parameter (step.attributes.lookup parameterKey)) with
    | error defect => simp [Step.candidateExtensions, readCode, readText, bind, Except.bind] at read
    | ok text =>
      have codeTold := (strategyTells_iff _ _).mpr ⟨code, underRule_eq_ok _ _ _ _ readCode, rfl⟩
      have textTold := parameterTells_of_ok _ text (underRule_eq_ok _ _ _ _ readText)
      refine ⟨_, text, codeTold, textTold, ?_⟩
      simp only [Step.candidateExtensions, readCode, readText, bind, Except.bind, pure, Except.pure,
        Except.ok.injEq] at read
      rw [← read, textExtensions, textExtensions, Option.map_map]
      rfl

/-- The permissions of a task are one extension for every entry that is read. -/
theorem permissionExtensions_ok (step : Step) (id : String) (extensions : List Extension)
    (read : step.permissionExtensions id = .ok extensions) :
    ∃ entries, permissions (step.attributes.lookup permissionsKey) = .ok entries ∧
      extensions = entries.map (Extension.ofAttributes permissionsKey) := by
  cases readEntries :
      Step.underRule id permissionsKey (permissions (step.attributes.lookup permissionsKey)) with
  | error defect => simp [Step.permissionExtensions, readEntries, bind, Except.bind] at read
  | ok entries =>
    simp only [Step.permissionExtensions, readEntries, bind, Except.bind, pure, Except.pure,
      Except.ok.injEq] at read
    exact ⟨entries, underRule_eq_ok _ _ _ _ readEntries, read.symm⟩

/-- The element of a copy task carries what its code and its parameter tell. -/
theorem copyTask_carries (step : Step) (id : String) (element : Element)
    (made : Element.ofStep step id .copyTask = .ok element) :
    ∃ code parameter, StrategyTells (step.attributes.lookup strategyKey) code ∧
      ParameterTells (step.attributes.lookup parameterKey) parameter ∧
      element.Carries code parameter [] := by
  cases candidates : step.candidateExtensions id with
  | error defect => simp [Element.ofStep, candidates, bind, Except.bind] at made
  | ok front =>
    simp only [Element.ofStep, candidates, bind, Except.bind, pure, Except.pure,
      Except.ok.injEq] at made
    obtain ⟨code, text, codeTold, textTold, rfl⟩ := candidateExtensions_ok step id front candidates
    refine ⟨code, text, codeTold, textTold, ?_⟩
    exact carries_of_extensions element code text [] (by rw [← made, List.append_nil]) (by simp)

/-- The element of a user task carries what its code and its parameter tell, and one extension for
every entry of its permissions that is read. -/
theorem userTask_carries (step : Step) (id : String) (element : Element)
    (made : Element.ofStep step id .userTask = .ok element) :
    ∃ code parameter entries, StrategyTells (step.attributes.lookup strategyKey) code ∧
      ParameterTells (step.attributes.lookup parameterKey) parameter ∧
      permissions (step.attributes.lookup permissionsKey) = .ok entries ∧
      element.Carries code parameter (entries.map (Extension.ofAttributes permissionsKey)) := by
  cases candidates : step.candidateExtensions id with
  | error defect => simp [Element.ofStep, candidates, bind, Except.bind] at made
  | ok front =>
    cases permissions : step.permissionExtensions id with
    | error defect => simp [Element.ofStep, candidates, permissions, bind, Except.bind] at made
    | ok back =>
      simp only [Element.ofStep, candidates, permissions, bind, Except.bind, pure, Except.pure,
        Except.ok.injEq] at made
      obtain ⟨code, text, codeTold, textTold, rfl⟩ := candidateExtensions_ok step id front candidates
      obtain ⟨entries, entriesRead, rfl⟩ := permissionExtensions_ok step id back permissions
      refine ⟨code, text, entries, codeTold, textTold, entriesRead, ?_⟩
      apply carries_of_extensions element code text _ (made ▸ rfl)
      intro extension member
      obtain ⟨entry, _, rfl⟩ := List.mem_map.mp member
      rfl

/-- The element of a task has the text that its strategy code tells. -/
theorem code_of_task (step : Step) (id : String) (kind : StepKind) (task : kind.isTask)
    (element : Element) (made : Element.ofStep step id kind = .ok element) :
    StrategyTells (step.attributes.lookup strategyKey) (element.extensionText? strategyKey) := by
  cases kind with
  | userTask =>
    obtain ⟨code, _, _, codeTold, _, _, carries⟩ := userTask_carries step id element made
    rwa [carries.codeText]
  | copyTask =>
    obtain ⟨code, _, codeTold, _, carries⟩ := copyTask_carries step id element made
    rwa [carries.codeText]
  | startEvent | exclusiveGateway | parallelFork | parallelJoin | inclusiveFork | inclusiveJoin =>
    cases task

/-- The element of a step carries what the attributes of the step tell. -/
theorem metadata_of_ofStep (step : Step) (id : String) (kind : StepKind) (element : Element)
    (ordered : (Value.object step.attributes).isOrdered)
    (made : Element.ofStep step id kind = .ok element) : step.Metadata kind element := by
  cases kind with
  | userTask =>
    obtain ⟨code, text, entries, codeTold, textTold, entriesRead, carries⟩ :=
      userTask_carries step id element made
    refine Step.Metadata.userTask element code text _ codeTold textTold ?_ carries
    apply permissionsTell_of_ok _ entries entriesRead
    intro held found
    rw [Value.isOrdered_object, Bool.and_eq_true, List.all_eq_true] at ordered
    obtain ⟨before, after, split, _⟩ := List.lookup_eq_some_iff.mp found
    exact ordered.2 (permissionsKey, held) (by simp [split])
  | copyTask =>
    obtain ⟨code, text, codeTold, textTold, carries⟩ := copyTask_carries step id element made
    exact Step.Metadata.copyTask element code text codeTold textTold carries
  | exclusiveGateway | inclusiveFork | parallelFork =>
    apply Step.Metadata.other _ element rfl
    simp only [Element.ofStep] at made
    split at made
    · cases made
    · cases made
      rfl
  | startEvent | parallelJoin | inclusiveJoin =>
    cases made
    exact Step.Metadata.other _ _ rfl rfl

/-- The element of a task is refused exactly if its reserved attributes are not in order, and
then for the first fault among them. -/
theorem task_refused_iff (step : Step) (id : String) (kind : StepKind) (task : kind.isTask) :
    ((∃ defect, Element.ofStep step id kind = .error defect) ↔ ¬ AttributesValid step kind) ∧
      ∀ defect, Element.ofStep step id kind = .error defect ↔
        ∃ key rule, AttributeFault step kind key rule ∧ defect = .badAttribute id key rule := by
  have noFork : kind.isFork = false := by
    cases kind <;> first | rfl | cases task
  have refused (defect : Defect) : Element.ofStep step id kind = .error defect ↔
      ∃ key rule, AttributeFault step kind key rule ∧ defect = .badAttribute id key rule := by
    simp [ofStep_error_iff, noFork]
  refine ⟨?_, refused⟩
  rw [attributesValid_iff]
  push Not
  constructor
  · rintro ⟨defect, found⟩
    obtain ⟨key, rule, fault, _⟩ := (refused defect).mp found
    exact ⟨key, rule, fault⟩
  · rintro ⟨key, rule, fault⟩
    exact ⟨_, (refused _).mpr ⟨key, rule, fault, rfl⟩⟩

/-- Metadata are carried completely, and only where they belong. Every element of a compiled net
carries what the attributes of its step tell, and the end event carries nothing. The element of
a task is refused exactly if the attributes that its kind asks for are not in order, and the
defect names the task and its first fault. -/
theorem compile_metadata :
    (∀ (root : Step) (processId : String) (processName : Option String) (net : Net),
      compile root processId processName = .ok net →
      (∀ step ∈ root.reached, (Value.object step.attributes).isOrdered) →
      ∃ elements, net.elements = elements ++ [endEvent] ∧ endEvent.extensions = [] ∧
        List.Forall₂ (fun step element => ∃ kind, step.kind? = some kind ∧
          element.id = step.idText ∧ step.Metadata kind element) root.reached elements) ∧
    ∀ (step : Step) (id : String) (kind : StepKind), kind.isTask →
      ((∃ defect, Element.ofStep step id kind = .error defect) ↔ ¬ AttributesValid step kind) ∧
      ∀ defect, Element.ofStep step id kind = .error defect ↔
        ∃ key rule, AttributeFault step kind key rule ∧ defect = .badAttribute id key rule := by
  refine ⟨?_, task_refused_iff⟩
  intro root processId processName net accepted ordered
  obtain ⟨_, elements, represented, rfl⟩ := compile_eq_ok root processId processName net accepted
  refine ⟨elements, rfl, rfl, ?_⟩
  refine ((List.forall₂_and_left _ _).mpr ⟨ordered, represented⟩).imp ?_
  rintro step element ⟨stepOrdered, kind, known, made⟩
  exact ⟨kind, known, (ofStep_ok _ _ _ _ made).1, metadata_of_ofStep step _ kind element
    stepOrdered made⟩

/-- A task with all three reserved attributes, one of its entries with a null and another one
without any field, and behind it a copy task with permissions that are no list. -/
def annotatedTasks : Step :=
  (Step.ofType "start" "START_EVENT").followedBy <|
    { Step.ofType "review" "USER_TASK" with
      attributes := [
        ("candidateParam", .number (.int 7)),
        ("candidateStrategy", .string " +030 "),
        ("formFieldPermissions", .array [
          .object [("edit", .bool true), ("field", .string "day"), ("hint", .null)],
          .object []])]
      child := some { Step.ofType "notify" "COPY_TASK" with
        attributes := [
          ("candidateStrategy", .null),
          ("formFieldPermissions", .string "all")] } }

/-- The net of the two tasks. -/
def annotatedTasksNet : Net :=
  { id := "p"
    elements := [
      { id := "start", kind := .startEvent },
      { id := "review", kind := .userTask
        extensions := [
          .ofText "candidateStrategy" "30",
          .ofText "candidateParam" "7",
          .ofAttributes "formFieldPermissions" [("edit", "true"), ("field", "day")],
          .ofAttributes "formFieldPermissions" []] },
      { id := "notify", kind := .serviceTask, implementation := some copyTaskExpression },
      endEvent]
    flows := [
      { source := "start", target := "review" },
      { source := "review", target := "notify" },
      { source := "notify", target := "EndEvent" }] }

/-- The two tasks are compiled to their net. -/
theorem compile_annotatedTasks :
    compile annotatedTasks "p" none = .ok annotatedTasksNet := by
  have elements : annotatedTasks.elements = .ok annotatedTasksNet.elements.dropLast := by
    rw [elements_eq_examine annotatedTasks (by decide) (by decide)]
    rfl
  have flows : annotatedTasks.flows endEventId = .ok annotatedTasksNet.flows := by
    rw [flows_eq]
    rfl
  simp only [compile, elements, flows]
  rfl

/-- The elements of the two tasks carry what the attributes of the tasks tell, and a copy task
is refused exactly if its attributes are not in order. -/
theorem compile_metadata_annotatedTasks :
    compile annotatedTasks "p" none = .ok annotatedTasksNet ∧
    (∃ elements, annotatedTasksNet.elements = elements ++ [endEvent] ∧ endEvent.extensions = [] ∧
      List.Forall₂ (fun step element => ∃ kind, step.kind? = some kind ∧
        element.id = step.idText ∧ step.Metadata kind element) annotatedTasks.reached elements) ∧
    StepKind.copyTask.isTask ∧
    ((∃ defect, Element.ofStep annotatedTasks "start" .copyTask = .error defect) ↔
      ¬ AttributesValid annotatedTasks .copyTask) :=
  ⟨compile_annotatedTasks,
    compile_metadata.1 annotatedTasks "p" none annotatedTasksNet compile_annotatedTasks
      (by decide +kernel),
    rfl, (compile_metadata.2 annotatedTasks "start" .copyTask rfl).1⟩

end Workflow
