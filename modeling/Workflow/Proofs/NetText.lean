import Workflow.Proofs.Records

/-!
# The text of a net is read back

A net is written with all its members, absent values as nulls, and so are the elements, flows
and extensions in it. Each of these records is read member by member, and what is read
describes it; lists are read item by item. `net_readBack` says that the compact and the
indented text of a net are both read as this net.

Nothing is asked of the net. There are no numbers in it, so every text in it is scanned back,
and its objects are records, whose members are found by their keys.
-/

namespace Workflow

open Json (Value FieldsTake membersOf)

/-- The object that is read for a record of which every field is given a value. -/
def recordRead (name : RecordName) (values : List Value) : Value :=
  .object (membersOf (documentSchema name).fields (values.map some)).reverse

/-- What the fields of an attribute of an extension are given. -/
def ExtensionAttribute.values (entry : ExtensionAttribute) : List Value :=
  [.string entry.namespaceUri, .string entry.name, .string entry.value]

/-- What the fields of an extension are given, with the values of its attributes. -/
def Extension.values (extension : Extension) (attributes : List Value) : List Value :=
  [.string extension.namespaceUri, .string extension.qualifier, .string extension.name,
    optionalText extension.text, .array attributes]

/-- What the fields of an element are given, with the values of its extensions. -/
def Element.values (element : Element) (extensions : List Value) : List Value :=
  [.string element.id, .string element.kind.name, optionalText element.name,
    optionalText element.implementation, optionalText element.defaultFlow, .array extensions]

/-- What the fields of a flow are given. -/
def Flow.values (flow : Flow) : List Value :=
  [optionalText flow.id, .string flow.source, .string flow.target, optionalText flow.condition,
    .bool flow.isDefault]

/-- What the fields of a net are given, with the values of its elements and flows. -/
def Net.values (net : Net) (elements flows : List Value) : List Value :=
  [.string net.id, optionalText net.name, .bool net.executable, .array elements, .array flows]

/-- The text behind an optional one is the one that was written. -/
theorem string?_optionalText (text : Option String) : (optionalText text).string? = text := by
  cases text with
  | none => rfl
  | some text => rfl

/-- What is read for an extension describes it, with the attributes that are read. -/
theorem ofValue_extension (extension : Extension) (attributes : List Value) :
    Extension.ofValue (recordRead .extension (extension.values attributes)) =
      { extension with attributes := attributes.map ExtensionAttribute.ofValue } := by
  have read : Extension.ofValue (recordRead .extension (extension.values attributes)) =
      { extension with
        text := (optionalText extension.text).string?
        attributes := attributes.map ExtensionAttribute.ofValue } := rfl
  rw [read, string?_optionalText]

/-- What is read for an element describes it, with the extensions that are read. -/
theorem ofValue_element (element : Element) (extensions : List Value) :
    Element.ofValue (recordRead .element (element.values extensions)) =
      { element with extensions := extensions.map Extension.ofValue } := by
  have read : Element.ofValue (recordRead .element (element.values extensions)) =
      { id := element.id
        kind := (ElementKind.ofName? element.kind.name).getD .startEvent
        name := (optionalText element.name).string?
        implementation := (optionalText element.implementation).string?
        defaultFlow := (optionalText element.defaultFlow).string?
        extensions := extensions.map Extension.ofValue } := rfl
  rw [read, ElementKind.ofName?_name, string?_optionalText, string?_optionalText,
    string?_optionalText, Option.getD_some]

/-- What is read for a flow describes it. -/
theorem ofValue_flow (flow : Flow) : Flow.ofValue (recordRead .flow flow.values) = flow := by
  have read : Flow.ofValue (recordRead .flow flow.values) =
      { flow with
        id := (optionalText flow.id).string?
        condition := (optionalText flow.condition).string? } := rfl
  rw [read, string?_optionalText, string?_optionalText]

/-- What is read for a net describes it, with the elements and flows that are read. -/
theorem ofValue_net (net : Net) (elements flows : List Value) :
    Net.ofValue (recordRead .net (net.values elements flows)) =
      { net with elements := elements.map Element.ofValue, flows := flows.map Flow.ofValue } := by
  have read : Net.ofValue (recordRead .net (net.values elements flows)) =
      { net with
        name := (optionalText net.name).string?
        elements := elements.map Element.ofValue
        flows := flows.map Flow.ofValue } := rfl
  rw [read, string?_optionalText]

/-- An attribute of an extension is read back. -/
theorem reread_extensionAttribute (entry : ExtensionAttribute) :
    ∃ result, entry.toValue.draft.read documentSchema (.record .extensionAttribute) = .ok result ∧
      ExtensionAttribute.ofValue result = entry := by
  have take : FieldsTake documentSchema (documentSchema .extensionAttribute).fields
      (entry.values.map some) (entry.values.map some) := by
    apply FieldsTake.cons
    · exact Option.Rel.some (Json.takes_text documentSchema _ entry.namespaceUri rfl)
    apply FieldsTake.cons
    · exact Option.Rel.some (Json.takes_text documentSchema _ entry.name rfl)
    apply FieldsTake.cons
    · exact Option.Rel.some (Json.takes_text documentSchema _ entry.value rfl)
    exact FieldsTake.nil
  exact ⟨_, Json.read_fullRecord documentSchema .extensionAttribute _ _ (by decide) take, rfl⟩

/-- An extension is read back. -/
theorem reread_extension (extension : Extension) :
    ∃ result, extension.toValue.draft.read documentSchema (.record .extension) = .ok result ∧
      Extension.ofValue result = extension := by
  obtain ⟨attributes, taken, restored⟩ := Json.takes_list documentSchema
    (required "attributes" (.list (.record .extensionAttribute))) (.record .extensionAttribute)
    ExtensionAttribute.toValue ExtensionAttribute.ofValue extension.attributes rfl
    fun entry _ => reread_extensionAttribute entry
  have take : FieldsTake documentSchema (documentSchema .extension).fields
      ((extension.values (extension.attributes.map ExtensionAttribute.toValue)).map some)
      ((extension.values attributes).map some) := by
    apply FieldsTake.cons
    · exact Option.Rel.some (Json.takes_text documentSchema _ extension.namespaceUri rfl)
    apply FieldsTake.cons
    · exact Option.Rel.some (Json.takes_text documentSchema _ extension.qualifier rfl)
    apply FieldsTake.cons
    · exact Option.Rel.some (Json.takes_text documentSchema _ extension.name rfl)
    apply FieldsTake.cons
    · exact Option.Rel.some (Json.takes_textOrNull documentSchema _ extension.text rfl rfl)
    apply FieldsTake.cons
    · exact Option.Rel.some taken
    exact FieldsTake.nil
  refine ⟨_, Json.read_fullRecord documentSchema .extension _ _ (by decide) take, ?_⟩
  exact (ofValue_extension extension attributes).trans (by rw [restored])

/-- An element is read back. -/
theorem reread_element (element : Element) :
    ∃ result, element.toValue.draft.read documentSchema (.record .element) = .ok result ∧
      Element.ofValue result = element := by
  obtain ⟨extensions, taken, restored⟩ := Json.takes_list documentSchema
    (required "extensions" (.list (.record .extension))) (.record .extension)
    Extension.toValue Extension.ofValue element.extensions rfl
    fun extension _ => reread_extension extension
  have known : element.kind.name ∈ ElementKind.all.map ElementKind.name :=
    List.mem_map_of_mem (List.mem_of_getElem? (ElementKind.all_index element.kind))
  have take : FieldsTake documentSchema (documentSchema .element).fields
      ((element.values (element.extensions.map Extension.toValue)).map some)
      ((element.values extensions).map some) := by
    apply FieldsTake.cons
    · exact Option.Rel.some (Json.takes_text documentSchema _ element.id rfl)
    apply FieldsTake.cons
    · exact Option.Rel.some (Json.takes_variant documentSchema _ _ element.kind.name rfl known)
    apply FieldsTake.cons
    · exact Option.Rel.some (Json.takes_textOrNull documentSchema _ element.name rfl rfl)
    apply FieldsTake.cons
    · exact Option.Rel.some (Json.takes_textOrNull documentSchema _ element.implementation rfl rfl)
    apply FieldsTake.cons
    · exact Option.Rel.some (Json.takes_textOrNull documentSchema _ element.defaultFlow rfl rfl)
    apply FieldsTake.cons
    · exact Option.Rel.some taken
    exact FieldsTake.nil
  refine ⟨_, Json.read_fullRecord documentSchema .element _ _ (by decide) take, ?_⟩
  exact (ofValue_element element extensions).trans (by rw [restored])

/-- A flow is read back. -/
theorem reread_flow (flow : Flow) :
    ∃ result, flow.toValue.draft.read documentSchema (.record .flow) = .ok result ∧
      Flow.ofValue result = flow := by
  have take : FieldsTake documentSchema (documentSchema .flow).fields
      (flow.values.map some) (flow.values.map some) := by
    apply FieldsTake.cons
    · exact Option.Rel.some (Json.takes_textOrNull documentSchema _ flow.id rfl rfl)
    apply FieldsTake.cons
    · exact Option.Rel.some (Json.takes_text documentSchema _ flow.source rfl)
    apply FieldsTake.cons
    · exact Option.Rel.some (Json.takes_text documentSchema _ flow.target rfl)
    apply FieldsTake.cons
    · exact Option.Rel.some (Json.takes_textOrNull documentSchema _ flow.condition rfl rfl)
    apply FieldsTake.cons
    · exact Option.Rel.some (Json.takes_flag documentSchema _ flow.isDefault rfl)
    exact FieldsTake.nil
  exact ⟨_, Json.read_fullRecord documentSchema .flow _ _ (by decide) take, ofValue_flow flow⟩

/-- A net is read back. -/
theorem reread_net (net : Net) :
    ∃ result, net.toValue.draft.read documentSchema (.record .net) = .ok result ∧
      Net.ofValue result = net := by
  obtain ⟨elements, takenElements, restoredElements⟩ := Json.takes_list documentSchema
    (required "nodes" (.list (.record .element))) (.record .element)
    Element.toValue Element.ofValue net.elements rfl fun element _ => reread_element element
  obtain ⟨flows, takenFlows, restoredFlows⟩ := Json.takes_list documentSchema
    (required "flows" (.list (.record .flow))) (.record .flow)
    Flow.toValue Flow.ofValue net.flows rfl fun flow _ => reread_flow flow
  have take : FieldsTake documentSchema (documentSchema .net).fields
      ((net.values (net.elements.map Element.toValue) (net.flows.map Flow.toValue)).map some)
      ((net.values elements flows).map some) := by
    apply FieldsTake.cons
    · exact Option.Rel.some (Json.takes_text documentSchema _ net.id rfl)
    apply FieldsTake.cons
    · exact Option.Rel.some (Json.takes_textOrNull documentSchema _ net.name rfl rfl)
    apply FieldsTake.cons
    · exact Option.Rel.some (Json.takes_flag documentSchema _ net.executable rfl)
    apply FieldsTake.cons
    · exact Option.Rel.some takenElements
    apply FieldsTake.cons
    · exact Option.Rel.some takenFlows
    exact FieldsTake.nil
  refine ⟨_, Json.read_fullRecord documentSchema .net _ _ (by decide) take, ?_⟩
  exact (ofValue_net net elements flows).trans (by rw [restoredElements, restoredFlows])

/-- A text is no number. -/
theorem isWhole_string (text : String) : (Value.string text).isWhole = true := rfl

/-- A truth value is no number. -/
theorem isWhole_bool (truth : Bool) : (Value.bool truth).isWhole = true := rfl

/-- There is no number in a text that may be absent. -/
theorem isWhole_optionalText (text : Option String) : (optionalText text).isWhole = true := by
  cases text with
  | none => rfl
  | some text => rfl

/-- A list holds no numbers if its items do not. -/
theorem isWhole_items {α : Type} (toValue : α → Value) (items : List α)
    (each : ∀ item, (toValue item).isWhole = true) :
    (Value.array (items.map toValue)).isWhole = true := by
  rw [Value.isWhole_array, List.all_map, List.all_eq_true]
  exact fun item _ => each item

/-- There are no numbers in an attribute of an extension. -/
theorem isWhole_extensionAttribute (entry : ExtensionAttribute) :
    entry.toValue.isWhole = true := by
  simp [ExtensionAttribute.toValue, Value.isWhole_object, isWhole_string]

/-- There are no numbers in an extension. -/
theorem isWhole_extension (extension : Extension) : extension.toValue.isWhole = true := by
  have attributes := isWhole_items _ extension.attributes isWhole_extensionAttribute
  simp [Extension.toValue, Value.isWhole_object, isWhole_string, isWhole_optionalText, attributes]

/-- There are no numbers in an element. -/
theorem isWhole_element (element : Element) : element.toValue.isWhole = true := by
  have extensions := isWhole_items _ element.extensions isWhole_extension
  simp [Element.toValue, Value.isWhole_object, isWhole_string, isWhole_optionalText, extensions]

/-- There are no numbers in a flow. -/
theorem isWhole_flow (flow : Flow) : flow.toValue.isWhole = true := by
  simp [Flow.toValue, Value.isWhole_object, isWhole_string, isWhole_bool, isWhole_optionalText]

/-- There are no numbers in a net. -/
theorem isWhole_net (net : Net) : net.toValue.isWhole = true := by
  have elements := isWhole_items _ net.elements isWhole_element
  have flows := isWhole_items _ net.flows isWhole_flow
  simp [Net.toValue, Value.isWhole_object, isWhole_string, isWhole_bool, isWhole_optionalText,
    elements, flows]

/-- In either style the text of a net is read as the net. -/
theorem ofText_text (style : Json.Style) (net : Net) :
    Net.ofText (String.ofList (net.toValue.text style)) = .ok net := by
  have scanned := Json.scan_text style net.toValue (isWhole_net net)
  obtain ⟨result, read, restored⟩ := reread_net net
  rw [Net.ofText, Json.readText, String.toList_ofList, scanned]
  simp only [read, bind, Except.bind, pure, Except.pure]
  rw [← restored]
  rfl

/-- The compact and the indented text of a net are both read as this net, whatever texts its
parts hold, whatever is absent in it and however long its lists are. -/
theorem net_readBack (net : Net) :
    Net.ofText net.toValue.compact = .ok net ∧ Net.ofText net.toValue.indented = .ok net :=
  ⟨ofText_text .compact net, ofText_text .indented net⟩

end Workflow
