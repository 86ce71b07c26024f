import Workflow.Diagram
import Workflow.Step.Json

/-!
# The documents of the library

Four kinds of documents are read: a tree of steps, a net, a diagram, and the
name of a kind. This module says what each may look like, writes nets and
diagrams, and reads all of them. Writing gives the fields of a record in the order
of the schema, absent values as nulls; only a step leaves members out.
-/

namespace Workflow

open Json (Value Shape RecordField Record Schema ReadError)

/-- The records that documents are made of. -/
inductive RecordName where
  | step
  | branch
  | net
  | element
  | extension
  | extensionAttribute
  | flow
  | diagram
  | bounds
  | point
deriving DecidableEq, Repr

/-- A field that must not be null. -/
def required {ρ : Type} (key : String) (shape : Shape ρ) : RecordField ρ := ⟨key, shape, false⟩

/-- A field that may be null. -/
def nullable {ρ : Type} (key : String) (shape : Shape ρ) : RecordField ρ := ⟨key, shape, true⟩

/-- The fields of every record. -/
def documentSchema : Schema RecordName
  | .step => ⟨"SimpleNode", true,
      [nullable "id" .text, required "type" .text, nullable "name" .text,
        required "attributes" (.table .any), nullable "childNode" (.record .step),
        required "conditionNodes" (.list (.record .branch))]⟩
  | .branch => ⟨"ConditionBranch", true,
      [nullable "id" .text, nullable "name" .text, required "attributes" (.table .any),
        nullable "childNode" (.record .step)]⟩
  | .net => ⟨"ProcessGraph", false,
      [required "id" .text, nullable "name" .text, required "executable" .flag,
        required "nodes" (.list (.record .element)), required "flows" (.list (.record .flow))]⟩
  | .element => ⟨"FlowNode", false,
      [required "id" .text, required "kind" (.variant (ElementKind.all.map ElementKind.name)),
        nullable "name" .text, nullable "implementation" .text, nullable "default_flow" .text,
        required "extensions" (.list (.record .extension))]⟩
  | .extension => ⟨"ExtensionElement", false,
      [required "namespace" .text, required "prefix" .text, required "name" .text,
        nullable "text" .text, required "attributes" (.list (.record .extensionAttribute))]⟩
  | .extensionAttribute => ⟨"ExtensionAttribute", false,
      [required "namespace" .text, required "name" .text, required "value" .text]⟩
  | .flow => ⟨"SequenceFlow", false,
      [nullable "id" .text, required "source_id" .text, required "target_id" .text,
        nullable "condition_expression" .text, required "is_default" .flag]⟩
  | .diagram => ⟨"DiagramLayout", false,
      [required "shapes" (.table (.record .bounds)),
        required "edges" (.table (.list (.record .point)))]⟩
  | .bounds => ⟨"Bounds", false,
      [required "x" .real, required "y" .real, required "width" .real, required "height" .real]⟩
  | .point => ⟨"Point", false, [required "x" .real, required "y" .real]⟩

/-- A text that may be absent. -/
def optionalText : Option String → Value
  | none => .null
  | some text => .string text

/-- The text of a member, empty if there is none. -/
def textOf (value : Value) (key : String) : String := ((value.get? key).bind (·.string?)).getD ""

/-- The text of a member that may be absent. -/
def optionalTextOf (value : Value) (key : String) : Option String :=
  (value.get? key).bind (·.string?)

/-- The truth value of a member. -/
def flagOf (value : Value) (key : String) : Bool := ((value.get? key).bind (·.bool?)).getD false

/-- The items of a member. -/
def itemsOf (value : Value) (key : String) : List Value :=
  ((value.get? key).map (·.items)).getD []

namespace ExtensionAttribute

/-- An attribute of an extension as an object. -/
def toValue (entry : ExtensionAttribute) : Value :=
  .object [("namespace", .string entry.namespaceUri), ("name", .string entry.name),
    ("value", .string entry.value)]

/-- The attribute of an extension that an object describes. -/
def ofValue (value : Value) : ExtensionAttribute :=
  ⟨textOf value "namespace", textOf value "name", textOf value "value"⟩

end ExtensionAttribute

namespace Extension

/-- An extension as an object. -/
def toValue (extension : Extension) : Value :=
  .object [("namespace", .string extension.namespaceUri), ("prefix", .string extension.qualifier),
    ("name", .string extension.name), ("text", optionalText extension.text),
    ("attributes", .array (extension.attributes.map ExtensionAttribute.toValue))]

/-- The extension that an object describes. -/
def ofValue (value : Value) : Extension :=
  ⟨textOf value "namespace", textOf value "prefix", textOf value "name",
    optionalTextOf value "text", (itemsOf value "attributes").map ExtensionAttribute.ofValue⟩

end Extension

namespace Element

/-- An element as an object. -/
def toValue (element : Element) : Value :=
  .object [("id", .string element.id), ("kind", .string element.kind.name),
    ("name", optionalText element.name), ("implementation", optionalText element.implementation),
    ("default_flow", optionalText element.defaultFlow),
    ("extensions", .array (element.extensions.map Extension.toValue))]

/-- The element that an object describes. -/
def ofValue (value : Value) : Element where
  id := textOf value "id"
  kind := (ElementKind.ofName? (textOf value "kind")).getD .startEvent
  name := optionalTextOf value "name"
  implementation := optionalTextOf value "implementation"
  defaultFlow := optionalTextOf value "default_flow"
  extensions := (itemsOf value "extensions").map Extension.ofValue

end Element

namespace Flow

/-- A flow as an object. -/
def toValue (flow : Flow) : Value :=
  .object [("id", optionalText flow.id), ("source_id", .string flow.source),
    ("target_id", .string flow.target), ("condition_expression", optionalText flow.condition),
    ("is_default", .bool flow.isDefault)]

/-- The flow that an object describes. -/
def ofValue (value : Value) : Flow where
  id := optionalTextOf value "id"
  source := textOf value "source_id"
  target := textOf value "target_id"
  condition := optionalTextOf value "condition_expression"
  isDefault := flagOf value "is_default"

end Flow

namespace Net

/-- A net as an object. -/
def toValue (net : Net) : Value :=
  .object [("id", .string net.id), ("name", optionalText net.name),
    ("executable", .bool net.executable),
    ("nodes", .array (net.elements.map Element.toValue)),
    ("flows", .array (net.flows.map Flow.toValue))]

/-- The net that an object describes. -/
def ofValue (value : Value) : Net where
  id := textOf value "id"
  name := optionalTextOf value "name"
  executable := flagOf value "executable"
  elements := (itemsOf value "nodes").map Element.ofValue
  flows := (itemsOf value "flows").map Flow.ofValue

end Net

/-- The double of a member. -/
def realOf (value : Value) (key : String) : Double :=
  match value.get? key with
  | some (.number (.float x)) => x
  | _ => Double.zero false

/-- A double as a value. -/
def realValue (x : Double) : Value := .number (.float x)

namespace Bounds

/-- The place of a shape as an object. -/
def toValue (bounds : Bounds) : Value :=
  .object [("x", realValue bounds.x), ("y", realValue bounds.y),
    ("width", realValue bounds.width), ("height", realValue bounds.height)]

/-- The place of a shape that an object describes. -/
def ofValue (value : Value) : Bounds :=
  ⟨realOf value "x", realOf value "y", realOf value "width", realOf value "height"⟩

end Bounds

namespace Point

/-- A waypoint as an object. -/
def toValue (point : Point) : Value := .object [("x", realValue point.x), ("y", realValue point.y)]

/-- The waypoint that an object describes. -/
def ofValue (value : Value) : Point := ⟨realOf value "x", realOf value "y"⟩

end Point

/-- The diagram that an object describes. -/
def Diagram.ofValue (value : Value) : Diagram where
  shapes := (((value.get? "shapes").map (·.members)).getD []).map fun (key, bounds) =>
    (key, Bounds.ofValue bounds)
  edges := (((value.get? "edges").map (·.members)).getD []).map fun (key, points) =>
    (key, points.items.map Point.ofValue)

/-- Reads a tree of steps. -/
def Step.ofText (text : String) : Except ReadError Step :=
  (Json.readText documentSchema (.record .step) text).map Step.ofValue

/-- Reads a net. -/
def Net.ofText (text : String) : Except ReadError Net :=
  (Json.readText documentSchema (.record .net) text).map Net.ofValue

/-- Reads a diagram. -/
def Diagram.ofText (text : String) : Except ReadError Diagram :=
  (Json.readText documentSchema (.record .diagram) text).map Diagram.ofValue

/-- Reads the name of a kind of elements. -/
def ElementKind.ofText (text : String) : Except ReadError ElementKind :=
  (Json.readText documentSchema (.variant (ElementKind.all.map ElementKind.name)) text).map
    fun value => (value.string?.bind ElementKind.ofName?).getD .startEvent

/-- Reads the name of a kind of steps. -/
def StepKind.ofText (text : String) : Except ReadError StepKind :=
  (Json.readText documentSchema (.variant (StepKind.all.map StepKind.name)) text).map
    fun value => (value.string?.bind StepKind.ofName?).getD .startEvent

/-- Reads any value. -/
def Json.Value.ofText (text : String) : Except ReadError Value :=
  Json.readText documentSchema .any text

end Workflow
