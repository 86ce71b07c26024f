/-!
# Elements of a net

An element is what an engine runs: an event, a task or a gateway. Metadata for
the engine travels with an element as extensions, each in the engine's namespace,
carrying either one text or a list of attributes.
-/

namespace Workflow

/-- The kinds of elements. -/
inductive ElementKind where
  | startEvent
  | userTask
  | serviceTask
  | exclusiveGateway
  | parallelGateway
  | inclusiveGateway
  | endEvent
deriving DecidableEq, Repr, Inhabited

namespace ElementKind

/-- All kinds, in the order of their numbers. -/
def all : List ElementKind :=
  [startEvent, userTask, serviceTask, exclusiveGateway, parallelGateway, inclusiveGateway, endEvent]

/-- The name of a kind in a stored document. -/
def name : ElementKind → String
  | startEvent => "StartEvent"
  | userTask => "UserTask"
  | serviceTask => "ServiceTask"
  | exclusiveGateway => "ExclusiveGateway"
  | parallelGateway => "ParallelGateway"
  | inclusiveGateway => "InclusiveGateway"
  | endEvent => "EndEvent"

/-- The name of a kind in a listing. -/
def label : ElementKind → String
  | startEvent => "startEvent"
  | userTask => "userTask"
  | serviceTask => "serviceTask"
  | exclusiveGateway => "exclusiveGateway"
  | parallelGateway => "parallelGateway"
  | inclusiveGateway => "inclusiveGateway"
  | endEvent => "endEvent"

/-- True for the three kinds of gateways. -/
def isGateway : ElementKind → Bool
  | exclusiveGateway | parallelGateway | inclusiveGateway => true
  | _ => false

/-- The kind with a name in a stored document. -/
def ofName? (name : String) : Option ElementKind := all.find? fun kind => kind.name == name

/-- A kind's place in the list of all kinds. -/
def index : ElementKind → Nat
  | startEvent => 0
  | userTask => 1
  | serviceTask => 2
  | exclusiveGateway => 3
  | parallelGateway => 4
  | inclusiveGateway => 5
  | endEvent => 6

/-- The number of a kind finds the kind in the list of all kinds. -/
theorem all_index (kind : ElementKind) : all[kind.index]? = some kind := by
  cases kind <;> rfl

/-- Different kinds have different names, so a name finds its own kind. -/
theorem ofName?_name (kind : ElementKind) : ofName? kind.name = some kind := by
  cases kind <;> decide

end ElementKind

/-- A key and a value on an extension. -/
structure ExtensionAttribute where
  namespaceUri : String
  name : String
  value : String
deriving DecidableEq, Repr, Inhabited

/-- Metadata for the engine on an element. -/
structure Extension where
  namespaceUri : String
  qualifier : String
  name : String
  text : Option String
  attributes : List ExtensionAttribute
deriving DecidableEq, Repr, Inhabited

/-- The namespace of everything the engine defines. -/
def engineNamespace : String := "http://flowable.org/bpmn"

/-- The abbreviation of the engine's namespace. -/
def engineQualifier : String := "flowable"

namespace Extension

/-- An extension that carries one text. -/
def ofText (name text : String) : Extension :=
  ⟨engineNamespace, engineQualifier, name, some text, []⟩

/-- An extension that carries attributes, in the order given. -/
def ofAttributes (name : String) (attributes : List (String × String)) : Extension :=
  ⟨engineNamespace, engineQualifier, name, none,
    attributes.map fun (key, value) => ⟨engineNamespace, key, value⟩⟩

/-- The value of the first attribute with a name. -/
def attribute? (extension : Extension) (name : String) : Option String :=
  (extension.attributes.find? fun entry => entry.name == name).map (·.value)

end Extension

/-- A typed node of a net. -/
structure Element where
  id : String
  kind : ElementKind
  name : Option String := none
  implementation : Option String := none
  defaultFlow : Option String := none
  extensions : List Extension := []
deriving DecidableEq, Repr, Inhabited

namespace Element

/-- The extensions with a name, in their order on the element. -/
def extensionsNamed (element : Element) (name : String) : List Extension :=
  element.extensions.filter fun extension => extension.name == name

/-- The first text among the extensions with a name. -/
def extensionText? (element : Element) (name : String) : Option String :=
  (element.extensionsNamed name).findSome? (·.text)

end Element

end Workflow
