import Workflow.Net.Element

/-!
# Nets

A net is the executable graph of one process: elements, and flows from one
element to another. Both are lists, and their order is part of the net, so
compiling a tree twice gives equal nets. Nothing forbids a flow whose ends are no
elements, or two elements with one identifier; the module on issues says which of
these are found.

A net carries the identifier and the name of its process. A flow without an
identifier is referred to by a key made from the process identifier and the
flow's position.
-/

namespace Workflow

/-- A directed edge of a net. -/
structure Flow where
  id : Option String := none
  source : String
  target : String
  condition : Option String := none
  isDefault : Bool := false
deriving DecidableEq, Repr, Inhabited

/-- An executable net. -/
structure Net where
  id : String
  name : Option String := none
  executable : Bool := true
  elements : List Element := []
  flows : List Flow := []
deriving DecidableEq, Repr, Inhabited

/-- What joins a process identifier and a number in the key of a flow. -/
def anonymousFlowInfix : String := "_Flow_"

/-- The identifier of a fork's flow into its branch at a position, counted from
one. -/
def branchFlowId (forkId : String) (position : Nat) : String :=
  forkId ++ "_SequenceFlow_" ++ toString position

namespace Net

/-- The net with one more element, behind the others. -/
def addElement (net : Net) (element : Element) : Net :=
  { net with elements := net.elements ++ [element] }

/-- The net with one more flow, behind the others. -/
def addFlow (net : Net) (flow : Flow) : Net :=
  { net with flows := net.flows ++ [flow] }

/-- The first element with an identifier. -/
def element? (net : Net) (id : String) : Option Element :=
  net.elements.find? fun element => element.id == id

/-- True if some element has the identifier. -/
def hasElement (net : Net) (id : String) : Bool := (net.element? id).isSome

/-- The flows out of an element, in their order. -/
def outgoing (net : Net) (id : String) : List Flow :=
  net.flows.filter fun flow => flow.source == id

/-- The flows into an element, in their order. -/
def incoming (net : Net) (id : String) : List Flow :=
  net.flows.filter fun flow => flow.target == id

/-- The elements of a kind, in their order. -/
def elementsOfKind (net : Net) (kind : ElementKind) : List Element :=
  net.elements.filter fun element => element.kind == kind

/-- The first start event. -/
def startEvent? (net : Net) : Option Element := (net.elementsOfKind .startEvent).head?

/-- The first end event. -/
def endEvent? (net : Net) : Option Element := (net.elementsOfKind .endEvent).head?

/-- The key of a flow at a position: its identifier, or else one made from the
process identifier and the position counted from one. -/
def keyOf (net : Net) (position : Nat) (flow : Flow) : String :=
  match flow.id with
  | some id => id
  | none => net.id ++ anonymousFlowInfix ++ toString (position + 1)

/-- The key of the flow at a position, if there is a flow. -/
def flowKey? (net : Net) (position : Nat) : Option String :=
  net.flows[position]?.map (net.keyOf position)

/-- The keys of all flows, in their order. -/
def flowKeys (net : Net) : List String :=
  net.flows.mapIdx net.keyOf

/-- The list of keys holds the key of each position at that position. -/
theorem flowKeys_getElem? (net : Net) (position : Nat) :
    net.flowKeys[position]? = net.flowKey? position := by
  simp [flowKeys, flowKey?]

/-- An identifier is known exactly if it is the identifier of an element. -/
theorem hasElement_iff (net : Net) (id : String) :
    net.hasElement id = true ↔ id ∈ net.elements.map (·.id) := by
  simp [hasElement, element?, List.find?_isSome]

end Net

end Workflow
