import Workflow.Net.Basic
import Workflow.Net.Reach

/-!
# Issues of a net

A net may come from anywhere, so its structure is checked: one start event,
one end event, no flow with an unknown end, every element reachable from the
first start event and with a path to the first end event. The check reports every
issue, in a fixed order, and an empty report means that none of these was found.
-/

namespace Workflow

/-- Something wrong with the structure of a net. -/
inductive Issue where
  | danglingFlow (key : String) (missing : String)
  | startEventCount (count : Nat)
  | endEventCount (count : Nat)
  | unreachable (id : String)
  | cannotReachEnd (id : String)
deriving DecidableEq, Repr

/-- The message of an issue. -/
def Issue.message : Issue → String
  | danglingFlow key missing => "flow '" ++ key ++ "' references unknown node '" ++ missing ++ "'"
  | startEventCount count => "expected 1 start event, found " ++ toString count
  | endEventCount count => "expected 1 end event, found " ++ toString count
  | unreachable id => "node '" ++ id ++ "' is not reachable from the start"
  | cannotReachEnd id => "node '" ++ id ++ "' has no path to the end"

namespace Net

/-- The flows as edges. -/
def edges (net : Net) : List (String × String) :=
  net.flows.map fun flow => (flow.source, flow.target)

/-- The flows as edges against their direction. -/
def reversedEdges (net : Net) : List (String × String) :=
  net.flows.map fun flow => (flow.target, flow.source)

/-- The issue of a number of events that is not one. -/
def countIssues (issue : Nat → Issue) (count : Nat) : List Issue :=
  if count = 1 then [] else [issue count]

/-- The issues of one flow: its source, then its target, each if unknown. -/
def danglingEnds (net : Net) (position : Nat) (flow : Flow) : List Issue :=
  [flow.source, flow.target].filterMap fun id =>
    if net.hasElement id then none else some (.danglingFlow (net.keyOf position flow) id)

/-- The issues of flows with unknown ends, in the order of the flows. -/
def danglingIssues (net : Net) : List Issue :=
  (net.flows.mapIdx net.danglingEnds).flatten

/-- One issue for every element that is not among the places found from an
event, in the order of the elements; none if there is no such event. -/
def strayIssues (net : Net) (event : Option Element) (edges : List (String × String))
    (issue : String → Issue) : List Issue :=
  match event with
  | none => []
  | some event =>
      let found := Reach.reachable edges event.id
      net.elements.filterMap fun element =>
        if element.id ∈ found then none else some (issue element.id)

/-- All issues of a net. -/
def issues (net : Net) : List Issue :=
  countIssues .startEventCount (net.elementsOfKind .startEvent).length ++
    countIssues .endEventCount (net.elementsOfKind .endEvent).length ++
    net.danglingIssues ++
    net.strayIssues net.startEvent? net.edges .unreachable ++
    net.strayIssues net.endEvent? net.reversedEdges .cannotReachEnd

end Net

end Workflow
