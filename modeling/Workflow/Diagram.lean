import Workflow.Number.Double
import Workflow.Net.Basic

/-!
# Diagrams

A diagram gives every shape a place and every edge its waypoints. Shapes are
keyed by the identifiers of elements and edges by the keys of flows, so a diagram
refers to a net without holding it. Both tables are in key order, one entry a
key; a check looks at the shapes before the edges.
-/

namespace Workflow

/-- Position and size of a shape. -/
structure Bounds where
  x : Double
  y : Double
  width : Double
  height : Double
deriving DecidableEq, Repr

/-- A waypoint of an edge. -/
structure Point where
  x : Double
  y : Double
deriving DecidableEq, Repr

/-- The drawing of a net. -/
structure Diagram where
  shapes : List (String × Bounds) := []
  edges : List (String × List Point) := []
deriving DecidableEq, Repr

/-- Why there is no diagram for a net. -/
inductive LayoutError where
  | unknownElement (key : String)
  | other (message : String)
deriving DecidableEq, Repr

/-- The message of a missing diagram. -/
def LayoutError.message : LayoutError → String
  | unknownElement key => "Layout references unknown element '" ++ key ++ "'"
  | other message => message

namespace Diagram

/-- The first key of a shape or an edge that the net does not know. -/
def unknownKey? (diagram : Diagram) (net : Net) : Option String :=
  ((diagram.shapes.map (·.1)).find? fun id => !net.hasElement id).or
    ((diagram.edges.map (·.1)).find? fun key => !net.flowKeys.contains key)

/-- A diagram fits a net if every key in it is known there. -/
def verify (diagram : Diagram) (net : Net) : Except LayoutError Unit :=
  match diagram.unknownKey? net with
  | none => .ok ()
  | some key => .error (.unknownElement key)

end Diagram

end Workflow
