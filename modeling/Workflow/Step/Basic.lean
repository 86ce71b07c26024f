import Workflow.Json.Value
import Workflow.Step.Defect

/-!
# Steps

A workflow is drawn as a tree of steps. A step owns the step that follows it and,
if it is a fork, the first step of each of its branches. The order of the branches
matters: it numbers their flows and chooses the default.

A slot of the tree that holds no step, or a step without an identifier, stands for
nothing: the path continues behind it. An empty identifier is no identifier.
-/

namespace Workflow

mutual

/-- A step of the tree. The name of its type is kept as the document gives it, so
that an unknown one is a defect of the tree and not of the document. -/
structure Step where
  id : Option String := none
  typeName : String := ""
  name : Option String := none
  attributes : List (String × Json.Value) := []
  child : Option Step := none
  branches : List Branch := []

/-- A branch of a fork, with the step it begins with. -/
structure Branch where
  id : Option String := none
  name : Option String := none
  attributes : List (String × Json.Value) := []
  child : Option Step := none

end

/-- The step's identifier, unless it is empty or absent. -/
def Step.presentId? (step : Step) : Option String := step.id.filter (· ≠ "")

/-- The step of a slot, if the slot holds one with an identifier. -/
def presentStep? (slot : Option Step) : Option Step := slot.filter (·.presentId?.isSome)

/-- The step that follows in the default flow. -/
def Step.next? (step : Step) : Option Step := presentStep? step.child

/-- The step a branch begins with. -/
def Branch.first? (branch : Branch) : Option Step := presentStep? branch.child

/-- The kind of a step with an identifier. -/
def Step.kind (step : Step) (id : String) : Except Defect StepKind :=
  StepKind.resolve step.typeName id

namespace Step

/-- A step with an identifier and a type, and nothing else. -/
def ofType (id typeName : String) : Step := { id := some id, typeName := typeName }

/-- The step with a name. -/
def named (step : Step) (name : String) : Step := { step with name := some name }

/-- The step with one more attribute, which replaces one with the same key. -/
def withAttribute (step : Step) (key : String) (value : Json.Value) : Step :=
  { step with attributes := Json.insertMember key value step.attributes }

/-- The step followed by another one. -/
def followedBy (step : Step) (child : Step) : Step := { step with child := some child }

/-- The step with one more branch, behind the others. -/
def withBranch (step : Step) (branch : Branch) : Step :=
  { step with branches := step.branches ++ [branch] }

mutual

/-- Equality of two trees, with the numbers in attributes compared as numbers. -/
def same : Step → Step → Bool
  | ⟨id, typeName, name, attributes, child, branches⟩, other =>
      id == other.id && typeName == other.typeName && name == other.name &&
        Json.Value.sameMembers attributes other.attributes && sameSlot child other.child &&
        sameBranches branches other.branches
termination_by structural step => step

/-- Equality of two slots. -/
def sameSlot : Option Step → Option Step → Bool
  | none, none => true
  | some step, some other => same step other
  | _, _ => false
termination_by structural slot => slot

/-- Equality of two lists of branches, place by place. -/
def sameBranches : List Branch → List Branch → Bool
  | [], [] => true
  | ⟨id, name, attributes, child⟩ :: rest, other :: others =>
      id == other.id && name == other.name &&
        Json.Value.sameMembers attributes other.attributes && sameSlot child other.child &&
        sameBranches rest others
  | _, _ => false
termination_by structural branches => branches

end

end Step

end Workflow
