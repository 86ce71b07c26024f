import Workflow.Step.Kind

/-!
# Defects of a tree of steps

A tree with a defect is not compiled. A defect names the step it concerns, except
that a tree without a root has no step to name.
-/

namespace Workflow

/-- What an attribute with a meaning of its own must be. -/
inductive AttributeRule where
  | integer
  | scalar
  | list
  | objects
  | scalars
deriving DecidableEq, Repr

/-- The wording of a rule that an attribute breaks. -/
def AttributeRule.message : AttributeRule → String
  | integer => "expected an integer code"
  | scalar => "expected a scalar value"
  | list => "expected a list"
  | objects => "entries must be objects"
  | scalars => "entry values must be scalars"

/-- A reason why a tree cannot be compiled. -/
inductive Defect where
  | unsupportedType (id : String) (typeName : String)
  | branchless (id : String)
  | duplicateId (id : String)
  | missingStart (id : String) (typeName : String)
  | misplacedStart (id : String)
  | empty
  | badAttribute (id : String) (key : String) (rule : AttributeRule)
deriving DecidableEq, Repr

/-- The message of a defect. -/
def Defect.message : Defect → String
  | unsupportedType id typeName =>
      "Node '" ++ id ++ "' has an unsupported node type: '" ++ typeName ++ "'"
  | branchless id => "Branch node '" ++ id ++ "' must declare at least one condition branch"
  | duplicateId id => "Node id '" ++ id ++ "' is used more than once in the model"
  | missingStart id typeName =>
      "The model must start with a START_EVENT node, but root '" ++ id ++ "' is a '" ++ typeName ++
        "'"
  | misplacedStart id => "START_EVENT node '" ++ id ++ "' may only appear at the root of the model"
  | empty => "The model has no root node"
  | badAttribute id key rule =>
      "Attribute '" ++ key ++ "' on node '" ++ id ++ "' is invalid: " ++ rule.message

/-- The kind a step's type name stands for. -/
def StepKind.resolve (typeName id : String) : Except Defect StepKind :=
  match StepKind.ofName? typeName with
  | some kind => .ok kind
  | none => .error (.unsupportedType id typeName)

end Workflow
