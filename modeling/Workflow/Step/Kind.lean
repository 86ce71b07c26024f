/-!
# Kinds of steps

A designer's tree names eight kinds of steps. Three of them are forks, which own
branches; two of the forks give their last branch a flow that is taken when no
condition holds. The joins own nothing: where branches come together follows from
the tree alone.
-/

namespace Workflow

/-- The kinds a step may have. -/
inductive StepKind where
  | startEvent
  | userTask
  | copyTask
  | exclusiveGateway
  | parallelFork
  | parallelJoin
  | inclusiveFork
  | inclusiveJoin
deriving DecidableEq, Repr

namespace StepKind

/-- All kinds, in the order in which they are listed. -/
def all : List StepKind :=
  [startEvent, userTask, copyTask, exclusiveGateway, parallelFork, parallelJoin, inclusiveFork,
    inclusiveJoin]

/-- The name of a kind in a designer's document. -/
def name : StepKind → String
  | startEvent => "START_EVENT"
  | userTask => "USER_TASK"
  | copyTask => "COPY_TASK"
  | exclusiveGateway => "EXCLUSIVE_GATEWAY"
  | parallelFork => "PARALLEL_GATEWAY_FORK"
  | parallelJoin => "PARALLEL_GATEWAY_JOIN"
  | inclusiveFork => "INCLUSIVE_GATEWAY_FORK"
  | inclusiveJoin => "INCLUSIVE_GATEWAY_JOIN"

/-- The kind with a name. Names are compared exactly. -/
def ofName? (name : String) : Option StepKind := all.find? fun kind => kind.name == name

/-- True for the kinds that own branches. -/
def isFork : StepKind → Bool
  | exclusiveGateway | parallelFork | inclusiveFork => true
  | _ => false

/-- True for the forks whose last branch is taken when no condition holds. -/
def hasDefault : StepKind → Bool
  | exclusiveGateway | inclusiveFork => true
  | _ => false

/-- Different kinds have different names, so a name finds its own kind. -/
theorem ofName?_name (kind : StepKind) : ofName? kind.name = some kind := by
  cases kind <;> decide

/-- A name that is found is the name of the kind it finds. -/
theorem name_of_ofName? {text : String} {kind : StepKind} (found : ofName? text = some kind) :
    kind.name = text := by
  have property := List.find?_some found
  simpa using property

end StepKind

end Workflow
