import Workflow.Net.Basic
import Workflow.Step.Metadata

/-!
# The elements of a tree

Every step that stands for something becomes one element. The steps are taken in
pre-order: a step, then its branches in their order, then the step that follows
it. Only forks have branches; what other steps list as branches is ignored, and so
is everything below a step without an identifier.

A list of pending steps, nearest first, takes the place of nested calls. Each step
replaces itself by its successors, which are smaller together than the step.

The first step that cannot be admitted decides the defect. A step's type is
resolved before its place is checked, its place before its identifier, and its
identifier before its branches and attributes.
-/

namespace Workflow

/-- The identifier of the end event that closes every net. -/
def endEventId : String := "EndEvent"

/-- The name of the end event. -/
def endEventName : String := "结束"

/-- The expression that the engine evaluates for a copy task. -/
def copyTaskExpression : String := "#\x7bbpmSimpleNodeService.copy(execution)\x7d"

/-- The end event. -/
def endEvent : Element := { id := endEventId, kind := .endEvent, name := some endEventName }

mutual

/-- The number of steps and branches in a tree. -/
def Step.size : Step → Nat
  | ⟨_, _, _, _, child, branches⟩ => 1 + slotSize child + branchesSize branches
termination_by structural step => step

/-- The size of the tree in a slot. -/
def slotSize : Option Step → Nat
  | none => 0
  | some step => step.size
termination_by structural slot => slot

/-- The size of a list of branches. -/
def branchesSize : List Branch → Nat
  | [] => 0
  | ⟨_, _, _, child⟩ :: rest => 1 + slotSize child + branchesSize rest
termination_by structural branches => branches

end

/-- A step's size counts the step, its branches and what follows it. -/
theorem Step.size_eq (step : Step) :
    step.size = 1 + slotSize step.child + branchesSize step.branches := by
  cases step; rfl

/-- A list of branches is as large as its first branch and the others. -/
theorem branchesSize_cons (branch : Branch) (rest : List Branch) :
    branchesSize (branch :: rest) = 1 + slotSize branch.child + branchesSize rest := by
  cases branch; rfl

/-- The element of a step with an identifier and a resolved type. A fork needs at
least one branch, and the last one is its default if it has one. -/
def Element.ofStep (step : Step) (id : String) (kind : StepKind) : Except Defect Element :=
  let plain (kind : ElementKind) : Element := { id := id, kind := kind, name := step.name }
  let fork (kind : ElementKind) (default : Option String) : Except Defect Element :=
    if step.branches.isEmpty then .error (.branchless id)
    else .ok { id := id, kind := kind, name := step.name, defaultFlow := default }
  match kind with
  | .startEvent => .ok (plain .startEvent)
  | .userTask => do
      let candidates ← step.candidateExtensions id
      let permissions ← step.permissionExtensions id
      pure { plain .userTask with extensions := candidates ++ permissions }
  | .copyTask => do
      let candidates ← step.candidateExtensions id
      pure { plain .serviceTask with
        implementation := some copyTaskExpression, extensions := candidates }
  | .exclusiveGateway => fork .exclusiveGateway (some (branchFlowId id step.branches.length))
  | .inclusiveFork => fork .inclusiveGateway (some (branchFlowId id step.branches.length))
  | .parallelFork => fork .parallelGateway none
  | .parallelJoin => .ok (plain .parallelGateway)
  | .inclusiveJoin => .ok (plain .inclusiveGateway)

/-- The steps that follow a step of a kind in pre-order: the first steps of its
branches if it is a fork, then its child. -/
def Step.successors (step : Step) (kind : StepKind) : List Step :=
  (if kind.isFork then step.branches.filterMap (·.child) else []) ++ step.child.toList

/-- The total size of pending steps. -/
def pendingSize : List Step → Nat
  | [] => 0
  | step :: rest => step.size + pendingSize rest

/-- Sizes of pending steps add up. -/
theorem pendingSize_append (front back : List Step) :
    pendingSize (front ++ back) = pendingSize front + pendingSize back := by
  induction front with
  | nil => simp [pendingSize]
  | cons step rest inductionHypothesis =>
    simp only [List.cons_append, pendingSize, inductionHypothesis]
    omega

/-- The first steps of branches are smaller together than the branches. -/
theorem pendingSize_firsts (branches : List Branch) :
    pendingSize (branches.filterMap (·.child)) ≤ branchesSize branches := by
  induction branches with
  | nil => simp [pendingSize, branchesSize]
  | cons branch rest inductionHypothesis =>
    rw [branchesSize_cons]
    cases slot : branch.child with
    | none => simp only [List.filterMap_cons, slot, slotSize]; omega
    | some step => simp only [List.filterMap_cons, slot, slotSize, pendingSize]; omega

/-- The successors of a step are smaller together than the step. -/
theorem pendingSize_successors (step : Step) (kind : StepKind) :
    pendingSize (step.successors kind) < step.size := by
  have firsts := pendingSize_firsts step.branches
  have child : pendingSize step.child.toList = slotSize step.child := by
    cases step.child <;> simp [pendingSize, slotSize]
  rw [Step.size_eq, Step.successors, pendingSize_append, child]
  split
  · omega
  · simp only [pendingSize]
    omega

/-- The element of a step whose type is known, if its identifier is still free. -/
def Step.enter (step : Step) (id : String) (kind : StepKind) (seen : List String) :
    Except Defect Element :=
  if id = endEventId ∨ id ∈ seen then .error (.duplicateId id) else Element.ofStep step id kind

/-- The elements of pending steps below the root, given the identifiers in use. -/
def pendingElements : List Step → List String → Except Defect (List Element)
  | [], _ => .ok []
  | step :: pending, seen =>
      match step.presentId? with
      | none => pendingElements pending seen
      | some id =>
          match step.kind id with
          | .error defect => .error defect
          | .ok kind =>
              if kind = .startEvent then .error (.misplacedStart id)
              else
                match step.enter id kind seen with
                | .error defect => .error defect
                | .ok element =>
                    (pendingElements (step.successors kind ++ pending) (id :: seen)).map
                      (element :: ·)
termination_by pending => pendingSize pending
decreasing_by
  · have positive : 0 < step.size := by rw [Step.size_eq]; omega
    simp only [pendingSize]
    omega
  · have smaller := pendingSize_successors step kind
    simp only [pendingSize, pendingSize_append]
    omega

/-- The elements of a tree. The root must be a start event. -/
def Step.elements (root : Step) : Except Defect (List Element) :=
  match root.presentId? with
  | none => .error .empty
  | some id =>
      match root.kind id with
      | .error defect => .error defect
      | .ok kind =>
          if kind = .startEvent then
            match root.enter id kind [] with
            | .error defect => .error defect
            | .ok element => (pendingElements (root.successors kind) [id]).map (element :: ·)
          else .error (.missingStart id root.typeName)

end Workflow
