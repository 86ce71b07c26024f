import Workflow.Compile.Elements

/-!
# The flows of a tree

Where a path ends in the tree it continues at a target. A step without a follower
flows into the target it was given. A fork's branches are given the step behind
the fork as their target, or the fork's own target if nothing is behind it, so
branches come together without any matching of forks and joins.

The flow into a branch stands before the flows of the branch, and these before the
flow into the next branch. A list of pending tasks keeps that order without nested
calls.
-/

namespace Workflow

/-- What remains to be done: a flow to be put out, or a tree to be walked whose
open paths lead to a target. -/
inductive FlowTask where
  | emit (flow : Flow)
  | visit (step : Step) (target : String)

/-- The identifier a slot is entered at, with the target in place of an empty one. -/
def entryId (slot : Option Step) (target : String) : String :=
  ((presentStep? slot).bind (·.presentId?)).getD target

/-- The walk of a slot, if it holds a step. -/
def visitSlot (slot : Option Step) (target : String) : List FlowTask :=
  slot.toList.map fun step => .visit step target

/-- The tasks for the branches of a fork from a position on. The last position is
the default if the fork has one. -/
def branchTasks (id : String) (kind : StepKind) (continuation : String) (last : Nat) :
    Nat → List Branch → List FlowTask
  | _, [] => []
  | position, branch :: rest =>
      .emit { id := some (branchFlowId id position), source := id,
              target := entryId branch.child continuation,
              isDefault := kind.hasDefault && position == last } ::
        (visitSlot branch.child continuation ++
          branchTasks id kind continuation last (position + 1) rest)

/-- The tasks that walking a step of a kind amounts to. -/
def Step.tasks (step : Step) (id : String) (kind : StepKind) (target : String) : List FlowTask :=
  if kind.isFork then
    branchTasks id kind (entryId step.child target) step.branches.length 1 step.branches ++
      visitSlot step.child target
  else
    .emit { source := id, target := entryId step.child target } :: visitSlot step.child target

/-- The weight of a task: walking a tree weighs more than all it amounts to. -/
def FlowTask.weight : FlowTask → Nat
  | .emit _ => 1
  | .visit step _ => 2 * step.size

/-- The total weight of tasks. -/
def tasksWeight : List FlowTask → Nat
  | [] => 0
  | task :: rest => task.weight + tasksWeight rest

/-- Weights of tasks add up. -/
theorem tasksWeight_append (front back : List FlowTask) :
    tasksWeight (front ++ back) = tasksWeight front + tasksWeight back := by
  induction front with
  | nil => simp [tasksWeight]
  | cons task rest inductionHypothesis =>
    simp only [List.cons_append, tasksWeight, inductionHypothesis]
    omega

/-- Walking a slot weighs twice its size. -/
theorem tasksWeight_visitSlot (slot : Option Step) (target : String) :
    tasksWeight (visitSlot slot target) = 2 * slotSize slot := by
  cases slot <;> simp [visitSlot, tasksWeight, FlowTask.weight, slotSize]

/-- The tasks for branches weigh at most twice the branches. -/
theorem tasksWeight_branchTasks (id : String) (kind : StepKind) (continuation : String) (last : Nat)
    (branches : List Branch) (position : Nat) :
    tasksWeight (branchTasks id kind continuation last position branches) ≤
      2 * branchesSize branches := by
  induction branches generalizing position with
  | nil => simp [branchTasks, tasksWeight]
  | cons branch rest inductionHypothesis =>
    have others := inductionHypothesis (position + 1)
    rw [branchesSize_cons, branchTasks, tasksWeight, tasksWeight_append, tasksWeight_visitSlot]
    simp only [FlowTask.weight]
    omega

/-- Walking a step weighs more than the tasks it amounts to. -/
theorem tasksWeight_tasks (step : Step) (id : String) (kind : StepKind) (target : String) :
    tasksWeight (step.tasks id kind target) < 2 * step.size := by
  have branches := tasksWeight_branchTasks id kind (entryId step.child target) step.branches.length
    step.branches 1
  rw [Step.size_eq, Step.tasks]
  split
  · rw [tasksWeight_append, tasksWeight_visitSlot]
    omega
  · rw [tasksWeight, tasksWeight_visitSlot]
    simp only [FlowTask.weight]
    omega

/-- The flows that tasks put out. -/
def runTasks : List FlowTask → Except Defect (List Flow)
  | [] => .ok []
  | .emit flow :: rest => (runTasks rest).map (flow :: ·)
  | .visit step target :: rest =>
      match step.presentId? with
      | none => runTasks rest
      | some id =>
          match step.kind id with
          | .error defect => .error defect
          | .ok kind => runTasks (step.tasks id kind target ++ rest)
termination_by tasks => tasksWeight tasks
decreasing_by
  · simp only [tasksWeight, FlowTask.weight]
    omega
  · have positive : 0 < step.size := by rw [Step.size_eq]; omega
    simp only [tasksWeight, FlowTask.weight]
    omega
  · have smaller := tasksWeight_tasks step id kind target
    rw [tasksWeight_append]
    simp only [tasksWeight, FlowTask.weight]
    omega

/-- The flows of a tree whose open paths lead to a target. -/
def Step.flows (root : Step) (target : String) : Except Defect (List Flow) :=
  runTasks [.visit root target]

end Workflow
