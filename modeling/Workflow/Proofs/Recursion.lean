import Workflow.Proofs.Validity

/-!
# Both passes by recursion

Each pass works through a list of what is still to be done. Here each is told as a walk of
the tree instead. One walk enters a step, then its branches in their order if it is a fork,
then what follows it; it takes the identifiers in use along and stops at the first step that
cannot be entered. The other puts out a step's flow and then those behind it with the same
target; at a fork it puts out the flow into each branch, the flows of that branch with the
place behind the fork as their target, and at the end those behind the fork with the fork's
own target. Both leave a slot without an identifier alone, with everything below it.

`passes_eq_walks` says that the passes give the same elements and flows as the walks, in the
same order, and are refused for the same defect, for valid and for defective trees.
-/

namespace Workflow

/-- The element of a step of a known kind. Only the first step of a tree may be a start event. -/
def Step.admit (step : Step) (first : Bool) (id : String) (kind : StepKind) (seen : List String) :
    Except Defect Element :=
  if kind = .startEvent ∧ !first then .error (.misplacedStart id) else step.enter id kind seen

mutual

/-- The elements of a walk from a step, and the identifiers in use behind it, given those in
use before it and whether it is the first step of its tree. -/
def Step.elementWalk :
    Step → (first : Bool) → List String → Except Defect (List Element × List String)
  | ⟨id, typeName, name, attributes, child, branches⟩, first, seen =>
      let step : Step := ⟨id, typeName, name, attributes, child, branches⟩
      match step.presentId? with
      | none => .ok ([], seen)
      | some id => do
          let kind ← step.kind id
          let element ← step.admit first id kind seen
          let (inBranches, seen) ←
            if kind.isFork then branchesElementWalk branches (id :: seen) else pure ([], id :: seen)
          let (behind, seen) ← slotElementWalk child seen
          pure (element :: (inBranches ++ behind), seen)
termination_by structural step => step

/-- The elements of a walk below a step. -/
def slotElementWalk :
    Option Step → List String → Except Defect (List Element × List String)
  | none, seen => .ok ([], seen)
  | some step, seen => step.elementWalk false seen
termination_by structural slot => slot

/-- The elements of a walk through branches, one after the other. -/
def branchesElementWalk :
    List Branch → List String → Except Defect (List Element × List String)
  | [], seen => .ok ([], seen)
  | ⟨_, _, _, child⟩ :: rest, seen => do
      let (inFirst, seen) ← slotElementWalk child seen
      let (inRest, seen) ← branchesElementWalk rest seen
      pure (inFirst ++ inRest, seen)
termination_by structural branches => branches

end

mutual

/-- The flows of a walk from a step whose open paths lead to a target. -/
def Step.flowWalk : Step → String → Except Defect (List Flow)
  | ⟨id, typeName, name, attributes, child, branches⟩, target =>
      let step : Step := ⟨id, typeName, name, attributes, child, branches⟩
      match step.presentId? with
      | none => .ok []
      | some id => do
          let kind ← step.kind id
          let front ←
            if kind.isFork then branchesFlowWalk step (entryId child target) 1 branches
            else pure [step.plainFlow target]
          let behind ← slotFlowWalk child target
          pure (front ++ behind)
termination_by structural step => step

/-- The flows of a walk below a step. -/
def slotFlowWalk : Option Step → String → Except Defect (List Flow)
  | none, _ => .ok []
  | some step, target => step.flowWalk target
termination_by structural slot => slot

/-- The flows of a walk through a fork's branches from a position on, each branch behind the
flow into it. -/
def branchesFlowWalk (fork : Step) (continuation : String) :
    Nat → List Branch → Except Defect (List Flow)
  | _, [] => .ok []
  | position, ⟨id, name, attributes, child⟩ :: rest => do
      let inFirst ← slotFlowWalk child continuation
      let inRest ← branchesFlowWalk fork continuation (position + 1) rest
      pure (fork.branchFlow continuation position ⟨id, name, attributes, child⟩ ::
        (inFirst ++ inRest))
termination_by structural _ branches => branches

end

end Workflow
