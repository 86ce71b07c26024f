import Workflow.Proofs.Validity
import Workflow.Proofs.Walks

/-!
# Compilation preserves the traces of a tree

A trace of a tree is the sequence of identifiers met on one way through it: a step, then
a trace of one of its branches if it is a fork, then a trace of what follows it. Traces
are listed with their multiplicities, so a fork with two empty branches has a trace
twice.

The walks through a compiled net are these traces, each closed by the end event. While
the tree is taken apart the walks of a slot do not end at the slot's target; they go on
from there. `tally_slot` therefore says that the walks from the place a slot is entered
at are told by the traces of the slot, each followed by what can be passed from the
target on. For the branches of a fork this rest is what can be passed behind the fork.
-/

namespace Workflow

mutual

/-- The traces of a tree. -/
def Step.traces : Step → List (List String)
  | ⟨id, typeName, name, attributes, child, branches⟩ =>
      let step : Step := ⟨id, typeName, name, attributes, child, branches⟩
      if step.idText = "" then [[]]
      else if step.isFork then
        (branchesTraces branches).flatMap fun chosen =>
          (slotTraces child).map fun rest => step.idText :: (chosen ++ rest)
      else (slotTraces child).map fun rest => step.idText :: rest
termination_by structural step => step

/-- The traces of a slot. A vacant slot is passed in one way, which meets nothing. -/
def slotTraces : Option Step → List (List String)
  | none => [[]]
  | some step => step.traces
termination_by structural slot => slot

/-- The traces of branches, those of one branch behind those of the branch before it. -/
def branchesTraces : List Branch → List (List String)
  | [] => []
  | ⟨_, _, _, child⟩ :: rest => slotTraces child ++ branchesTraces rest
termination_by structural branches => branches

end

/-- The traces of branches are those of their slots. -/
theorem branchesTraces_eq (branches : List Branch) :
    branchesTraces branches = branches.flatMap fun branch => slotTraces branch.child := by
  induction branches with
  | nil => rfl
  | cons branch rest inductionHypothesis =>
    rw [List.flatMap_cons, ← inductionHypothesis]
    cases branch; rfl

/-- A vacant slot has the empty trace only. -/
theorem slotTraces_vacant (slot : Option Step) (vacant : Vacant slot) : slotTraces slot = [[]] := by
  cases slot with
  | none => rfl
  | some step =>
    have empty : step.idText = "" := (vacant_some_iff step).mp vacant
    cases step
    rw [slotTraces, Step.traces, if_pos empty]

/-- A trace of a step that is no fork is the step and a trace of what follows it. -/
theorem slotTraces_plain (step : Step) (present : step.idText ≠ "") (plain : ¬ step.isFork) :
    slotTraces (some step) = (slotTraces step.child).map (step.idText :: ·) := by
  cases step
  rw [slotTraces, Step.traces, if_neg present, if_neg plain]

/-- A trace of a fork is the fork, a trace of one of its branches and a trace of what
follows the fork. -/
theorem slotTraces_fork (step : Step) (present : step.idText ≠ "") (fork : step.isFork) :
    slotTraces (some step) = step.branches.flatMap fun branch =>
      (slotTraces branch.child).flatMap fun chosen =>
        (slotTraces step.child).map fun rest => step.idText :: (chosen ++ rest) := by
  rw [← List.flatMap_assoc, ← branchesTraces_eq]
  cases step
  rw [slotTraces, Step.traces, if_neg present, if_pos fork]

/-- Two branches of the inner fork meet nothing, so their trace is listed twice. -/
example : nestedForks.traces =
    [["start", "outer", "inner", "task", "join", "copy"],
      ["start", "outer", "inner", "join", "copy"],
      ["start", "outer", "inner", "join", "copy"],
      ["start", "outer", "join", "copy"]] := by
  decide

/-- The traces of a slot, each followed by each of some sequences. -/
def tracesBefore (slot : Option Step) (passed : List (List String)) : List (List String) :=
  (slotTraces slot).flatMap fun trace => passed.map (trace ++ ·)

/-- A vacant slot puts nothing before the sequences. -/
theorem tracesBefore_vacant (slot : Option Step) (passed : List (List String))
    (vacant : Vacant slot) : tracesBefore slot passed = passed := by
  simp [tracesBefore, slotTraces_vacant slot vacant]

/-- A step that is no fork stands before the traces of what follows it. -/
theorem tracesBefore_plain (step : Step) (passed : List (List String)) (present : step.idText ≠ "")
    (plain : ¬ step.isFork) :
    tracesBefore (some step) passed = (tracesBefore step.child passed).map (step.idText :: ·) := by
  simp only [tracesBefore, slotTraces_plain step present plain, List.flatMap_map,
    List.map_flatMap, List.map_map, Function.comp_def, List.cons_append]

/-- A fork stands before the traces of its branches, and each of these before the traces of
what follows the fork. -/
theorem tracesBefore_fork (step : Step) (passed : List (List String)) (present : step.idText ≠ "")
    (fork : step.isFork) :
    tracesBefore (some step) passed =
      (step.branches.flatMap fun branch =>
        tracesBefore branch.child (tracesBefore step.child passed)).map (step.idText :: ·) := by
  simp only [tracesBefore, slotTraces_fork step present fork, List.flatMap_map,
    List.flatMap_assoc, List.map_flatMap, List.map_map, Function.comp_def, List.cons_append,
    List.append_assoc]

/-- The walks from a step are told by what its own flows lead to, if no other flow starts at
the step. -/
theorem tally_step (flows : List Flow) (last : String) (step : Step) (target : String)
    (own : flows.filter (fun flow => flow.source == step.idText) = step.ownFlows target)
    (present : step.idText ≠ "") (ahead : last ≠ step.idText) (passed : List (List String))
    (behind : Tally (Walk flows last (entryId step.child target))
      (stops flows (entryId step.child target)) (tracesBefore step.child passed))
    (branches : ∀ branch ∈ step.entered,
      Tally (Walk flows last (entryId branch.child (entryId step.child target)))
        (stops flows (entryId branch.child (entryId step.child target)))
        (tracesBefore branch.child (tracesBefore step.child passed))) :
    Tally (Walk flows last step.idText) (stops flows step.idText)
      (tracesBefore (some step) passed) := by
  by_cases fork : step.isFork
  · have listed : (step.branches.zipIdx 1).map (·.1) = step.branches :=
      List.zipIdx_map_fst 1 step.branches
    rw [tracesBefore_fork step passed present fork, List.flatMap_def]
    refine tally_walks flows last step.idText (Ne.symm ahead) _ ?_
    rw [own, Step.ownFlows, if_pos fork]
    conv => arg 3; rw [← listed, List.map_map]
    rw [List.forall₂_map_left_iff, List.forall₂_map_right_iff, List.forall₂_same]
    intro entry position
    have member := List.fst_mem_of_mem_zipIdx position
    exact branches entry.1 ((step.mem_entered_iff entry.1).mpr ⟨fork, member⟩)
  · have alone : [tracesBefore step.child passed].flatten = tracesBefore step.child passed :=
      List.flatten_singleton
    rw [tracesBefore_plain step passed present fork, ← alone]
    refine tally_walks flows last step.idText (Ne.symm ahead) _ ?_
    rw [own, Step.ownFlows, if_neg fork]
    exact List.Forall₂.cons behind List.Forall₂.nil

/-- The walks from the place a slot is entered at pass a trace of the slot and then what
some walk from the target passes. Every flow that starts at a visited step is an own flow
of this visit, and the last identifier is not reached from the slot.

Proof: induction over the slot. The place behind a step is entered with the sequences of
the target, and the step's branches with those of the place behind it. -/
theorem tally_slot (flows : List Flow) (last : String) (slot : Option Step) (target : String)
    (own : ∀ visit ∈ slotVisits slot target,
      flows.filter (fun flow => flow.source == visit.step.idText) =
        visit.step.ownFlows visit.target)
    (ahead : last ∉ slotIds slot) (passed : List (List String))
    (onward : Tally (Walk flows last target) (stops flows target) passed) :
    Tally (Walk flows last (entryId slot target)) (stops flows (entryId slot target))
      (tracesBefore slot passed) := by
  induction slot using slot_induction generalizing target passed with
  | vacant slot vacant =>
    rw [entryId_vacant slot target vacant, tracesBefore_vacant slot passed vacant]
    exact onward
  | occupied step present branches child =>
    rw [slotVisits_occupied step target present, List.forall_mem_cons] at own
    obtain ⟨ownHere, ownBelow⟩ := own
    rw [slotIds_occupied step present, List.mem_cons, List.mem_append, not_or, not_or] at ahead
    obtain ⟨notHere, notInBranches, notBehind⟩ := ahead
    have behind := child target
      (fun visit visited => ownBelow visit (List.mem_append_right _ visited)) notBehind passed onward
    rw [entryId_occupied step target present]
    refine tally_step flows last step target ownHere present notHere passed behind ?_
    intro branch entered
    refine branches branch (step.branch_of_entered branch entered) _ ?_ ?_ _ behind
    · intro visit visited
      apply ownBelow visit
      exact List.mem_append_left _ (List.mem_flatMap.mpr ⟨branch, entered, visited⟩)
    · intro inBranch
      apply notInBranches
      exact List.mem_flatMap.mpr ⟨branch, entered, inBranch⟩

/-- Compilation preserves control flow. The walks of a compiled net from the root to the
end event pass exactly the traces of the tree, each closed by the end event, and every
trace is passed as often as the tree has it.

Proof: the tree's identifiers are distinct, so the flows that start at a step are its own,
and none starts at the end event, where the only walk is the empty one. -/
theorem compile_traces (root : Step) (processId : String) (processName : Option String) (net : Net)
    (accepted : compile root processId processName = .ok net) :
    ∃ id, root.presentId? = some id ∧
      Tally (Walk net.flows endEventId id) (stops net.flows id)
        (root.traces.map (· ++ [endEventId])) := by
  have distinct := compile_ids_nodup root processId processName net accepted
  obtain ⟨valid, elements, _, rfl⟩ := compile_eq_ok root processId processName net accepted
  have filled := valid.filled
  rw [List.nodup_append] at distinct
  obtain ⟨distinctSteps, _, apart⟩ := distinct
  have ahead : endEventId ∉ slotIds (some root) := by
    intro reached
    exact apart _ reached _ (List.mem_singleton_self _) rfl
  have final : ∀ flow ∈ root.flowList endEventId, flow.source ≠ endEventId := by
    intro flow member same
    exact ahead (same ▸ source_mem_slotIds (some root) endEventId flow member)
  have walks := tally_slot (root.flowList endEventId) endEventId (some root) endEventId
    (filter_slotFlows (some root) endEventId distinctSteps) ahead _
    (tally_last (root.flowList endEventId) endEventId final)
  refine ⟨root.idText, root.presentId?_of_filled filled, ?_⟩
  rw [entryId_occupied root endEventId filled] at walks
  rw [List.map_eq_flatMap]
  exact walks

/-- The nested forks meet the premise. -/
theorem compile_traces_nestedForks :
    compile nestedForks "p" none = .ok nestedForksNet ∧
      ∃ id, nestedForks.presentId? = some id ∧
        Tally (Walk nestedForksNet.flows endEventId id) (stops nestedForksNet.flows id)
          (nestedForks.traces.map (· ++ [endEventId])) :=
  ⟨compile_nestedForks, compile_traces nestedForks "p" none nestedForksNet compile_nestedForks⟩

end Workflow
