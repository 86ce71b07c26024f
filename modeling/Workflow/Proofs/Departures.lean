import Workflow.Proofs.Soundness

/-!
# What leaves an element

A compiled net agrees with itself about defaults: the elements are told their default
flow by one pass, from the number of branches, and the flows are numbered and marked by
the other, between the flows of whole subtrees. `Leaves` says for each kind of steps
which flows leave the element of a step and what its default is. All of it follows from
`filter_slotFlows`, which collects the own flows of a step from the flows of the tree.
-/

namespace Workflow

/-- The flows out of an element that stands for a step with so many branches, by the kind of
the step. A step that owns no branches is left along one flow. A fork is left along one
flow for each branch, numbered in their order; a fork that chooses among its branches has
the flow into the last one as its default. -/
inductive Leaves (net : Net) (element : Element) (branches : Nat) : StepKind → Prop
  | once (kind : StepKind)
      (plain : kind ∈ [.startEvent, .userTask, .copyTask, .parallelJoin, .inclusiveJoin])
      (only : ∃ flow, net.outgoing element.id = [flow] ∧ flow.id = none ∧ flow.isDefault = false)
      (default : element.defaultFlow = none) : Leaves net element branches kind
  | choosing (kind : StepKind) (chooses : kind ∈ [.exclusiveGateway, .inclusiveFork])
      (branched : 0 < branches)
      (flows : (net.outgoing element.id).map (fun flow => (flow.id, flow.isDefault)) =
        (List.range' 1 branches).map fun position =>
          (some (branchFlowId element.id position), position == branches))
      (default : element.defaultFlow = some (branchFlowId element.id branches)) :
      Leaves net element branches kind
  | parallel (branched : 0 < branches)
      (flows : (net.outgoing element.id).map (fun flow => (flow.id, flow.isDefault)) =
        (List.range' 1 branches).map fun position =>
          (some (branchFlowId element.id position), false))
      (default : element.defaultFlow = none) : Leaves net element branches .parallelFork

/-- What leaves the elements of a net that a tree is compiled to. Its elements stand for the
reached steps, in their order, and behind them is the end event, which nothing leaves.
Nothing enters the only start event, and no flow has a condition. -/
structure Net.Departures (net : Net) (root : Step) : Prop where
  steps : ∃ elements, net.elements = elements ++ [endEvent] ∧
    List.Forall₂ (fun step element => element.id = step.idText ∧
      ∃ kind, step.kind? = some kind ∧ Leaves net element step.branches.length kind)
      root.reached elements
  finish : net.outgoing endEvent.id = [] ∧ endEvent.defaultFlow = none
  start : ∃ event, net.elementsOfKind .startEvent = [event] ∧ net.incoming event.id = []
  unconditional : ∀ flow ∈ net.flows, flow.condition = none

/-- The flows of a fork are numbered in the order of its branches, and the last one is marked
if the fork has a default. -/
theorem ownFlows_fork (step : Step) (target : String) (fork : step.isFork) :
    (step.ownFlows target).map (fun flow => (flow.id, flow.isDefault)) =
      (List.range' 1 step.branches.length).map fun position =>
        (some (branchFlowId step.idText position),
          step.hasDefault && position == step.branches.length) := by
  have positions : (step.branches.zipIdx 1).map (·.2) = List.range' 1 step.branches.length :=
    List.zipIdx_map_snd 1 step.branches
  rw [Step.ownFlows, if_pos fork, ← positions, List.map_map, List.map_map]
  rfl

/-- An own flow of a step has no condition, and its identifier, if it has one, is made from
the step and a position. -/
theorem labels_of_ownFlows (step : Step) (target : String) (flow : Flow)
    (own : flow ∈ step.ownFlows target) :
    flow.condition = none ∧
      (flow.id = none ∨ ∃ position, flow.id = some (branchFlowId step.idText position)) := by
  unfold Step.ownFlows at own
  split at own
  · obtain ⟨entry, _, rfl⟩ := List.mem_map.mp own
    exact ⟨rfl, Or.inr ⟨entry.2, rfl⟩⟩
  · rw [List.mem_singleton.mp own]
    exact ⟨rfl, Or.inl rfl⟩

/-- A net in which the flows out of a step are its own has at the step's element what the
kind of the step asks for. A fork needs a branch for this. -/
theorem leaves_of_own (net : Net) (step : Step) (target : String) (kind : StepKind)
    (known : step.kind? = some kind) (branched : step.isFork → step.branches ≠ [])
    (own : net.outgoing step.idText = step.ownFlows target) (element : Element)
    (made : Element.ofStep step step.idText kind = .ok element) :
    Leaves net element step.branches.length kind := by
  obtain ⟨id, _, default⟩ := ofStep_ok step step.idText kind element made
  have isFork : step.isFork = kind.isFork := by simp [Step.isFork, known]
  have hasDefault : step.hasDefault = kind.hasDefault := by simp [Step.hasDefault, known]
  have forked (fork : kind.isFork = true) :
      0 < step.branches.length ∧
        (net.outgoing element.id).map (fun flow => (flow.id, flow.isDefault)) =
          (List.range' 1 step.branches.length).map fun position =>
            (some (branchFlowId element.id position),
              kind.hasDefault && position == step.branches.length) := by
    rw [← isFork] at fork
    rw [id, own, ownFlows_fork step target fork, hasDefault]
    exact ⟨List.length_pos_iff.mpr (branched fork), rfl⟩
  have single (plain : kind.isFork = false) :
      ∃ flow, net.outgoing element.id = [flow] ∧ flow.id = none ∧ flow.isDefault = false := by
    rw [← isFork] at plain
    rw [id, own, Step.ownFlows, plain]
    exact ⟨step.plainFlow target, rfl, rfl, rfl⟩
  -- The kinds are those that the constructors list; the rest is told by the two facts above.
  cases kind with
  | startEvent | userTask | copyTask | parallelJoin | inclusiveJoin =>
    exact Leaves.once _ (by decide) (single rfl) default
  | exclusiveGateway | inclusiveFork =>
    obtain ⟨filled, flows⟩ := forked rfl
    exact Leaves.choosing _ (by decide) filled flows (id ▸ default)
  | parallelFork =>
    obtain ⟨filled, flows⟩ := forked rfl
    exact Leaves.parallel filled flows default

/-- The flows out of a visited step of a compiled tree are the step's own. -/
theorem compile_outgoing (root : Step) (processId : String) (processName : Option String)
    (net : Net) (accepted : compile root processId processName = .ok net) (visit : Visit)
    (visited : visit ∈ slotVisits (some root) endEventId) :
    net.outgoing visit.step.idText = visit.step.ownFlows visit.target := by
  obtain ⟨valid, _, _, rfl⟩ := compile_eq_ok root processId processName net accepted
  exact filter_slotFlows (some root) endEventId valid.distinct visit visited

/-- The elements of a compiled net, the end event apart, stand for the reached steps and are left as
the kinds of these ask for. -/
theorem compile_leaves (root : Step) (processId : String) (processName : Option String)
    (net : Net) (accepted : compile root processId processName = .ok net) :
    ∃ elements, net.elements = elements ++ [endEvent] ∧
      List.Forall₂ (fun step element => element.id = step.idText ∧
        ∃ kind, step.kind? = some kind ∧ Leaves net element step.branches.length kind)
        root.reached elements := by
  have own : ∀ step ∈ root.reached, ∃ target, net.outgoing step.idText = step.ownFlows target := by
    intro step reached
    obtain ⟨visit, visited, rfl⟩ := visit_of_reached (some root) endEventId step reached
    exact ⟨visit.target, compile_outgoing root processId processName net accepted visit visited⟩
  obtain ⟨valid, elements, represented, rfl⟩ :=
    compile_eq_ok root processId processName net accepted
  have branched : ∀ step ∈ root.reached, step.isFork → step.branches ≠ [] :=
    fun step reached => valid.branched step ((mem_reached_iff root step).mp reached)
  have withBranches := (List.forall₂_and_left _ _).mpr ⟨branched, represented⟩
  refine ⟨elements, rfl, ((List.forall₂_and_left _ _).mpr ⟨own, withBranches⟩).imp ?_⟩
  rintro step element ⟨⟨target, own⟩, branched, kind, known, made⟩
  refine ⟨(ofStep_ok _ _ _ _ made).1, kind, known, ?_⟩
  exact leaves_of_own _ step target kind known branched own element made

/-- The two passes of a compilation agree about the flows out of every element, their order
and the default among them. -/
theorem compile_departures (root : Step) (processId : String) (processName : Option String)
    (net : Net) (accepted : compile root processId processName = .ok net) :
    net.Departures root := by
  have distinct := compile_ids_nodup root processId processName net accepted
  have steps := compile_leaves root processId processName net accepted
  obtain ⟨⟨event, eventId, oneStart⟩, _⟩ := compile_events root processId processName net accepted
  obtain ⟨valid, elements, represented, rfl⟩ :=
    compile_eq_ok root processId processName net accepted
  refine ⟨steps, ⟨?finish, rfl⟩, ⟨event, oneStart, ?start⟩, ?unconditional⟩
  case finish =>
    have ahead : endEventId ∉ slotIds (some root) := by
      intro reached
      exact (List.nodup_append.mp distinct).2.2 _ reached _ (List.mem_singleton_self _) rfl
    exact filter_foreign (some root) endEventId endEventId ahead
  case start =>
    rw [Net.incoming, List.filter_eq_nil_iff]
    intro flow member same
    apply target_ne_entry (some root) endEventId distinct flow member
    rw [entryId_occupied root endEventId valid.filled, ← eventId]
    exact eq_of_beq same
  case unconditional =>
    intro flow member
    obtain ⟨visit, _, own⟩ := (mem_slotFlows_iff (some root) endEventId flow).mp member
    exact (labels_of_ownFlows visit.step visit.target flow own).1

/-- The nested forks meet the premise. -/
theorem compile_departures_nestedForks :
    compile nestedForks "p" none = .ok nestedForksNet ∧ nestedForksNet.Departures nestedForks :=
  ⟨compile_nestedForks, compile_departures nestedForks "p" none nestedForksNet compile_nestedForks⟩

end Workflow
