import Workflow.Proofs.Ordering

/-!
# Both passes keep one order

One pass makes an element of every reached step, the other puts out flows. Each of them
skips slots without a step on its own and decides on its own which branches are entered, so
they could drift apart. They do not: once the elements pass succeeds the flows pass does,
and the sources of the flows, each taken where it first occurs, are the identifiers of the
elements in their order.

For a slot this is `sources_of_slot`. A fork's identifier occurs in front of each of its
branches, and only the first occurrence counts. All other sources in front of the second
branch belong to the first one, which shares no identifier with the rest of the tree.
-/

namespace Workflow

/-- Without a common value, first occurrences are taken in two lists one after the other. -/
theorem eraseDups_append_of_apart (front back : List String)
    (apart : ∀ value ∈ back, value ∉ front) :
    (front ++ back).eraseDups = front.eraseDups ++ back.eraseDups := by
  have kept : back.removeAll front = back := by
    rw [List.removeAll, List.filter_eq_self]
    intro value member
    simpa using apart value member
  rw [List.eraseDups_append, kept]

/-- The sources of the flows of branches, apart from the fork itself, first occur in the order
of the identifiers that the branches reach, if they do so inside each branch. -/
theorem sources_of_branches (fork : Step) (continuation : String) (position : Nat)
    (branches : List Branch)
    (outside : fork.idText ∉ branches.flatMap fun branch => slotIds branch.child)
    (distinct : (branches.flatMap fun branch => slotIds branch.child).Nodup)
    (each : ∀ branch ∈ branches,
      ((slotFlows branch.child continuation).map (·.source)).eraseDups = slotIds branch.child) :
    (((branchesFlows fork continuation position branches).map (·.source)).filter
        fun id => !id == fork.idText).eraseDups =
      branches.flatMap fun branch => slotIds branch.child := by
  induction branches generalizing position with
  | nil => rfl
  | cons branch rest inductionHypothesis =>
    rw [List.flatMap_cons, List.mem_append, not_or] at outside
    rw [List.flatMap_cons, List.nodup_append] at distinct
    obtain ⟨_, distinctRest, apart⟩ := distinct
    have own : (fork.branchFlow continuation position branch).source = fork.idText := rfl
    have others := inductionHypothesis (position + 1) outside.2 distinctRest
      fun later member => each later (List.mem_cons_of_mem branch member)
    have first := each branch List.mem_cons_self
    have inFirst (id : String) :
        id ∈ (slotFlows branch.child continuation).map (·.source) ↔ id ∈ slotIds branch.child := by
      rw [← first, List.mem_eraseDups]
    have whole : ((slotFlows branch.child continuation).map (·.source)).filter
        (fun id => !id == fork.idText) = (slotFlows branch.child continuation).map (·.source) := by
      rw [List.filter_eq_self]
      intro id member
      have reached := (inFirst id).mp member
      have other : id ≠ fork.idText := fun same => outside.1 (same ▸ reached)
      simpa using other
    rw [branchesFlows_cons, List.map_cons, own, List.map_append, List.filter_cons,
      List.filter_append, whole]
    simp only [beq_self_eq_true, Bool.not_true, Bool.false_eq_true, if_false]
    rw [eraseDups_append_of_apart, first, others, List.flatMap_cons]
    intro id later early
    rw [← List.mem_eraseDups, others] at later
    exact apart id ((inFirst id).mp early) id later rfl

/-- The sources of the flows in front of those behind a step first occur in the order of the
step's identifier and those that its entered branches reach. A fork needs a branch for this. -/
theorem sources_of_front (step : Step) (target : String)
    (branched : step.isFork → step.branches ≠ [])
    (outside : step.idText ∉ step.entered.flatMap fun branch => slotIds branch.child)
    (distinct : (step.entered.flatMap fun branch => slotIds branch.child).Nodup)
    (each : ∀ branch ∈ step.entered,
      ((slotFlows branch.child (entryId step.child target)).map (·.source)).eraseDups =
        slotIds branch.child) :
    ((if step.isFork then branchesFlows step (entryId step.child target) 1 step.branches
        else [step.plainFlow target]).map (·.source)).eraseDups =
      step.idText :: step.entered.flatMap fun branch => slotIds branch.child := by
  unfold Step.entered at outside distinct each ⊢
  cases fork : step.isFork with
  | false => simp [Step.plainFlow, List.eraseDups_cons]
  | true =>
    simp only [fork, if_true] at outside distinct each ⊢
    have inBranches := sources_of_branches step (entryId step.child target) 1 step.branches outside
      distinct each
    obtain ⟨branch, rest, split⟩ := List.exists_cons_of_ne_nil (branched fork)
    have own : (step.branchFlow (entryId step.child target) 1 branch).source = step.idText := rfl
    rw [split, branchesFlows_cons, List.map_cons, own] at inBranches ⊢
    rw [List.filter_cons] at inBranches
    simp only [beq_self_eq_true, Bool.not_true, Bool.false_eq_true, if_false] at inBranches
    rw [List.eraseDups_cons, inBranches]

/-- If no two steps reached from a slot share an identifier and every fork has a branch, the
sources of the slot's flows first occur in the order in which the slot reaches them.

Proof: induction over the slot. The flows in front of those behind a step start at the step
and inside its branches, so their sources and those behind the step have none in common. -/
theorem sources_of_slot (slot : Option Step) (target : String) (distinct : (slotIds slot).Nodup)
    (branched : ∀ step ∈ slotReached slot, step.isFork → step.branches ≠ []) :
    ((slotFlows slot target).map (·.source)).eraseDups = slotIds slot := by
  induction slot using slot_induction generalizing target with
  | vacant slot vacant =>
    rw [slotFlows_vacant slot target vacant, slotIds_vacant slot vacant]
    rfl
  | occupied step present branches child =>
    rw [slotIds_occupied step present, ← List.cons_append, List.nodup_append, List.nodup_cons]
      at distinct
    obtain ⟨⟨outside, distinctBranches⟩, distinctBehind, apart⟩ := distinct
    rw [slotReached_occupied step present] at branched
    have inBranch (branch : Branch) (entered : branch ∈ step.entered) :
        ((slotFlows branch.child (entryId step.child target)).map (·.source)).eraseDups =
          slotIds branch.child := by
      apply branches branch (step.branch_of_entered branch entered)
      · exact distinctBranches.sublist (sublist_flatMap (fun branch => slotIds branch.child)
          step.entered branch entered)
      · intro below reached
        apply branched below
        exact List.mem_cons_of_mem step
          (List.mem_append_left _ (List.mem_flatMap.mpr ⟨branch, entered, reached⟩))
    have front := sources_of_front step target (branched step List.mem_cons_self) outside
      distinctBranches inBranch
    have behind := child target distinctBehind fun below reached =>
      branched below (List.mem_cons_of_mem step (List.mem_append_right _ reached))
    rw [slotFlows_occupied step target present, List.map_append, eraseDups_append_of_apart, front,
      behind, slotIds_occupied step present, List.cons_append]
    intro id later early
    rw [← List.mem_eraseDups, behind] at later
    rw [← List.mem_eraseDups, front] at early
    exact apart id early id later rfl

/-- A tree whose elements pass succeeds is compiled, and the net consists of the elements, the
end event and the flows of the tree. -/
theorem compile_of_elements (root : Step) (elements : List Element)
    (admitted : root.elements = .ok elements) (processId : String) (processName : Option String) :
    compile root processId processName =
      .ok { id := processId, name := processName, executable := true,
            elements := elements ++ [endEvent], flows := root.flowList endEventId } := by
  have routed := flows_of_valid root (valid_of_elements root elements admitted) endEventId
  rw [compile, admitted, routed]
  rfl

/-- Once the elements pass succeeds, the flows pass succeeds for every target. In the net of the
tree the distinct sources of the flows, in the order of their first occurrences, are the
identifiers of the elements in front of the end event, and every flow leads to an element. -/
theorem compile_sharedOrder (root : Step) (elements : List Element)
    (admitted : root.elements = .ok elements) (processId : String) (processName : Option String) :
    (∀ target, ∃ flows, root.flows target = .ok flows) ∧
      ∃ net, compile root processId processName = .ok net ∧
        net.elements = elements ++ [endEvent] ∧
        (net.flows.map (·.source)).eraseDups = elements.map (·.id) ∧
        ∀ flow ∈ net.flows, flow.target ∈ net.elements.map (·.id) := by
  have valid := valid_of_elements root elements admitted
  have compiled := compile_of_elements root elements admitted processId processName
  have ids := compile_ids root processId processName _ compiled
  have sources := sources_of_slot (some root) endEventId valid.distinct fun step reached =>
    valid.branched step ((mem_reached_iff root step).mp reached)
  refine ⟨fun target => ⟨_, flows_of_valid root valid target⟩, _, compiled, rfl, ?sources, ?targets⟩
  case sources =>
    rw [List.map_append] at ids
    exact sources.trans (List.append_cancel_right ids).symm
  case targets =>
    intro flow member
    rw [ids]
    exact (slotFlows_sublist (some root) endEventId flow member).subset (by simp)

/-- The passes over the two forks share their order, open branches and a vacant slot included. -/
theorem compile_sharedOrder_nestedForks :
    nestedForks.elements = .ok nestedForksNet.elements.dropLast ∧
      (∀ target, ∃ flows, nestedForks.flows target = .ok flows) ∧
      ∃ net, compile nestedForks "p" none = .ok net ∧
        net.elements = nestedForksNet.elements.dropLast ++ [endEvent] ∧
        (net.flows.map (·.source)).eraseDups = nestedForksNet.elements.dropLast.map (·.id) ∧
        ∀ flow ∈ net.flows, flow.target ∈ net.elements.map (·.id) :=
  ⟨elements_nestedForks, compile_sharedOrder nestedForks _ elements_nestedForks "p" none⟩

end Workflow
