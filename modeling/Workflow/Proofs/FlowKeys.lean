import Workflow.Diagram
import Workflow.Proofs.Departures
import Mathlib.Data.List.Nodup

/-!
# Keys of flows

The key of a flow is its identifier, or a name made from the process identifier and the
flow's position. Both kinds end in an underscore and a number. A number has no
underscore, so a key falls apart in one way at its last one (`numbered_inj`); and what
stands before it ends in `_Flow` for the one kind and in `eFlow` for the other, whatever
the identifiers look like. Keys of one kind differ because positions do, or because the
flows of one fork are numbered and identifiers are distinct.

Since no two keys are equal, a diagram that draws every element and every flow once has as
many shapes and edges as the net has elements and flows.
-/

namespace Workflow

/-- An underscore behind which there is no other splits a text in one way. -/
theorem last_underscore_inj (front otherFront back otherBack : List Char) (free : '_' ∉ back)
    (otherFree : '_' ∉ otherBack) (same : front ++ '_' :: back = otherFront ++ '_' :: otherBack) :
    front = otherFront ∧ back = otherBack := by
  rcases List.append_eq_append_iff.mp same with ⟨between, rfl, split⟩ | ⟨between, rfl, split⟩
  · cases between with
    | nil => simpa using split
    | cons first between =>
      obtain ⟨_, rfl⟩ := List.cons.inj split
      simp at free
  · cases between with
    | nil => simpa [eq_comm] using split
    | cons first between =>
      obtain ⟨_, rfl⟩ := List.cons.inj split
      simp at otherFree

/-- A number has no underscore. -/
theorem underscore_notMem_toString (n : Nat) : '_' ∉ (toString n).toList := by
  rw [Nat.toString_eq_repr, Nat.toList_repr]
  intro digit
  have isDigit := Nat.isDigit_of_mem_toDigits (by decide) (by decide) digit
  exact absurd isDigit (by decide)

/-- A number is told by its decimal, because the decimal reads back as it. -/
theorem decimal_inj {first second : Nat} (same : toString first = toString second) :
    first = second := by
  have digits := congrArg String.toList same
  simp only [Nat.toString_eq_repr, Nat.toList_repr] at digits
  have numbers := congrArg (fun digits => Nat.ofDigitChars 10 digits 0) digits
  simpa only [Nat.ofDigitChars_ten_toDigits] using numbers

/-- A stem, an underscore and a number make different names for different stems and
numbers. -/
theorem numbered_inj (stem otherStem : String) (number otherNumber : Nat)
    (same : stem ++ "_" ++ toString number = otherStem ++ "_" ++ toString otherNumber) :
    stem = otherStem ∧ number = otherNumber := by
  have texts := congrArg String.toList same
  simp only [String.toList_append, List.append_assoc] at texts
  obtain ⟨stems, numbers⟩ := last_underscore_inj _ _ _ _ (underscore_notMem_toString number)
    (underscore_notMem_toString otherNumber) texts
  exact ⟨String.toList_inj.mp stems, decimal_inj (String.toList_inj.mp numbers)⟩

/-- The identifier of a flow into a branch, as a stem and a number. -/
theorem branchFlowId_eq (forkId : String) (position : Nat) :
    branchFlowId forkId position = forkId ++ "_SequenceFlow" ++ "_" ++ toString position := by
  have infix_eq : "_SequenceFlow_" = "_SequenceFlow" ++ "_" := by decide
  rw [branchFlowId, infix_eq, ← String.append_assoc]

/-- The key of a flow without an identifier, as a stem and a number. -/
theorem anonymousKey_eq (processId : String) (number : Nat) :
    processId ++ anonymousFlowInfix ++ toString number =
      processId ++ "_Flow" ++ "_" ++ toString number := by
  have infix_eq : anonymousFlowInfix = "_Flow" ++ "_" := by decide
  rw [infix_eq, ← String.append_assoc]

/-- Flows into branches have different identifiers if they start at different forks or lead
into branches at different positions. -/
theorem branchFlowId_inj (forkId otherId : String) (position otherPosition : Nat)
    (same : branchFlowId forkId position = branchFlowId otherId otherPosition) :
    forkId = otherId ∧ position = otherPosition := by
  rw [branchFlowId_eq, branchFlowId_eq] at same
  obtain ⟨stems, positions⟩ := numbered_inj _ _ _ _ same
  exact ⟨(String.append_left_inj _).mp stems, positions⟩

/-- A key made from a process identifier is never the identifier of a flow into a branch. -/
theorem anonymousKey_ne_branchFlowId (processId forkId : String) (number position : Nat) :
    processId ++ anonymousFlowInfix ++ toString number ≠ branchFlowId forkId position := by
  intro same
  rw [anonymousKey_eq, branchFlowId_eq] at same
  -- Read from their ends, the stems differ where the one has the underscore of its infix.
  have stems := congrArg (fun stem => stem.toList.reverse) (numbered_inj _ _ _ _ same).1
  simp [String.toList_append] at stems

/-- The own flows of a step have different identifiers. -/
theorem ownFlows_ids_nodup (step : Step) (target : String) :
    ((step.ownFlows target).map (·.id)).Nodup := by
  by_cases fork : step.isFork
  · have ids : (step.ownFlows target).map (·.id) =
        (List.range' 1 step.branches.length).map fun position =>
          some (branchFlowId step.idText position) := by
      simpa [Function.comp_def] using congrArg (List.map Prod.fst) (ownFlows_fork step target fork)
    rw [ids]
    apply List.Nodup.map _ List.nodup_range'
    intro first second same
    exact (branchFlowId_inj _ _ _ _ (Option.some.inj same)).2
  · rw [Step.ownFlows, if_neg fork]
    simp

/-- A flow of a slot has no identifier, or one that its source and a position make. -/
theorem id_of_slotFlows (slot : Option Step) (target : String) (flow : Flow)
    (member : flow ∈ slotFlows slot target) :
    flow.id = none ∨ ∃ position, flow.id = some (branchFlowId flow.source position) := by
  obtain ⟨visit, _, own⟩ := (mem_slotFlows_iff slot target flow).mp member
  rw [source_of_ownFlows visit.step visit.target flow own]
  exact (labels_of_ownFlows visit.step visit.target flow own).2

/-- No two flows of a slot share an identifier, if no two reached steps do.

Flows with one identifier start at one step; there they stand among its own flows, whose
identifiers differ. -/
theorem slotFlows_ids (slot : Option Step) (target : String) (distinct : (slotIds slot).Nodup) :
    (slotFlows slot target).Pairwise fun first second =>
      first.id = none ∨ first.id ≠ second.id := by
  rw [List.pairwise_iff_forall_sublist]
  intro first second order
  have firstMember : first ∈ slotFlows slot target := order.subset (by simp)
  have secondMember : second ∈ slotFlows slot target := order.subset (by simp)
  rcases id_of_slotFlows slot target first firstMember with anonymous | ⟨position, named⟩
  · exact Or.inl anonymous
  refine Or.inr fun same => ?_
  have together : second.source = first.source := by
    rcases id_of_slotFlows slot target second secondMember with anonymous | ⟨other, otherNamed⟩
    · simp [anonymous, named] at same
    · rw [named, otherNamed, Option.some.injEq] at same
      exact (branchFlowId_inj _ _ _ _ same).1.symm
  -- Both flows start at the step that the first one is an own flow of, so both are among them.
  obtain ⟨visit, visited, own⟩ := (mem_slotFlows_iff slot target first).mp firstMember
  have source := source_of_ownFlows visit.step visit.target first own
  have among := order.filter fun flow => flow.source == visit.step.idText
  rw [filter_slotFlows slot target distinct visit visited] at among
  have ids := (ownFlows_ids_nodup visit.step visit.target).sublist (among.map (·.id))
  simp [together, source, same] at ids

/-- The key of a flow without an identifier. -/
theorem keyOf_anonymous (net : Net) (position : Nat) (flow : Flow) (anonymous : flow.id = none) :
    net.keyOf position flow = net.id ++ anonymousFlowInfix ++ toString (position + 1) := by
  rw [Net.keyOf, anonymous]

/-- The key of a flow with an identifier. -/
theorem keyOf_named (net : Net) (position : Nat) (flow : Flow) (id : String)
    (named : flow.id = some id) : net.keyOf position flow = id := by
  rw [Net.keyOf, named]

/-- No two keys of a compiled net are equal.

Two flows without identifiers differ in their positions, and two flows with identifiers in
these. A key of the one kind is never one of the other. -/
theorem compile_flowKeys_nodup (root : Step) (processId : String) (processName : Option String)
    (net : Net) (accepted : compile root processId processName = .ok net) :
    net.flowKeys.Nodup := by
  have named (flow : Flow) (member : flow ∈ net.flows) :
      flow.id = none ∨ ∃ position, flow.id = some (branchFlowId flow.source position) := by
    obtain ⟨_, _, _, rfl⟩ := compile_eq_ok root processId processName net accepted
    exact id_of_slotFlows (some root) endEventId flow member
  have apart : net.flows.Pairwise fun first second => first.id = none ∨ first.id ≠ second.id := by
    obtain ⟨valid, _, _, rfl⟩ := compile_eq_ok root processId processName net accepted
    exact slotFlows_ids (some root) endEventId valid.distinct
  rw [List.pairwise_iff_getElem] at apart
  rw [List.Nodup, List.pairwise_iff_getElem]
  intro first second firstBound secondBound order same
  simp only [Net.flowKeys, List.length_mapIdx, List.getElem_mapIdx] at firstBound secondBound same
  rcases named _ (List.getElem_mem firstBound) with firstId | ⟨position, firstId⟩
  · rw [keyOf_anonymous net first _ firstId] at same
    rcases named _ (List.getElem_mem secondBound) with secondId | ⟨position, secondId⟩
    · rw [keyOf_anonymous net second _ secondId] at same
      have numbers := decimal_inj ((String.append_right_inj _).mp same)
      omega
    · rw [keyOf_named net second _ _ secondId] at same
      exact anonymousKey_ne_branchFlowId _ _ _ _ same
  · rw [keyOf_named net first _ _ firstId] at same
    rcases named _ (List.getElem_mem secondBound) with secondId | ⟨other, secondId⟩
    · rw [keyOf_anonymous net second _ secondId] at same
      exact anonymousKey_ne_branchFlowId _ _ _ _ same.symm
    · rw [keyOf_named net second _ _ secondId] at same
      rcases apart first second firstBound secondBound order with anonymous | different
      · simp [firstId] at anonymous
      · exact different (by rw [firstId, secondId, same])

/-- A key stands for one position if no two keys are equal. -/
theorem position_of_flowKey (net : Net) (distinct : net.flowKeys.Nodup) (first second : Nat)
    (bound : first < net.flows.length) (same : net.flowKey? first = net.flowKey? second) :
    first = second := by
  have length : net.flowKeys.length = net.flows.length := List.length_mapIdx
  rw [← net.flowKeys_getElem?, ← net.flowKeys_getElem?] at same
  exact (List.getElem?_inj (length ▸ bound) distinct).mp same

/-- The diagram has one shape for every identifier of an element and one edge for every key
of a flow, and no others. -/
structure Diagram.Draws (diagram : Diagram) (net : Net) : Prop where
  oneShape : (diagram.shapes.map (·.1)).Nodup
  oneEdge : (diagram.edges.map (·.1)).Nodup
  shapes : ∀ id, id ∈ diagram.shapes.map (·.1) ↔ id ∈ net.elements.map (·.id)
  edges : ∀ key, key ∈ diagram.edges.map (·.1) ↔ ∃ position, net.flowKey? position = some key

/-- The keys of a net are those of its positions. -/
theorem mem_flowKeys_iff (net : Net) (key : String) :
    key ∈ net.flowKeys ↔ ∃ position, net.flowKey? position = some key := by
  simp only [List.mem_iff_getElem?, net.flowKeys_getElem?]

/-- A diagram that draws a net fits it. -/
theorem verify_of_draws (diagram : Diagram) (net : Net) (draws : diagram.Draws net) :
    diagram.verify net = .ok () := by
  have shapes : (diagram.shapes.map (·.1)).find? (fun id => !net.hasElement id) = none := by
    rw [List.find?_eq_none]
    intro id shape
    simpa using (net.hasElement_iff id).mpr ((draws.shapes id).mp shape)
  have edges : (diagram.edges.map (·.1)).find? (fun key => !net.flowKeys.contains key) = none := by
    rw [List.find?_eq_none]
    intro key edge
    simpa using (mem_flowKeys_iff net key).mpr ((draws.edges key).mp edge)
  rw [Diagram.verify, Diagram.unknownKey?, shapes, edges]
  rfl

/-- The keys of a compiled net tell its flows apart, whatever the identifiers of the process
and the steps are. A diagram that draws the net has as many shapes as the net has elements
and as many edges as it has flows, and it is accepted. -/
theorem compile_flowKeys (root : Step) (processId : String) (processName : Option String)
    (net : Net) (accepted : compile root processId processName = .ok net) :
    (∀ first second, first < net.flows.length → second < net.flows.length →
      net.flowKey? first = net.flowKey? second → first = second) ∧
    ∀ diagram : Diagram, diagram.Draws net →
      diagram.shapes.length = net.elements.length ∧ diagram.edges.length = net.flows.length ∧
        diagram.verify net = .ok () := by
  have keys := compile_flowKeys_nodup root processId processName net accepted
  have ids := compile_elements_nodup root processId processName net accepted
  constructor
  · intro first second firstBound _ same
    exact position_of_flowKey net keys first second firstBound same
  · intro diagram draws
    have shapes := (List.perm_ext_iff_of_nodup draws.oneShape ids).mpr draws.shapes
    have edges := (List.perm_ext_iff_of_nodup draws.oneEdge keys).mpr fun key =>
      (draws.edges key).trans (mem_flowKeys_iff net key).symm
    refine ⟨?_, ?_, verify_of_draws diagram net draws⟩
    · simpa using shapes.length_eq
    · simpa [Net.flowKeys] using edges.length_eq

/-- A drawing of the net of the nested forks. -/
def nestedForksDiagram : Diagram where
  shapes :=
    let box : Bounds := ⟨.zero false, .zero false, .zero false, .zero false⟩
    ["EndEvent", "copy", "inner", "join", "outer", "start", "task"].map fun id => (id, box)
  edges :=
    ["inner_SequenceFlow_1", "inner_SequenceFlow_2", "inner_SequenceFlow_3",
      "outer_SequenceFlow_1", "outer_SequenceFlow_2", "p_Flow_1", "p_Flow_4", "p_Flow_8",
      "p_Flow_9"].map fun key => (key, [])

/-- The nested forks and a drawing of their net meet the premises. -/
theorem compile_flowKeys_nestedForks :
    compile nestedForks "p" none = .ok nestedForksNet ∧
      (∀ first second, first < nestedForksNet.flows.length →
        second < nestedForksNet.flows.length →
        nestedForksNet.flowKey? first = nestedForksNet.flowKey? second → first = second) ∧
      nestedForksDiagram.Draws nestedForksNet ∧
      nestedForksDiagram.shapes.length = nestedForksNet.elements.length ∧
      nestedForksDiagram.edges.length = nestedForksNet.flows.length ∧
      nestedForksDiagram.verify nestedForksNet = .ok () := by
  have shapes : (nestedForksDiagram.shapes.map (·.1)).Perm (nestedForksNet.elements.map (·.id)) := by
    decide
  have edges : (nestedForksDiagram.edges.map (·.1)).Perm nestedForksNet.flowKeys := by decide
  have draws : nestedForksDiagram.Draws nestedForksNet :=
    ⟨by decide, by decide, fun _ => shapes.mem_iff,
      fun key => edges.mem_iff.trans (mem_flowKeys_iff nestedForksNet key)⟩
  obtain ⟨keys, fits⟩ := compile_flowKeys nestedForks "p" none nestedForksNet compile_nestedForks
  exact ⟨compile_nestedForks, keys, draws, fits nestedForksDiagram draws⟩

end Workflow
