import Workflow.Net.Issues
import Workflow.Proofs.Ordering
import Workflow.Proofs.Reachability

/-!
# Compiled nets are sound

A net is sound if it has one start event and one end event, if every flow leads from an
element to an element, and if every element stands on a way from the one event to the
other. `issues_eq_nil_iff` says that the check of a net reports nothing exactly for the
sound nets; that compiled nets are sound is then a statement about chains of flows.

In the flows of a slot two things hold at once. Whatever the slot reaches, and its
target, can be reached from the place the slot is entered at; and the target can be
reached from whatever the slot reaches. A fork needs a branch for this, since only a
branch leads to the place behind it. Which branch does not matter: an empty one leads
there directly, and any other one closes there.
-/

namespace Workflow

/-- What a net must have to be run: one start event that leads to every element, one end
event that every element leads to, and elements at both ends of every flow. -/
structure Net.Sound (net : Net) : Prop where
  start : ∃ event, net.elementsOfKind .startEvent = [event] ∧
    ∀ element ∈ net.elements, Relation.ReflTransGen (Leads net.flows) event.id element.id
  finish : ∃ event, net.elementsOfKind .endEvent = [event] ∧
    ∀ element ∈ net.elements, Relation.ReflTransGen (Leads net.flows) element.id event.id
  known : ∀ flow ∈ net.flows,
    flow.source ∈ net.elements.map (·.id) ∧ flow.target ∈ net.elements.map (·.id)

/-- A number of events gives no issue exactly if it is one. -/
theorem countIssues_eq_nil_iff (issue : Nat → Issue) (events : List Element) :
    Net.countIssues issue events.length = [] ↔ ∃ event, events = [event] := by
  rw [← List.length_eq_one_iff, Net.countIssues]
  split <;> simp_all

/-- The flows give no issue exactly if their ends are elements. -/
theorem danglingIssues_eq_nil_iff (net : Net) :
    net.danglingIssues = [] ↔ ∀ flow ∈ net.flows,
      flow.source ∈ net.elements.map (·.id) ∧ flow.target ∈ net.elements.map (·.id) := by
  have ends (position : Nat) (flow : Flow) : net.danglingEnds position flow = [] ↔
      flow.source ∈ net.elements.map (·.id) ∧ flow.target ∈ net.elements.map (·.id) := by
    rw [← net.hasElement_iff, ← net.hasElement_iff]
    simp [Net.danglingEnds, List.filterMap_eq_nil_iff]
  rw [Net.danglingIssues, List.flatten_eq_nil_iff]
  constructor
  · intro clean flow member
    obtain ⟨position, bound, rfl⟩ := List.getElem_of_mem member
    exact (ends position _).mp (clean _ (List.mem_mapIdx.mpr ⟨position, bound, rfl⟩))
  · intro known issues member
    obtain ⟨position, bound, rfl⟩ := List.mem_mapIdx.mp member
    exact (ends position _).mpr (known _ (List.getElem_mem bound))

/-- An event gives no issue exactly if chains of edges lead from it to every element. -/
theorem strayIssues_eq_nil_iff (net : Net) (event : Element) (edges : List (String × String))
    (issue : String → Issue) :
    net.strayIssues (some event) edges issue = [] ↔
      ∀ element ∈ net.elements, Reach.Chained edges event.id element.id := by
  simp [Net.strayIssues, List.filterMap_eq_nil_iff, Reach.mem_reachable_iff]

/-- The edges of a net are the pairs of identifiers that its flows lead along. -/
theorem chained_edges_iff (net : Net) (first last : String) :
    Reach.Chained net.edges first last ↔ Relation.ReflTransGen (Leads net.flows) first last := by
  have linked : Reach.Linked net.edges = Leads net.flows := by
    funext source target
    simp [Reach.Linked, Net.edges, Leads]
  rw [Reach.Chained, linked]

/-- A chain of reversed edges is a chain of flows the other way round. -/
theorem chained_reversedEdges_iff (net : Net) (first last : String) :
    Reach.Chained net.reversedEdges first last ↔
      Relation.ReflTransGen (Leads net.flows) last first := by
  have linked : Reach.Linked net.reversedEdges = Function.swap (Leads net.flows) := by
    funext source target
    simp [Reach.Linked, Net.reversedEdges, Leads, Function.swap, and_comm]
  rw [Reach.Chained, linked, Relation.reflTransGen_swap]

/-- The check of a net reports nothing exactly if the net is sound. -/
theorem issues_eq_nil_iff (net : Net) : net.issues = [] ↔ net.Sound := by
  simp only [Net.issues, List.append_eq_nil_iff, countIssues_eq_nil_iff,
    danglingIssues_eq_nil_iff]
  constructor
  · rintro ⟨⟨⟨⟨⟨start, oneStart⟩, finish, oneFinish⟩, known⟩, unreached⟩, stranded⟩
    rw [Net.startEvent?, oneStart, List.head?_cons, strayIssues_eq_nil_iff] at unreached
    rw [Net.endEvent?, oneFinish, List.head?_cons, strayIssues_eq_nil_iff] at stranded
    refine ⟨⟨start, oneStart, ?_⟩, ⟨finish, oneFinish, ?_⟩, known⟩
    · intro element member
      exact (chained_edges_iff net _ _).mp (unreached element member)
    · intro element member
      exact (chained_reversedEdges_iff net _ _).mp (stranded element member)
  · rintro ⟨⟨start, oneStart, reached⟩, ⟨finish, oneFinish, closed⟩, known⟩
    refine ⟨⟨⟨⟨⟨start, oneStart⟩, finish, oneFinish⟩, known⟩, ?_⟩, ?_⟩
    · rw [Net.startEvent?, oneStart, List.head?_cons, strayIssues_eq_nil_iff]
      intro element member
      exact (chained_edges_iff net _ _).mpr (reached element member)
    · rw [Net.endEvent?, oneFinish, List.head?_cons, strayIssues_eq_nil_iff]
      intro element member
      exact (chained_reversedEdges_iff net _ _).mpr (closed element member)

/-- A fork leads into each of its branches. -/
theorem leads_into_branch (step : Step) (target : String) (fork : step.isFork) (branch : Branch)
    (member : branch ∈ step.branches) :
    Leads (step.ownFlows target) step.idText
      (entryId branch.child (entryId step.child target)) := by
  obtain ⟨position, _, rfl⟩ := List.getElem_of_mem member
  rw [Step.ownFlows, if_pos fork]
  refine ⟨_, List.mem_map_of_mem (a := (step.branches[position], 1 + position)) ?_, rfl, rfl⟩
  exact List.mk_add_mem_zipIdx_iff_getElem?.mpr (List.getElem?_eq_getElem _)

/-- A step that is no fork leads to the place behind it. -/
theorem leads_behind (step : Step) (target : String) (plain : ¬ step.isFork) :
    Leads (step.ownFlows target) step.idText (entryId step.child target) := by
  rw [Step.ownFlows, if_neg plain]
  exact ⟨_, List.mem_singleton.mpr rfl, rfl, rfl⟩

/-- A slot in whose flows every fork has branches, the flows being part of a list. -/
structure Routed (flows : List Flow) (slot : Option Step) (target : String) : Prop where
  within : slotFlows slot target ⊆ flows
  branched : ∀ step ∈ slotReached slot, step.isFork → step.branches ≠ []

section

variable (flows : List Flow) (step : Step) (target : String) (present : step.idText ≠ "")

include present

/-- The own flows of a step belong to a list that its slot is routed in. -/
theorem Routed.leads (routed : Routed flows (some step) target) (next : String)
    (own : Leads (step.ownFlows target) step.idText next) : Leads flows step.idText next := by
  obtain ⟨flow, member, ends⟩ := own
  exact ⟨flow,
    routed.within ((mem_slotFlows_occupied step target present flow).mpr (Or.inl member)), ends⟩

/-- The branches of a routed step are routed to the place behind it. -/
theorem Routed.branch (routed : Routed flows (some step) target) (branch : Branch)
    (entered : branch ∈ step.entered) :
    Routed flows branch.child (entryId step.child target) := by
  constructor
  · intro flow member
    exact routed.within ((mem_slotFlows_occupied step target present flow).mpr
      (Or.inr (Or.inl ⟨branch, entered, member⟩)))
  · intro below member
    refine routed.branched below ?_
    rw [slotReached_occupied step present]
    exact List.mem_cons_of_mem step
      (List.mem_append_left _ (List.mem_flatMap.mpr ⟨branch, entered, member⟩))

/-- What stands behind a routed step is routed to the step's target. -/
theorem Routed.behind (routed : Routed flows (some step) target) :
    Routed flows step.child target := by
  constructor
  · intro flow member
    exact routed.within ((mem_slotFlows_occupied step target present flow).mpr
      (Or.inr (Or.inr member)))
  · intro below member
    refine routed.branched below ?_
    rw [slotReached_occupied step present]
    exact List.mem_cons_of_mem step (List.mem_append_right _ member)

end

/-- From the place a slot is entered at, chains of flows lead to all that the slot reaches
and to its target.

Proof: induction over the slot. A step leads into its branches, and from there to what
they reach. Since it has a branch or a flow of its own behind it, it leads to the place
behind it too, which is the target of its branches, and from there on. -/
theorem chain_from_entry (flows : List Flow) (slot : Option Step) (target : String)
    (routed : Routed flows slot target) (id : String) (reached : id ∈ slotIds slot ++ [target]) :
    Relation.ReflTransGen (Leads flows) (entryId slot target) id := by
  induction slot using slot_induction generalizing target id with
  | vacant slot vacant =>
    rw [slotIds_vacant slot vacant, List.nil_append, List.mem_singleton] at reached
    rw [entryId_vacant slot target vacant, reached]
  | occupied step present branches child =>
    have intoBranch (branch : Branch) (entered : branch ∈ step.entered) (place : String)
        (inBranch : place ∈ slotIds branch.child ++ [entryId step.child target]) :
        Relation.ReflTransGen (Leads flows) step.idText place := by
      obtain ⟨fork, member⟩ := (step.mem_entered_iff branch).mp entered
      have own := leads_into_branch step target fork branch member
      have below := branches branch member _ (routed.branch flows step target present branch entered)
        place inBranch
      exact below.head (routed.leads flows step target present _ own)
    have toBehind : Relation.ReflTransGen (Leads flows) step.idText (entryId step.child target) := by
      by_cases fork : step.isFork
      · have filled : step.branches ≠ [] :=
          routed.branched step (by simp [slotReached_occupied step present]) fork
        obtain ⟨branch, member⟩ := List.exists_mem_of_ne_nil _ filled
        have entered := (step.mem_entered_iff branch).mpr ⟨fork, member⟩
        exact intoBranch branch entered _ (by simp)
      · have own := leads_behind step target fork
        exact Relation.ReflTransGen.single (routed.leads flows step target present _ own)
    rw [entryId_occupied step target present]
    rw [slotIds_occupied step present, List.cons_append, List.append_assoc, List.mem_cons,
      List.mem_append, List.mem_flatMap] at reached
    rcases reached with rfl | ⟨branch, entered, inBranch⟩ | behind
    · exact Relation.ReflTransGen.refl
    · exact intoBranch branch entered id (List.mem_append_left _ inBranch)
    · exact toBehind.trans (child target (routed.behind flows step target present) id behind)

/-- From all that a slot reaches, chains of flows lead to its target.

Proof: induction over the slot. What a branch reaches leads to the place behind the step,
which the slot behind the step is entered at. -/
theorem chain_to_target (flows : List Flow) (slot : Option Step) (target : String)
    (routed : Routed flows slot target) (id : String) (reached : id ∈ slotIds slot ++ [target]) :
    Relation.ReflTransGen (Leads flows) id target := by
  induction slot using slot_induction generalizing target id with
  | vacant slot vacant =>
    rw [slotIds_vacant slot vacant, List.nil_append, List.mem_singleton] at reached
    rw [reached]
  | occupied step present branches child =>
    have routedBehind := routed.behind flows step target present
    rw [slotIds_occupied step present, List.cons_append, List.append_assoc, List.mem_cons,
      List.mem_append, List.mem_flatMap] at reached
    rcases reached with rfl | ⟨branch, entered, inBranch⟩ | behind
    · have fromEntry := chain_from_entry flows (some step) target routed target (by simp)
      rwa [entryId_occupied step target present] at fromEntry
    · have toBehind := branches branch (step.branch_of_entered branch entered) _
        (routed.branch flows step target present branch entered) id
        (List.mem_append_left _ inBranch)
      have fromBehind := chain_from_entry flows step.child target routedBehind target (by simp)
      exact toBehind.trans fromBehind
    · exact child target routedBehind id behind

/-- Only steps of the kind of start events are represented by start events, and none is
represented by an end event. -/
theorem elementKind_event (kind : StepKind) :
    (kind.elementKind = .startEvent ↔ kind = .startEvent) ∧ kind.elementKind ≠ .endEvent := by
  cases kind <;> simp [StepKind.elementKind]

/-- If no step is a start event, no element that represents one is an event. -/
theorem no_event_of_represented (steps : List Step) (elements : List Element)
    (represented : List.Forall₂ Represents steps elements)
    (below : ∀ step ∈ steps, step.kind? ≠ some .startEvent) :
    ∀ element ∈ elements, element.kind ≠ .startEvent ∧ element.kind ≠ .endEvent := by
  intro element member
  obtain ⟨step, reached, kind, known, made⟩ := exists_of_forall₂ represented.flip element member
  obtain ⟨onlyStart, noEnd⟩ := elementKind_event kind
  rw [(ofStep_ok _ _ _ _ made).2.1]
  exact ⟨fun start => below step reached (onlyStart.mp start ▸ known), noEnd⟩

/-- The only start event of a compiled net stands for the root, and its only end event is
the one that closes every net. -/
theorem compile_events (root : Step) (processId : String) (processName : Option String) (net : Net)
    (accepted : compile root processId processName = .ok net) :
    (∃ first, first.id = root.idText ∧ net.elementsOfKind .startEvent = [first]) ∧
      net.elementsOfKind .endEvent = [endEvent] := by
  obtain ⟨valid, elements, represented, rfl⟩ :=
    compile_eq_ok root processId processName net accepted
  have filled := valid.filled
  have split : root.reached = _ := slotReached_occupied root filled
  have onlyStart := valid.onlyStart
  rw [split] at represented onlyStart
  cases represented with
  | @cons _ first _ others represents below =>
    obtain ⟨kind, known, made⟩ := represents
    obtain rfl : kind = .startEvent := Option.some.inj (known.symm.trans valid.start)
    obtain ⟨firstId, firstKind, _⟩ := ofStep_ok _ _ _ _ made
    have noEvent := no_event_of_represented _ others below onlyStart
    have noStart : others.filter (fun element => element.kind == .startEvent) = [] :=
      List.filter_eq_nil_iff.mpr fun element member => by simpa using (noEvent element member).1
    have noEnd : others.filter (fun element => element.kind == .endEvent) = [] :=
      List.filter_eq_nil_iff.mpr fun element member => by simpa using (noEvent element member).2
    refine ⟨⟨first, firstId, ?_⟩, ?_⟩
    · simp [Net.elementsOfKind, firstKind, StepKind.elementKind, noStart, endEvent]
    · simp [Net.elementsOfKind, firstKind, StepKind.elementKind, noEnd, endEvent]

/-- A compiled net has one start event and one end event, every flow has elements at its ends, and
every element can be reached from the start event and leads to the end event. -/
theorem sound_of_compiled (root : Step) (processId : String) (processName : Option String)
    (net : Net) (accepted : compile root processId processName = .ok net) : net.Sound := by
  have ids := compile_ids root processId processName net accepted
  obtain ⟨⟨first, firstId, oneStart⟩, oneEnd⟩ :=
    compile_events root processId processName net accepted
  obtain ⟨valid, elements, _, rfl⟩ := compile_eq_ok root processId processName net accepted
  have filled := valid.filled
  have routed : Routed (root.flowList endEventId) (some root) endEventId := by
    refine ⟨List.Subset.refl _, ?_⟩
    intro step member
    exact valid.branched step ((mem_reached_iff root step).mp member)
  have reached (element : Element) (member : element ∈ elements ++ [endEvent]) :
      element.id ∈ slotIds (some root) ++ [endEventId] :=
    ids ▸ List.mem_map_of_mem member
  refine ⟨⟨first, oneStart, ?_⟩, ⟨endEvent, oneEnd, ?_⟩, ?_⟩
  · intro element member
    rw [firstId, ← entryId_occupied root endEventId filled]
    exact chain_from_entry _ _ _ routed _ (reached element member)
  · intro element member
    exact chain_to_target _ _ _ routed _ (reached element member)
  · intro flow member
    rw [ids]
    have ends := (slotFlows_sublist (some root) endEventId flow member).subset
    exact ⟨ends (by simp), ends (by simp)⟩

/-- The check of a compiled net reports nothing: the net has one start event and one end
event, every flow has elements at its ends, and every element can be reached from the
start event and leads to the end event. -/
theorem compile_sound (root : Step) (processId : String) (processName : Option String) (net : Net)
    (accepted : compile root processId processName = .ok net) :
    net.issues = [] ∧ net.Sound := by
  have sound := sound_of_compiled root processId processName net accepted
  exact ⟨(issues_eq_nil_iff net).mpr sound, sound⟩

/-- The nested forks meet the premise. -/
theorem compile_sound_nestedForks :
    compile nestedForks "p" none = .ok nestedForksNet ∧
      nestedForksNet.issues = [] ∧ nestedForksNet.Sound :=
  ⟨compile_nestedForks, compile_sound nestedForks "p" none nestedForksNet compile_nestedForks⟩

end Workflow
