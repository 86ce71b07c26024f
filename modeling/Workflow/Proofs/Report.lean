import Workflow.Proofs.Soundness
import Mathlib.Logic.Function.Iterate

/-!
# What a check reports

The check of a net reports exactly what is wrong with it, whatever the net looks like:
elements may share an identifier, flows may lead from an element to itself, in circles,
side by side or to places that no element has, and there may be any number of start and
end events. `issues_exact` gives the whole report in its order, with chains of flows in
place of the search.

The search takes edges away as it goes. `rounds_eq_explore` says that this is only a way
to count: a search that keeps all edges goes through the same queues and finds the same
places, and its queue is empty after one round for the root and one for every edge.
-/

namespace Workflow

namespace Reach

variable {α : Type} [DecidableEq α]

/-- One round of a search that keeps all edges: the first place of the queue is dropped
if it was found before, and otherwise it is found and its targets join the queue. -/
def round (edges : List (α × α)) : List α × List α → List α × List α
  | ([], found) => ([], found)
  | (place :: queue, found) =>
      if place ∈ found then (queue, found) else (queue ++ targets place edges, place :: found)

/-- The edges that a search has not followed, given the places it has found. -/
def unfollowed (edges : List (α × α)) (found : List α) : List (α × α) :=
  edges.filter fun edge => edge.1 ∉ found

/-- Once a place is found, its edges are followed. -/
theorem without_unfollowed (edges : List (α × α)) (found : List α) (place : α) :
    without place (unfollowed edges found) = unfollowed edges (place :: found) := by
  rw [without, unfollowed, unfollowed, List.filter_filter]
  refine List.filter_congr fun edge _ => ?_
  simp [List.mem_cons, not_or]

/-- No edge of a new place has been followed. -/
theorem targets_unfollowed (edges : List (α × α)) (found : List α) (place : α)
    (fresh : place ∉ found) : targets place (unfollowed edges found) = targets place edges := by
  rw [targets, targets, unfollowed, List.filter_filter]
  congr 1
  refine List.filter_congr fun edge _ => ?_
  by_cases here : edge.1 = place <;> simp [here, fresh]

/-- Rounds go through the queue of a search until it is empty. Queue and edges not
followed are together an upper bound on the rounds this takes.

Proof: induction along the search. A round shortens the queue, or it moves edges that
were not followed into the queue and takes one place from it. -/
theorem rounds_eq_explore (edges : List (α × α)) (queue found : List α) (rounds : Nat)
    (enough : queue.length + (unfollowed edges found).length ≤ rounds) :
    (round edges)^[rounds] (queue, found) = ([], explore (unfollowed edges found) queue found) := by
  generalize remaining : unfollowed edges found = left at enough ⊢
  fun_induction explore left queue found generalizing rounds with
  | case1 left found =>
    exact Function.iterate_fixed rfl rounds
  | case2 left place queue found known inductionHypothesis =>
    obtain ⟨rounds, rfl⟩ : ∃ fewer, rounds = fewer + 1 :=
      Nat.exists_eq_add_one.mpr (by rw [List.length_cons] at enough; omega)
    rw [Function.iterate_succ_apply, round, if_pos known]
    apply inductionHypothesis rounds remaining
    rw [List.length_cons] at enough
    omega
  | case3 left place queue found fresh inductionHypothesis =>
    subst remaining
    obtain ⟨rounds, rfl⟩ : ∃ fewer, rounds = fewer + 1 :=
      Nat.exists_eq_add_one.mpr (by rw [List.length_cons] at enough; omega)
    have parts := length_targets_add_length_without place (unfollowed edges found)
    rw [Function.iterate_succ_apply, round, if_neg fresh,
      ← targets_unfollowed edges found place fresh]
    apply inductionHypothesis rounds (without_unfollowed edges found place).symm
    rw [List.length_cons] at enough
    rw [List.length_append]
    omega

/-- A search ends on cyclic graphs too: after one round for its root and one for every
edge the queue is empty, and found are the places that a chain of edges leads to. -/
theorem rounds_reachable (edges : List (α × α)) (root : α) :
    (round edges)^[edges.length + 1] ([root], []) = ([], reachable edges root) ∧
      ∀ place, place ∈ reachable edges root ↔ Chained edges root place := by
  have all : unfollowed edges [] = edges := by simp [unfollowed]
  refine ⟨?_, mem_reachable_iff edges root⟩
  rw [rounds_eq_explore edges [root] [] _ (by rw [all, List.length_singleton]; omega), all,
    reachable]

end Reach

namespace Net

/-- The ends of a flow that are no elements, the source before the target. -/
def unknownEnds (net : Net) (flow : Flow) : List String :=
  [flow.source, flow.target].filter fun id => id ∉ net.elements.map (·.id)

open Classical in
/-- One issue for every element with a property, in the order of the elements. -/
noncomputable def issuesWhere (net : Net) (faulty : Element → Prop) (issue : String → Issue) :
    List Issue :=
  (net.elements.filter faulty).map fun element => issue element.id

/-- A flow's issues name its unknown ends under the flow's key. -/
theorem danglingEnds_eq (net : Net) (position : Nat) (flow : Flow) :
    net.danglingEnds position flow =
      (net.unknownEnds flow).map fun id => .danglingFlow (net.keyOf position flow) id := by
  have unknown (id : String) : net.hasElement id = decide (id ∈ net.elements.map (·.id)) := by
    rw [Bool.eq_iff_iff, hasElement_iff, decide_eq_true_iff]
  simp only [danglingEnds, unknownEnds, unknown, List.filterMap_cons, List.filterMap_nil,
    List.filter_cons, List.filter_nil]
  by_cases source : flow.source ∈ net.elements.map (·.id) <;>
    by_cases target : flow.target ∈ net.elements.map (·.id) <;>
    simp [source, target]

/-- The issues of flows stand in the order of the flows. -/
theorem danglingIssues_eq (net : Net) :
    net.danglingIssues =
      (net.flows.zip net.flowKeys).flatMap fun (flow, key) =>
        (net.unknownEnds flow).map fun id => .danglingFlow key id := by
  rw [danglingIssues, List.flatMap_def]
  congr 1
  apply List.ext_getElem
  · simp [flowKeys]
  · intro position _ _
    simp [flowKeys, danglingEnds_eq]

/-- An event gives one issue for every element that no chain of edges leads to. -/
theorem strayIssues_eq (net : Net) (event : Element) (edges : List (String × String))
    (issue : String → Issue) :
    net.strayIssues (some event) edges issue =
      net.issuesWhere (fun element => ¬ Reach.Chained edges event.id element.id) issue := by
  rw [strayIssues, issuesWhere, ← List.filterMap_eq_map, ← List.filterMap_eq_filter,
    List.filterMap_filterMap]
  refine List.filterMap_congr fun element _ => ?_
  by_cases reached : Reach.Chained edges event.id element.id <;>
    simp [Reach.mem_reachable_iff, reached, Option.guard]

/-- The issue of a number of events gives the number of elements of their kind. -/
theorem countIssues_eq (net : Net) (issue : Nat → Issue) (kind : ElementKind) :
    countIssues issue (net.elementsOfKind kind).length =
      if net.elements.countP (·.kind == kind) = 1 then []
      else [issue (net.elements.countP (·.kind == kind))] := by
  rw [countIssues, elementsOfKind, List.countP_eq_length_filter]

/-- The check of a net reports, in this order: the number of start events and the number of
end events, unless it is one; for every flow, under its key, the ends that are no element's
identifier; the elements that no chain of flows leads to from the first start event; and the
elements from which no chain of flows leads to the first end event. Without such an event the
corresponding part is empty.

The search behind the last two parts ends for every net and every root, after one round for the
root and one for every flow, with an empty queue and the ends of all chains of flows. -/
theorem issues_exact (net : Net) :
    net.issues =
        (if net.elements.countP (·.kind == .startEvent) = 1 then []
          else [.startEventCount (net.elements.countP (·.kind == .startEvent))]) ++
        (if net.elements.countP (·.kind == .endEvent) = 1 then []
          else [.endEventCount (net.elements.countP (·.kind == .endEvent))]) ++
        ((net.flows.zip net.flowKeys).flatMap fun (flow, key) =>
          (net.unknownEnds flow).map fun id => .danglingFlow key id) ++
        (match net.elements.find? (·.kind == .startEvent) with
          | none => []
          | some start => net.issuesWhere (fun element =>
              ¬ Relation.ReflTransGen (Leads net.flows) start.id element.id) .unreachable) ++
        (match net.elements.find? (·.kind == .endEvent) with
          | none => []
          | some finish => net.issuesWhere (fun element =>
              ¬ Relation.ReflTransGen (Leads net.flows) element.id finish.id) .cannotReachEnd) ∧
      (∀ root, (Reach.round net.edges)^[net.flows.length + 1] ([root], []) =
          ([], Reach.reachable net.edges root) ∧
        ∀ id, id ∈ Reach.reachable net.edges root ↔
          Relation.ReflTransGen (Leads net.flows) root id) ∧
      ∀ root, (Reach.round net.reversedEdges)^[net.flows.length + 1] ([root], []) =
          ([], Reach.reachable net.reversedEdges root) ∧
        ∀ id, id ∈ Reach.reachable net.reversedEdges root ↔
          Relation.ReflTransGen (Leads net.flows) id root := by
  refine ⟨?report, ?forward, ?backward⟩
  case report =>
    rw [issues, countIssues_eq, countIssues_eq, danglingIssues_eq, startEvent?, endEvent?,
      elementsOfKind, elementsOfKind, List.head?_filter, List.head?_filter]
    congr 1
    · congr 1
      cases net.elements.find? (·.kind == .startEvent) with
      | none => rfl
      | some start => simp only [strayIssues_eq, chained_edges_iff]
    · cases net.elements.find? (·.kind == .endEvent) with
      | none => rfl
      | some finish => simp only [strayIssues_eq, chained_reversedEdges_iff]
  case forward =>
    intro root
    obtain ⟨ends, places⟩ := Reach.rounds_reachable net.edges root
    rw [edges, List.length_map, ← edges] at ends
    exact ⟨ends, fun id => (places id).trans (chained_edges_iff net root id)⟩
  case backward =>
    intro root
    obtain ⟨ends, places⟩ := Reach.rounds_reachable net.reversedEdges root
    rw [reversedEdges, List.length_map, ← reversedEdges] at ends
    exact ⟨ends, fun id => (places id).trans (chained_reversedEdges_iff net root id)⟩

end Net

end Workflow
