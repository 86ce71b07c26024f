import Workflow.Proofs.Validity
import Mathlib.Data.List.Basic
import Mathlib.Logic.Relation

/-!
# Flows lead forward

The pre-order of a tree is an order in which every flow leads forward. For a slot this
says that both ends of a flow stand, source first, in the list of the identifiers the
slot reaches followed by its target. An open path inside a branch leads to the place
behind the fork, and that place is the first one the slot behind the fork is entered
at; so it comes after all branches, however many forks pass it on.

For a compiled net the list is that of its elements. An identifier stands there once,
so its place is a rank that every flow raises, and no chain of flows returns to where
it began.
-/

namespace Workflow

/-- Some flow leads from one identifier to another. -/
def Leads (flows : List Flow) (source target : String) : Prop :=
  ∃ flow ∈ flows, flow.source = source ∧ flow.target = target

/-- The place a slot is entered at is reached from it, or is its target. -/
theorem entryId_mem (slot : Option Step) (target : String) :
    entryId slot target ∈ slotIds slot ++ [target] := by
  obtain ⟨rest, begins⟩ := slotIds_append_target slot target
  rw [begins]
  exact List.mem_cons_self

/-- The identifiers of an entered branch and the place behind the fork stand, in this
order, among those of the branches, those behind the step and the target. -/
theorem branch_sublist (step : Step) (target : String) (branch : Branch)
    (entered : branch ∈ step.entered) :
    (slotIds branch.child ++ [entryId step.child target]).Sublist
      (step.entered.flatMap (fun branch => slotIds branch.child) ++
        (slotIds step.child ++ [target])) := by
  refine List.Sublist.append
    (sublist_flatMap (fun branch => slotIds branch.child) step.entered branch entered) ?_
  exact List.singleton_sublist.mpr (entryId_mem step.child target)

/-- A step's own flows lead to places behind the step. -/
theorem target_of_ownFlows (step : Step) (target : String) (flow : Flow)
    (own : flow ∈ step.ownFlows target) :
    flow.target ∈ step.entered.flatMap (fun branch => slotIds branch.child) ++
      (slotIds step.child ++ [target]) := by
  unfold Step.ownFlows at own
  split at own
  · rename_i fork
    obtain ⟨entry, listed, rfl⟩ := List.mem_map.mp own
    have entered : entry.1 ∈ step.entered :=
      (step.mem_entered_iff entry.1).mpr ⟨fork, List.fst_mem_of_mem_zipIdx listed⟩
    exact (branch_sublist step target entry.1 entered).subset (entryId_mem entry.1.child _)
  · rw [List.mem_singleton.mp own]
    exact List.mem_append_right _ (entryId_mem step.child target)

/-- Both ends of a flow stand, source first, among the identifiers of its slot and the
slot's target.

Proof: induction over the slot. A step's own flows start at the first identifier. The
flows of a branch lie among the identifiers of the branch and the place behind the fork,
which stand in this order in the whole list. -/
theorem slotFlows_sublist (slot : Option Step) (target : String) (flow : Flow)
    (member : flow ∈ slotFlows slot target) :
    [flow.source, flow.target].Sublist (slotIds slot ++ [target]) := by
  induction slot using slot_induction generalizing target with
  | vacant slot vacant =>
    rw [slotFlows_vacant slot target vacant] at member
    exact False.elim (List.not_mem_nil member)
  | occupied step present branches child =>
    rw [slotIds_occupied step present, List.cons_append, List.append_assoc]
    rcases (mem_slotFlows_occupied step target present flow).mp member with
      own | ⟨branch, entered, inBranch⟩ | behind
    · rw [source_of_ownFlows step target flow own]
      exact (List.singleton_sublist.mpr (target_of_ownFlows step target flow own)).cons_cons _
    · have local_order := branches branch (step.branch_of_entered branch entered) _ inBranch
      exact (local_order.trans (branch_sublist step target branch entered)).cons _
    · have local_order := child target behind
      exact (local_order.trans (List.sublist_append_right _ _)).cons _

/-- Of two values that stand in this order in a list without repetition, the first has
the smaller index. -/
theorem idxOf_lt_of_sublist (values : List String) (distinct : values.Nodup)
    (first second : String) (order : [first, second].Sublist values) :
    values.idxOf first < values.idxOf second := by
  obtain ⟨front, back, rfl, inFront, inBack⟩ := List.cons_sublist_iff.mp order
  have second_mem : second ∈ back := List.singleton_sublist.mp inBack
  have notInFront : second ∉ front := by
    intro twice
    exact (List.nodup_append.mp distinct).2.2 second twice second second_mem rfl
  have bound : front.idxOf first < front.length := List.idxOf_lt_length_of_mem inFront
  rw [List.idxOf_append_of_mem inFront, List.idxOf_append_of_notMem notInFront]
  omega

/-- Nothing leads back to the first of the identifiers that a slot reaches, if these and the
target are distinct. -/
theorem target_ne_entry (slot : Option Step) (target : String)
    (distinct : (slotIds slot ++ [target]).Nodup) (flow : Flow)
    (member : flow ∈ slotFlows slot target) : flow.target ≠ entryId slot target := by
  obtain ⟨rest, begins⟩ := slotIds_append_target slot target
  have order := idxOf_lt_of_sublist _ distinct _ _ (slotFlows_sublist slot target flow member)
  intro same
  rw [begins, same, List.idxOf_cons_self] at order
  exact Nat.not_lt_zero _ order

/-- If every flow raises a rank, no chain of flows returns to where it began. -/
theorem not_transGen_self (flows : List Flow) (rank : String → Nat)
    (raised : ∀ flow ∈ flows, rank flow.source < rank flow.target) (id : String) :
    ¬ Relation.TransGen (Leads flows) id id := by
  have climbs (first last : String) (chain : Relation.TransGen (Leads flows) first last) :
      rank first < rank last := by
    induction chain with
    | single leads =>
      obtain ⟨flow, member, rfl, rfl⟩ := leads
      exact raised flow member
    | tail _ leads inductionHypothesis =>
      obtain ⟨flow, member, rfl, rfl⟩ := leads
      exact Nat.lt_trans inductionHypothesis (raised flow member)
  intro cycle
  exact Nat.lt_irrefl _ (climbs id id cycle)

/-- The elements of a compiled net stand in a topological order: no two share an
identifier, the root's comes first, the end event last, and every flow leads from an
element to a later one. In particular no chain of flows is a cycle. -/
theorem compile_topological (root : Step) (processId : String) (processName : Option String)
    (net : Net) (accepted : compile root processId processName = .ok net) :
    (net.elements.map (·.id)).Nodup ∧
      (∃ id, root.presentId? = some id ∧ (net.elements.map (·.id)).head? = some id) ∧
      net.elements.getLast? = some endEvent ∧
      (∀ flow ∈ net.flows, ∃ earlier later : Nat, earlier < later ∧
        (net.elements.map (·.id))[earlier]? = some flow.source ∧
        (net.elements.map (·.id))[later]? = some flow.target) ∧
      ∀ id, ¬ Relation.TransGen (Leads net.flows) id id := by
  have ids := compile_ids root processId processName net accepted
  have distinct := compile_ids_nodup root processId processName net accepted
  obtain ⟨valid, elements, _, rfl⟩ := compile_eq_ok root processId processName net accepted
  have filled := valid.filled
  have order (flow : Flow) (member : flow ∈ root.flowList endEventId) :=
    slotFlows_sublist (some root) endEventId flow member
  rw [ids]
  refine ⟨distinct, ⟨root.idText, root.presentId?_of_filled filled, ?_⟩, by simp, ?_, ?_⟩
  · rw [slotIds_occupied root filled]
    rfl
  · intro flow member
    have ends := (order flow member).subset
    refine ⟨_, _, idxOf_lt_of_sublist _ distinct _ _ (order flow member), ?_, ?_⟩
    · exact List.getElem?_idxOf (ends (by simp))
    · exact List.getElem?_idxOf (ends (by simp))
  · exact not_transGen_self _ (fun id => (slotIds (some root) ++ [endEventId]).idxOf id)
      fun flow member => idxOf_lt_of_sublist _ distinct _ _ (order flow member)

/-- The nested forks meet the premise. -/
theorem compile_topological_nestedForks :
    compile nestedForks "p" none = .ok nestedForksNet ∧
      (nestedForksNet.elements.map (·.id)).Nodup ∧
      (∃ id, nestedForks.presentId? = some id ∧
        (nestedForksNet.elements.map (·.id)).head? = some id) ∧
      nestedForksNet.elements.getLast? = some endEvent ∧
      (∀ flow ∈ nestedForksNet.flows, ∃ earlier later : Nat, earlier < later ∧
        (nestedForksNet.elements.map (·.id))[earlier]? = some flow.source ∧
        (nestedForksNet.elements.map (·.id))[later]? = some flow.target) ∧
      ∀ id, ¬ Relation.TransGen (Leads nestedForksNet.flows) id id :=
  ⟨compile_nestedForks, compile_topological nestedForks "p" none nestedForksNet compile_nestedForks⟩

end Workflow
