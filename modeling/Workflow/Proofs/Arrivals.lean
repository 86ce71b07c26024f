import Workflow.Proofs.Regions

/-!
# What enters an element

An engine that waits at a join has to know how many flows lead there. For a compiled tree
the tree alone tells this number. `slotExits` counts the open paths that leave a slot: a
vacant slot is passed once, a step passes the paths on to what follows it, and a fork with
nothing behind it leaves all open paths of its branches to the place that it was given
itself.

`arrivals_of_slot` says that the flows of a slot reach the slot's target along exactly these
paths. The flow into the slot counts among them if the slot is vacant, because it then leads
to the target at once. Inside a tree, the flows into a step are found among those of the step
that owns it: `arrivals_of_inherits` says that no other part of the tree leads there.
-/

namespace Workflow

mutual

/-- The number of open paths that leave a tree. -/
def Step.exits : Step → Nat
  | ⟨id, typeName, name, attributes, child, branches⟩ =>
      let step : Step := ⟨id, typeName, name, attributes, child, branches⟩
      if step.idText = "" then 1
      else if step.isFork ∧ presentStep? child = none then branchesExits branches
      else slotExits child
termination_by structural step => step

/-- The number of open paths that leave a slot. -/
def slotExits : Option Step → Nat
  | none => 1
  | some step => step.exits
termination_by structural slot => slot

/-- The number of open paths that leave branches, all of them together. -/
def branchesExits : List Branch → Nat
  | [] => 0
  | ⟨_, _, _, child⟩ :: rest => slotExits child + branchesExits rest
termination_by structural branches => branches

end

/-- Open paths of branches are counted branch by branch. -/
theorem branchesExits_cons (branch : Branch) (rest : List Branch) :
    branchesExits (branch :: rest) = slotExits branch.child + branchesExits rest := by
  cases branch; rfl

/-- A vacant slot is passed once. -/
theorem slotExits_vacant (slot : Option Step) (vacant : Vacant slot) : slotExits slot = 1 := by
  cases slot with
  | none => rfl
  | some step =>
    have empty : step.idText = "" := (vacant_some_iff step).mp vacant
    cases step
    rw [slotExits, Step.exits, if_pos empty]

/-- The open paths of a fork with nothing behind it are those of its branches. -/
theorem slotExits_open (step : Step) (present : step.idText ≠ "") (fork : step.isFork)
    (vacant : Vacant step.child) : slotExits (some step) = branchesExits step.branches := by
  cases step
  rw [slotExits, Step.exits, if_neg present, if_pos ⟨fork, vacant⟩]

/-- The open paths of any other step are those of the slot behind it. -/
theorem slotExits_behind (step : Step) (present : step.idText ≠ "")
    (closed : step.isFork → ¬ Vacant step.child) : slotExits (some step) = slotExits step.child := by
  have notOpen : ¬ (step.isFork ∧ presentStep? step.child = none) :=
    fun both => closed both.1 both.2
  cases step
  rw [slotExits, Step.exits, if_neg present, if_neg notOpen]

/-- The number of flows that lead to an identifier. -/
def arrivals (flows : List Flow) (id : String) : Nat := (flows.map (·.target)).count id

/-- The first of some flows counts if it leads to the identifier. -/
theorem arrivals_cons (flow : Flow) (rest : List Flow) (id : String) :
    arrivals (flow :: rest) id = (if flow.target = id then 1 else 0) + arrivals rest id := by
  simp only [arrivals, List.map_cons, List.count_cons, beq_iff_eq]
  exact Nat.add_comm _ _

/-- Arrivals along two lists of flows add up. -/
theorem arrivals_append (front back : List Flow) (id : String) :
    arrivals (front ++ back) id = arrivals front id + arrivals back id := by
  rw [arrivals, List.map_append, List.count_append]
  rfl

/-- Nothing arrives along flows that lead elsewhere. -/
theorem arrivals_eq_zero (flows : List Flow) (id : String)
    (elsewhere : ∀ flow ∈ flows, flow.target ≠ id) : arrivals flows id = 0 := by
  rw [arrivals, List.count_eq_zero, List.mem_map]
  rintro ⟨flow, member, leads⟩
  exact elsewhere flow member leads

/-- Nothing arrives inside along flows that are apart. -/
theorem arrivals_of_apart (flows : List Flow) (ids : List String) (id : String) (inside : id ∈ ids)
    (apart : ∀ flow ∈ flows, Apart ids flow) : arrivals flows id = 0 := by
  apply arrivals_eq_zero
  intro flow member leads
  exact (apart flow member).2 (leads ▸ inside)

/-- A net has as many flows into an identifier as arrive there. -/
theorem length_incoming (net : Net) (id : String) :
    (net.incoming id).length = arrivals net.flows id := by
  rw [Net.incoming, ← List.countP_eq_length_filter, arrivals, List.count, List.countP_map]
  rfl

/-- The flow into a branch and those of the branch arrive behind the fork as often as open paths
leave the branch, so those of all branches do. -/
theorem arrivals_of_branches (fork : Step) (continuation : String) (position : Nat)
    (branches : List Branch)
    (each : ∀ branch ∈ branches,
      (if entryId branch.child continuation = continuation then 1 else 0) +
        arrivals (slotFlows branch.child continuation) continuation = slotExits branch.child) :
    arrivals (branchesFlows fork continuation position branches) continuation =
      branchesExits branches := by
  induction branches generalizing position with
  | nil => rfl
  | cons branch rest inductionHypothesis =>
    have others := inductionHypothesis (position + 1)
      fun later member => each later (List.mem_cons_of_mem branch member)
    rw [branchesFlows_cons, arrivals_cons, arrivals_append, others, branchesExits_cons,
      ← each branch List.mem_cons_self, Nat.add_assoc]
    rfl

/-- The flow into a slot and those of the slot arrive at the slot's target as often as open paths
leave the slot.

Proof: induction over the slot. A fork with nothing behind it closes its branches into the
target itself. If something is behind it, they are closed into that place, which is not the
target, and only the flows behind the fork arrive there. -/
theorem arrivals_of_slot (slot : Option Step) (target : String) (ahead : target ∉ slotIds slot) :
    (if entryId slot target = target then 1 else 0) + arrivals (slotFlows slot target) target =
      slotExits slot := by
  induction slot using slot_induction generalizing target with
  | vacant slot vacant =>
    rw [entryId_vacant slot target vacant, slotFlows_vacant slot target vacant,
      slotExits_vacant slot vacant]
    simp [arrivals]
  | occupied step present branches child =>
    obtain ⟨notHere, outside, notBehind⟩ := (notMem_slotIds_iff step present target).mp ahead
    have behind := child target notBehind
    rw [entryId_occupied step target present, if_neg (Ne.symm notHere), Nat.zero_add,
      slotFlows_occupied step target present, arrivals_append]
    by_cases fork : step.isFork
    · rw [if_pos fork]
      rw [Step.entered, if_pos fork] at outside
      by_cases vacant : Vacant step.child
      · have same := entryId_vacant step.child target vacant
        rw [slotExits_open step present fork vacant, slotFlows_vacant step.child target vacant, same,
          arrivals_of_branches step target 1 step.branches fun branch member =>
            branches branch member target (outside branch member)]
        rfl
      · have other : entryId step.child target ≠ target := fun same =>
          notBehind (same ▸ entryId_mem_of_occupied step.child target vacant)
        have apart := apart_of_branchesFlows step (entryId step.child target) [target] 1
          step.branches (by simpa [eq_comm] using notHere) (by simpa using other)
          (by
            intro branch member id inBranch single
            exact outside branch member (List.mem_singleton.mp single ▸ inBranch))
        rw [arrivals_of_apart _ [target] target (List.mem_singleton_self _) apart,
          slotExits_behind step present fun _ => vacant, ← behind, if_neg other]
    · rw [if_neg fork, slotExits_behind step present fun isFork => absurd isFork fork, arrivals_cons,
        ← behind]
      rfl

/-- A step has flows, if it has branches whenever it is a fork. -/
theorem slotFlows_filled (step : Step) (target : String) (present : step.idText ≠ "")
    (branched : step.isFork → step.branches ≠ []) :
    ∃ entry inner, slotFlows (some step) target = entry :: inner := by
  rw [slotFlows_occupied step target present]
  by_cases fork : step.isFork
  · obtain ⟨branch, rest, split⟩ := List.exists_cons_of_ne_nil (branched fork)
    rw [if_pos fork, split, branchesFlows_cons]
    exact ⟨_, _, rfl⟩
  · rw [if_neg fork]
    exact ⟨_, _, rfl⟩

section

variable (root step : Step) (target inherited : String)
  (chain : root.Inherits target step inherited)
  (distinct : (slotIds (some root) ++ [target]).Nodup)

include chain distinct

/-- Flows lead to a place behind a step only from the step itself and from below it. -/
theorem arrivals_of_inherits (branched : step.isFork → step.branches ≠ []) (id : String)
    (below : id ∈ (slotIds (some step)).tail) :
    arrivals (slotFlows (some root) target) id = arrivals (slotFlows (some step) inherited) id := by
  obtain ⟨entry, inner, flows⟩ := slotFlows_filled step inherited chain.finish branched
  have whole : Block (slotFlows (some step) inherited) [id] entry inner :=
    ⟨[], [], by simp [flows], by simp⟩
  obtain ⟨before, after, parts, apart⟩ := block_along root step target inherited chain distinct [id]
    (by simpa using below) entry inner whole
  have front := arrivals_of_apart before [id] id (List.mem_singleton_self _)
    fun flow member => apart flow (List.mem_append_left _ member)
  have back := arrivals_of_apart after [id] id (List.mem_singleton_self _)
    fun flow member => apart flow (List.mem_append_right _ member)
  rw [parts, flows, arrivals_append, front, Nat.zero_add, ← List.cons_append, arrivals_append, back,
    Nat.add_zero]

/-- A branch is entered along one flow. -/
theorem arrivals_of_first (fork : step.isFork) (branch : Branch) (member : branch ∈ step.branches)
    (first : Step) (begins : branch.child = some first) (present : first.idText ≠ "") :
    arrivals (slotFlows (some root) target) first.idText = 1 := by
  obtain ⟨front, back, split⟩ := List.append_of_mem member
  have entered := (step.mem_entered_iff branch).mpr ⟨fork, member⟩
  obtain ⟨before, after, parts, apart⟩ := block_of_inherits root step target inherited chain fork
    front back branch split distinct
  have inside : first.idText ∈ slotIds branch.child := by
    rw [begins, slotIds_occupied first present]
    exact List.mem_cons_self
  have entry : entryId branch.child (entryId step.child inherited) = first.idText := by
    rw [begins, entryId_occupied first _ present]
  have inFront := arrivals_of_apart before _ _ inside
    fun flow member => apart flow (List.mem_append_left _ member)
  have inBack := arrivals_of_apart after _ _ inside
    fun flow member => apart flow (List.mem_append_right _ member)
  have within : arrivals (slotFlows branch.child (entryId step.child inherited)) first.idText = 0 := by
    apply arrivals_eq_zero
    rw [← entry]
    exact target_ne_entry _ _ ((distinct.sublist chain.ids).sublist
      (ids_of_branch step chain.finish inherited branch entered))
  rw [parts, arrivals_append, arrivals_cons, arrivals_append, inFront, within, inBack]
  simp [Step.branchFlow, entry]

/-- What follows a step is entered along the open paths of the step's branches, if the step is a
fork, and otherwise along the step's only flow. -/
theorem arrivals_of_next (branched : step.isFork → step.branches ≠ []) (next : Step)
    (follows : step.child = some next) (present : next.idText ≠ "") :
    arrivals (slotFlows (some root) target) next.idText =
      if step.isFork then branchesExits step.branches else 1 := by
  have distinctHere := distinct.sublist chain.ids
  have entry : entryId step.child inherited = next.idText := by
    rw [follows, entryId_occupied next inherited present]
  have within : arrivals (slotFlows step.child inherited) next.idText = 0 := by
    apply arrivals_eq_zero
    rw [← entry]
    exact target_ne_entry _ _ (distinctHere.sublist (ids_of_child step chain.finish inherited))
  have inChild : next.idText ∈ slotIds step.child := by
    rw [follows, slotIds_occupied next present]
    exact List.mem_cons_self
  rw [slotIds_occupied step chain.finish] at distinctHere
  have below : next.idText ∈ (slotIds (some step)).tail := by
    rw [slotIds_occupied step chain.finish, List.tail_cons]
    exact List.mem_append_right _ inChild
  rw [arrivals_of_inherits root step target inherited chain distinct branched _ below,
    slotFlows_occupied step inherited chain.finish, arrivals_append, within, Nat.add_zero, entry]
  by_cases fork : step.isFork
  · rw [if_pos fork, if_pos fork]
    apply arrivals_of_branches
    intro branch member
    apply arrivals_of_slot
    intro inBranch
    rw [Step.entered, if_pos fork, List.cons_append, List.append_assoc, List.nodup_cons,
      List.nodup_append] at distinctHere
    exact distinctHere.2.2.2 _ (List.mem_flatMap.mpr ⟨branch, member, inBranch⟩) _
      (List.mem_append_left _ inChild) rfl
  · rw [if_neg fork, if_neg fork]
    simp [arrivals, Step.plainFlow, entry]

end

/-- How many flows lead to the elements of a net that a tree is compiled to: none to the root,
one to the first step of a branch and to what follows a step without branches, as many to what
follows a fork as open paths leave the fork's branches, and as many to the end event as open
paths leave the tree. -/
structure Net.Arrivals (net : Net) (root : Step) : Prop where
  start : net.incoming root.idText = []
  finish : (net.incoming endEventId).length = root.exits
  first : ∀ fork, root.Reaches fork → fork.isFork → ∀ branch ∈ fork.branches,
    ∀ first, branch.first? = some first → (net.incoming first.idText).length = 1
  next : ∀ step, root.Reaches step → ¬ step.isFork →
    ∀ next, step.next? = some next → (net.incoming next.idText).length = 1
  join : ∀ fork, root.Reaches fork → fork.isFork →
    ∀ next, fork.next? = some next →
      (net.incoming next.idText).length = branchesExits fork.branches

/-- The step of a slot stands in the slot and has an identifier. -/
theorem presentStep?_eq_some (slot : Option Step) (step : Step)
    (found : presentStep? slot = some step) : slot = some step ∧ step.idText ≠ "" := by
  obtain ⟨holds, identified⟩ := Option.filter_eq_some_iff.mp found
  exact ⟨holds, step.filled_of_present (Option.isSome_iff_ne_none.mp identified)⟩

/-- The flows into every element of a compiled net are as many as the tree tells.

Proof: the identifiers of the tree and that of the end event are distinct. The root is the first
identifier and nothing leads back to it; the end event is the target of the whole tree; every
other step is reached as the first of a branch or behind a step. -/
theorem compile_arrivals (root : Step) (processId : String) (processName : Option String) (net : Net)
    (accepted : compile root processId processName = .ok net) : net.Arrivals root := by
  have distinct := compile_ids_nodup root processId processName net accepted
  have ahead := endEventId_notMem root processId processName net accepted
  obtain ⟨valid, elements, _, rfl⟩ := compile_eq_ok root processId processName net accepted
  have filled := valid.filled
  have chained (step : Step) (reached : root.Reaches step) :=
    inherits_of_reaches root step reached endEventId
  refine ⟨?start, ?finish, ?first, ?next, ?join⟩
  case start =>
    rw [← List.length_eq_zero_iff, length_incoming]
    apply arrivals_eq_zero
    rw [← entryId_occupied root endEventId filled]
    exact target_ne_entry (some root) endEventId distinct
  case finish =>
    have counted := arrivals_of_slot (some root) endEventId ahead
    obtain ⟨elsewhere, _⟩ := (notMem_slotIds_iff root filled endEventId).mp ahead
    rw [entryId_occupied root endEventId filled, if_neg elsewhere.symm, Nat.zero_add] at counted
    rw [length_incoming]
    exact counted
  case first =>
    intro fork reached isFork branch member first begins
    obtain ⟨inherited, chain⟩ := chained fork reached
    obtain ⟨slot, present⟩ := presentStep?_eq_some branch.child first begins
    rw [length_incoming]
    exact arrivals_of_first root fork endEventId inherited chain distinct isFork branch member first
      slot present
  case next =>
    intro step reached plain next follows
    obtain ⟨inherited, chain⟩ := chained step reached
    obtain ⟨slot, present⟩ := presentStep?_eq_some step.child next follows
    have counted := arrivals_of_next root step endEventId inherited chain distinct
      (valid.branched step reached) next slot present
    rw [length_incoming]
    rwa [if_neg plain] at counted
  case join =>
    intro fork reached isFork next follows
    obtain ⟨inherited, chain⟩ := chained fork reached
    obtain ⟨slot, present⟩ := presentStep?_eq_some fork.child next follows
    have counted := arrivals_of_next root fork endEventId inherited chain distinct
      (valid.branched fork reached) next slot present
    rw [length_incoming]
    rwa [if_pos isFork] at counted

/-- The nested forks meet the premise. -/
theorem compile_arrivals_nestedForks :
    compile nestedForks "p" none = .ok nestedForksNet ∧ nestedForksNet.Arrivals nestedForks :=
  ⟨compile_nestedForks, compile_arrivals nestedForks "p" none nestedForksNet compile_nestedForks⟩

/-- Four open paths meet at the join of the nested forks, and one leaves the tree. -/
example : branchesExits openFork.branches = 3 ∧ nestedForks.exits = 1 ∧
    (nestedForksNet.incoming "join").length = 4 := by
  decide

end Workflow
