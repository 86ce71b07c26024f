import Workflow.Proofs.Soundness

/-!
# Branches are regions

A branch of a fork is entered along one flow, that of the fork, and left to one place, the
one behind the fork. This holds for every fork of a compiled tree at once, also where
several forks inside each other have nothing behind them, and hand on the place that the
outermost one was given; `Step.Inherits` says which place that is.

The flows of a branch stand together in the list of all flows, directly behind the flow
into the branch. `block_of_inherits` says this, and that no other flow has an end in the
branch: the ends of all others are identifiers that stand outside of the branch, because
the identifiers of a tree are distinct.
-/

namespace Workflow

/-- The place behind a step: the identifier of the step that follows it, or, if there is none,
the place that the step was given. -/
def Step.continuation (step : Step) (target : String) : String :=
  (step.next?.bind (·.presentId?)).getD target

/-- A chain of steps along which the place that a root closes its open paths into is handed
on. What follows a step inherits the step's own place, and a branch of a fork inherits the
place behind the fork, which is again the fork's own place if nothing is behind it. -/
inductive Step.Inherits : Step → String → Step → String → Prop
  | self (step : Step) (target : String) (present : step.presentId? ≠ none) :
      Inherits step target step target
  | branch (root first step : Step) (target inherited : String) (branch : Branch)
      (present : root.presentId? ≠ none) (fork : root.isFork) (member : branch ∈ root.branches)
      (begins : branch.child = some first)
      (below : Inherits first (root.continuation target) step inherited) :
      Inherits root target step inherited
  | behind (root next step : Step) (target inherited : String) (present : root.presentId? ≠ none)
      (follows : root.child = some next) (below : Inherits next target step inherited) :
      Inherits root target step inherited

/-- A part of a net with one entry and one exit. Exactly one flow leads into it, every flow
out of it leads to the exit, and there is one. -/
structure Region (flows : List Flow) (ids : List String) (entry : Flow) (exit : String) : Prop where
  entered : flows.filter (fun flow => flow.target ∈ ids ∧ flow.source ∉ ids) = [entry]
  closed : ∀ flow ∈ flows, flow.source ∈ ids → flow.target ∈ ids ∨ flow.target = exit
  left : ∃ flow ∈ flows, flow.source ∈ ids ∧ flow.target = exit
  outside : exit ∉ ids

/-- Both ends of a flow are outside of some identifiers. -/
def Apart (ids : List String) (flow : Flow) : Prop := flow.source ∉ ids ∧ flow.target ∉ ids

/-- A list of flows has some flows behind an entry, and all others are apart from some
identifiers. -/
def Block (flows : List Flow) (ids : List String) (entry : Flow) (inner : List Flow) : Prop :=
  ∃ before after, flows = before ++ entry :: (inner ++ after) ∧
    ∀ flow ∈ before ++ after, Apart ids flow

/-- Flows that are apart may stand before and after a block. -/
theorem Block.within {flows inner : List Flow} {ids : List String} {entry : Flow}
    (block : Block flows ids entry inner) (before after : List Flow)
    (apart : ∀ flow ∈ before ++ after, Apart ids flow) :
    Block (before ++ (flows ++ after)) ids entry inner := by
  obtain ⟨front, back, rfl, inFlows⟩ := block
  refine ⟨before ++ front, back ++ after, by simp, ?_⟩
  intro flow member
  simp only [List.mem_append] at member inFlows apart
  rcases member with (outer | inside) | (inside | outer)
  · exact apart flow (Or.inl outer)
  · exact inFlows flow (Or.inl inside)
  · exact inFlows flow (Or.inr inside)
  · exact apart flow (Or.inr outer)

/-- A chain begins at a step with an identifier. -/
theorem Step.Inherits.filled {root step : Step} {target inherited : String}
    (chain : root.Inherits target step inherited) : root.idText ≠ "" := by
  cases chain with
  | self _ _ present => exact root.filled_of_present present
  | branch _ _ _ _ _ _ present => exact root.filled_of_present present
  | behind _ _ _ _ _ present => exact root.filled_of_present present

/-- A chain ends at a step with an identifier. -/
theorem Step.Inherits.finish {root step : Step} {target inherited : String}
    (chain : root.Inherits target step inherited) : step.idText ≠ "" := by
  induction chain with
  | self step _ present => exact step.filled_of_present present
  | branch _ _ _ _ _ _ _ _ _ _ _ inductionHypothesis => exact inductionHypothesis
  | behind _ _ _ _ _ _ _ _ inductionHypothesis => exact inductionHypothesis

/-- Every reached step inherits a place. -/
theorem inherits_of_reaches (root step : Step) (chain : root.Reaches step) (target : String) :
    ∃ inherited, root.Inherits target step inherited := by
  induction chain generalizing target with
  | self step present => exact ⟨target, Step.Inherits.self step target present⟩
  | branch root first step branch present fork member begins _ inductionHypothesis =>
    obtain ⟨inherited, below⟩ := inductionHypothesis (root.continuation target)
    exact ⟨inherited,
      Step.Inherits.branch root first step target inherited branch present fork member begins below⟩
  | behind root next step present follows _ inductionHypothesis =>
    obtain ⟨inherited, below⟩ := inductionHypothesis target
    exact ⟨inherited, Step.Inherits.behind root next step target inherited present follows below⟩

section

variable (step : Step) (present : step.idText ≠ "")

include present

/-- What a branch reaches is reached behind the step that owns the branch. -/
theorem reached_of_branch (branch : Branch) (entered : branch ∈ step.entered) :
    (slotReached branch.child).Sublist step.reached.tail := by
  have parts : step.reached = _ := slotReached_occupied step present
  rw [parts, List.tail_cons]
  exact (sublist_flatMap (fun branch => slotReached branch.child) step.entered branch entered).trans
    (List.sublist_append_left _ _)

/-- What stands behind a step is reached from the step. -/
theorem reached_of_child : (slotReached step.child).Sublist step.reached := by
  have parts : step.reached = _ := slotReached_occupied step present
  rw [parts]
  exact (List.sublist_append_right _ _).cons _

/-- The identifiers of a branch and the place behind its fork stand, in this order, among
those of the fork and the place that the fork was given. -/
theorem ids_of_branch (target : String) (branch : Branch) (entered : branch ∈ step.entered) :
    (slotIds branch.child ++ [entryId step.child target]).Sublist
      (slotIds (some step) ++ [target]) := by
  rw [slotIds_occupied step present, List.cons_append, List.append_assoc]
  exact (branch_sublist step target branch entered).cons _

/-- The identifiers behind a step, and the place that the step was given, stand among those
of the step and this place. -/
theorem ids_of_child (target : String) :
    (slotIds step.child ++ [target]).Sublist (slotIds (some step) ++ [target]) := by
  rw [slotIds_occupied step present, List.cons_append, List.append_assoc]
  exact (List.sublist_append_right _ _).cons _

end

/-- What is reached along a chain is reached from its beginning. -/
theorem Step.Inherits.reached {root step : Step} {target inherited : String}
    (chain : root.Inherits target step inherited) : step.reached.Sublist root.reached := by
  induction chain with
  | self => exact List.Sublist.refl _
  | branch root first step target inherited branch present fork member begins _
      inductionHypothesis =>
    have entered := (root.mem_entered_iff branch).mpr ⟨fork, member⟩
    have part := reached_of_branch root (root.filled_of_present present) branch entered
    rw [begins] at part
    exact inductionHypothesis.trans (part.trans (List.tail_sublist _))
  | behind root next step target inherited present follows _ inductionHypothesis =>
    have part := reached_of_child root (root.filled_of_present present)
    rw [follows] at part
    exact inductionHypothesis.trans part

/-- The identifiers reached along a chain, with the inherited place behind them, stand in
this order among those reached from its beginning and the place there. -/
theorem Step.Inherits.ids {root step : Step} {target inherited : String}
    (chain : root.Inherits target step inherited) :
    (slotIds (some step) ++ [inherited]).Sublist (slotIds (some root) ++ [target]) := by
  induction chain with
  | self => exact List.Sublist.refl _
  | branch root first step target inherited branch present fork member begins _
      inductionHypothesis =>
    have entered := (root.mem_entered_iff branch).mpr ⟨fork, member⟩
    have part := ids_of_branch root (root.filled_of_present present) target branch entered
    rw [begins] at part
    exact inductionHypothesis.trans part
  | behind root next step target inherited present follows _ inductionHypothesis =>
    have part := ids_of_child root (root.filled_of_present present) target
    rw [follows] at part
    exact inductionHypothesis.trans part

/-- The identifiers reached behind the step at the end of a chain are reached behind its
beginning. -/
theorem Step.Inherits.idsBehind {root step : Step} {target inherited : String}
    (chain : root.Inherits target step inherited) :
    (slotIds (some step)).tail.Sublist (slotIds (some root)).tail := by
  rw [slotIds, slotIds, ← List.map_tail, ← List.map_tail]
  exact chain.reached.tail.map _

/-- The flows of a slot are apart from identifiers that neither the slot nor its target has. -/
theorem apart_of_slotFlows (slot : Option Step) (target : String) (ids : List String)
    (disjoint : ∀ id ∈ slotIds slot ++ [target], id ∉ ids) (flow : Flow)
    (member : flow ∈ slotFlows slot target) : Apart ids flow := by
  have ends := (slotFlows_sublist slot target flow member).subset
  exact ⟨disjoint _ (ends (by simp)), disjoint _ (ends (by simp))⟩

/-- The flows of branches are apart from identifiers that neither the fork, nor the place
behind it, nor a branch has. -/
theorem apart_of_branchesFlows (fork : Step) (continuation : String) (ids : List String)
    (position : Nat) (branches : List Branch) (own : fork.idText ∉ ids)
    (behind : continuation ∉ ids)
    (inBranches : ∀ branch ∈ branches, ∀ id ∈ slotIds branch.child, id ∉ ids) (flow : Flow)
    (member : flow ∈ branchesFlows fork continuation position branches) : Apart ids flow := by
  have disjoint (branch : Branch) (listed : branch ∈ branches) :
      ∀ id ∈ slotIds branch.child ++ [continuation], id ∉ ids := by
    intro id reached
    rcases List.mem_append.mp reached with inBranch | last
    · exact inBranches branch listed id inBranch
    · rw [List.mem_singleton.mp last]
      exact behind
  rcases (mem_branchesFlows_iff fork continuation position branches flow).mp member with
    into | ⟨branch, listed, inBranch⟩
  · obtain ⟨entry, placed, rfl⟩ := List.mem_map.mp into
    have listed := List.fst_mem_of_mem_zipIdx placed
    exact ⟨own, disjoint entry.1 listed _ (entryId_mem entry.1.child continuation)⟩
  · exact apart_of_slotFlows branch.child continuation ids (disjoint branch listed) flow inBranch

/-- The flows in front of those behind a step are apart from identifiers that neither the step,
nor the place behind it, nor an entered branch has. -/
theorem apart_of_front (step : Step) (target : String) (ids : List String)
    (own : step.idText ∉ ids) (behind : entryId step.child target ∉ ids)
    (inBranches : ∀ branch ∈ step.entered, ∀ id ∈ slotIds branch.child, id ∉ ids) :
    ∀ flow ∈ (if step.isFork then branchesFlows step (entryId step.child target) 1 step.branches
      else [step.plainFlow target]), Apart ids flow := by
  intro flow member
  split at member
  · rename_i fork
    rw [Step.entered, if_pos fork] at inBranches
    exact apart_of_branchesFlows step _ ids 1 step.branches own behind inBranches flow member
  · rw [List.mem_singleton.mp member]
    exact ⟨own, behind⟩

/-- The place a slot is entered at is not reached a second time. -/
theorem entryId_notMem_tail (slot : Option Step) (target : String)
    (distinct : (slotIds slot ++ [target]).Nodup) : entryId slot target ∉ (slotIds slot).tail := by
  obtain ⟨rest, begins⟩ := slotIds_append_target slot target
  cases ids : slotIds slot with
  | nil => simp
  | cons first others =>
    rw [ids, List.cons_append] at begins distinct
    rw [← (List.cons.inj begins).1]
    intro again
    exact (List.nodup_cons.mp distinct).1 (List.mem_append_left _ again)

section

variable (step : Step) (target : String) (present : step.idText ≠ "")
  (distinct : (slotIds (some step) ++ [target]).Nodup)

include present

/-- The flows of a fork, around those of one of its branches. -/
theorem slotFlows_around (fork : step.isFork) (front back : List Branch) (branch : Branch)
    (split : step.branches = front ++ branch :: back) :
    slotFlows (some step) target =
      branchesFlows step (entryId step.child target) 1 front ++
        step.branchFlow (entryId step.child target) (1 + front.length) branch ::
          (slotFlows branch.child (entryId step.child target) ++
            (branchesFlows step (entryId step.child target) (1 + front.length + 1) back ++
              slotFlows step.child target)) := by
  rw [slotFlows_occupied step target present, if_pos fork, split, branchesFlows_append,
    branchesFlows_cons]
  simp

include distinct

/-- An identifier of one branch is neither that of the fork, nor one of another branch, nor
one behind the fork. -/
theorem branch_disjoint (fork : step.isFork) (front back : List Branch) (branch : Branch)
    (split : step.branches = front ++ branch :: back) (id : String)
    (inside : id ∈ slotIds branch.child) :
    id ≠ step.idText ∧ (∀ other ∈ front ++ back, id ∉ slotIds other.child) ∧
      id ∉ slotIds step.child ++ [target] := by
  have entered : step.entered = front ++ branch :: back := by rw [Step.entered, if_pos fork, split]
  rw [slotIds_occupied step present, entered, List.flatMap_append, List.flatMap_cons,
    List.cons_append, List.append_assoc, List.append_assoc, List.append_assoc, List.nodup_cons,
    List.nodup_append, List.nodup_append, List.nodup_append] at distinct
  obtain ⟨own, _, ⟨_, ⟨_, _, apartBehind⟩, apartBack⟩, apartFront⟩ := distinct
  refine ⟨?_, ?_, ?_⟩
  · rintro rfl
    exact own (by simp [inside])
  · intro other listed reached
    rcases List.mem_append.mp listed with inFront | inBack
    · exact apartFront id (List.mem_flatMap.mpr ⟨other, inFront, reached⟩) id (by simp [inside]) rfl
    · have later : id ∈ back.flatMap fun branch => slotIds branch.child :=
        List.mem_flatMap.mpr ⟨other, inBack, reached⟩
      exact apartBack id inside id (List.mem_append_left _ later) rfl
  · intro behind
    exact apartBack id inside id (List.mem_append_right _ behind) rfl

/-- Identifiers of one branch are apart from the fork and the place behind it, and from all
flows of the fork but the one into the branch and those of the branch. -/
theorem apart_around (fork : step.isFork) (front back : List Branch) (branch : Branch)
    (split : step.branches = front ++ branch :: back) (ids : List String)
    (inside : ∀ id ∈ ids, id ∈ slotIds branch.child) :
    step.idText ∉ ids ∧ entryId step.child target ∉ ids ∧
      ∀ flow ∈ branchesFlows step (entryId step.child target) 1 front ++
          (branchesFlows step (entryId step.child target) (1 + front.length + 1) back ++
            slotFlows step.child target), Apart ids flow := by
  have disjoint (id : String) (member : id ∈ ids) :=
    branch_disjoint step target present distinct fork front back branch split id (inside id member)
  have own : step.idText ∉ ids := fun member => (disjoint _ member).1 rfl
  have behind : entryId step.child target ∉ ids :=
    fun member => (disjoint _ member).2.2 (entryId_mem step.child target)
  have others : ∀ other ∈ front ++ back, ∀ id ∈ slotIds other.child, id ∉ ids :=
    fun other listed id reached member => (disjoint id member).2.1 other listed reached
  refine ⟨own, behind, ?_⟩
  intro flow member
  rw [List.mem_append, List.mem_append] at member
  rcases member with inFront | inBack | inChild
  · exact apart_of_branchesFlows step _ ids 1 front own behind
      (fun other listed => others other (List.mem_append_left _ listed)) flow inFront
  · exact apart_of_branchesFlows step _ ids _ back own behind
      (fun other listed => others other (List.mem_append_right _ listed)) flow inBack
  · exact apart_of_slotFlows step.child target ids
      (fun id reached member => (disjoint id member).2.2 reached) flow inChild

/-- A block in a branch is a block of the fork, if it does not contain the first step of the
branch: the fork's flow into the branch leads there. -/
theorem block_of_branch (fork : step.isFork) (branch : Branch) (member : branch ∈ step.branches)
    (ids : List String) (inside : ∀ id ∈ ids, id ∈ (slotIds branch.child).tail) (entry : Flow)
    (inner : List Flow)
    (block : Block (slotFlows branch.child (entryId step.child target)) ids entry inner) :
    Block (slotFlows (some step) target) ids entry inner := by
  obtain ⟨front, back, split⟩ := List.append_of_mem member
  have entered := (step.mem_entered_iff branch).mpr ⟨fork, member⟩
  obtain ⟨own, _, apart⟩ := apart_around step target present distinct fork front back branch split
    ids fun id listed => List.mem_of_mem_tail (inside id listed)
  have notFirst : entryId branch.child (entryId step.child target) ∉ ids := fun listed =>
    entryId_notMem_tail _ _ (distinct.sublist (ids_of_branch step present target branch entered))
      (inside _ listed)
  rw [slotFlows_around step target present fork front back branch split, List.append_cons]
  refine block.within _ _ ?_
  intro flow listed
  simp only [List.mem_append, List.mem_singleton] at listed apart
  rcases listed with (inFront | rfl) | others
  · exact apart flow (Or.inl inFront)
  · exact ⟨own, notFirst⟩
  · exact apart flow (Or.inr others)

/-- A block behind a step is a block of the step, if it does not contain the first step there:
the step and its branches lead to this one. -/
theorem block_of_child (ids : List String) (inside : ∀ id ∈ ids, id ∈ (slotIds step.child).tail)
    (entry : Flow) (inner : List Flow) (block : Block (slotFlows step.child target) ids entry inner) :
    Block (slotFlows (some step) target) ids entry inner := by
  have notFirst : entryId step.child target ∉ ids := fun listed =>
    entryId_notMem_tail _ _ (distinct.sublist (ids_of_child step present target)) (inside _ listed)
  rw [slotIds_occupied step present, List.cons_append, List.append_assoc, List.nodup_cons,
    List.nodup_append] at distinct
  obtain ⟨notHere, _, _, apart⟩ := distinct
  have behind (id : String) (listed : id ∈ ids) : id ∈ slotIds step.child ++ [target] :=
    List.mem_append_left _ (List.mem_of_mem_tail (inside id listed))
  have own : step.idText ∉ ids :=
    fun listed => notHere (List.mem_append_right _ (behind _ listed))
  have before := apart_of_front step target ids own notFirst
    fun branch entered id inBranch listed =>
      apart id (List.mem_flatMap.mpr ⟨branch, entered, inBranch⟩) id (behind id listed) rfl
  have whole := block.within _ [] fun flow member => before flow (by simpa using member)
  rwa [List.append_nil, ← slotFlows_occupied step target present] at whole

end

/-- A block among the flows of the step at the end of a chain is one among the flows of its
beginning, if it does not contain the step.

Proof: induction over the chain. It goes into a branch or behind a step, and what the block
contains lies behind the first step there. -/
theorem block_along (root step : Step) (target inherited : String)
    (chain : root.Inherits target step inherited)
    (distinct : (slotIds (some root) ++ [target]).Nodup) (ids : List String)
    (inside : ∀ id ∈ ids, id ∈ (slotIds (some step)).tail) (entry : Flow) (inner : List Flow)
    (block : Block (slotFlows (some step) inherited) ids entry inner) :
    Block (slotFlows (some root) target) ids entry inner := by
  induction chain with
  | self => exact block
  | branch root first step target inherited outer present fork member begins below
      inductionHypothesis =>
    have filled := root.filled_of_present present
    have entered := (root.mem_entered_iff outer).mpr ⟨fork, member⟩
    have within := below.idsBehind.subset
    rw [← begins] at within inductionHypothesis
    have block := inductionHypothesis
      (distinct.sublist (ids_of_branch root filled target outer entered)) inside block
    exact block_of_branch root target filled distinct fork outer member ids
      (fun id listed => within (inside id listed)) entry inner block
  | behind root next step target inherited present follows below inductionHypothesis =>
    have filled := root.filled_of_present present
    have within := below.idsBehind.subset
    rw [← follows] at within inductionHypothesis
    have block := inductionHypothesis
      (distinct.sublist (ids_of_child root filled target)) inside block
    exact block_of_child root target filled distinct ids
      (fun id listed => within (inside id listed)) entry inner block

/-- The flows of a branch stand together, directly behind the flow into the branch, and no
other flow has an end in the branch. At the fork itself the other branches and what is behind
the fork have other identifiers than the branch. -/
theorem block_of_inherits (root fork : Step) (target inherited : String)
    (chain : root.Inherits target fork inherited) (isFork : fork.isFork) (front back : List Branch)
    (branch : Branch) (split : fork.branches = front ++ branch :: back)
    (distinct : (slotIds (some root) ++ [target]).Nodup) :
    Block (slotFlows (some root) target) (slotIds branch.child)
      (fork.branchFlow (entryId fork.child inherited) (1 + front.length) branch)
      (slotFlows branch.child (entryId fork.child inherited)) := by
  have entered := (fork.mem_entered_iff branch).mpr ⟨isFork, by simp [split]⟩
  have inside := (reached_of_branch fork chain.finish branch entered).map Step.idText
  rw [List.map_tail] at inside
  obtain ⟨_, _, apart⟩ := apart_around fork inherited chain.finish (distinct.sublist chain.ids) isFork
    front back branch split (slotIds branch.child) fun _ listed => listed
  refine block_along root fork target inherited chain distinct _ inside.subset _ _ ?_
  exact ⟨_, _, slotFlows_around fork inherited chain.finish isFork front back branch split, apart⟩

/-- No flow leads into a part of a net from outside if each flow ends outside or starts inside. -/
theorem filter_entering (flows : List Flow) (ids : List String)
    (never : ∀ flow ∈ flows, flow.target ∉ ids ∨ flow.source ∈ ids) :
    flows.filter (fun flow => flow.target ∈ ids ∧ flow.source ∉ ids) = [] := by
  rw [List.filter_eq_nil_iff]
  intro flow member
  rcases never flow member with outside | inside
  · simp [outside]
  · simp [inside]

/-- The identifiers of a slot are a region if its flows stand together behind a flow into it,
apart from all others. The flow to the exit is the last one on the way there. -/
theorem region_of_block (flows : List Flow) (slot : Option Step) (exit : String) (entry : Flow)
    (block : Block flows (slotIds slot) entry (slotFlows slot exit))
    (enters : entry.target ∈ slotIds slot) (comes : entry.source ∉ slotIds slot)
    (outside : exit ∉ slotIds slot)
    (branched : ∀ step ∈ slotReached slot, step.isFork → step.branches ≠ []) :
    Region flows (slotIds slot) entry exit := by
  obtain ⟨before, after, rfl, apart⟩ := block
  have others (flow : Flow) (listed : flow ∈ before ∨ flow ∈ after) : Apart (slotIds slot) flow :=
    apart flow (List.mem_append.mpr listed)
  refine ⟨?entered, ?closed, ?left, outside⟩
  case entered =>
    have inFront := filter_entering before (slotIds slot) fun flow listed =>
      Or.inl (others flow (Or.inl listed)).2
    have inBack := filter_entering after (slotIds slot) fun flow listed =>
      Or.inl (others flow (Or.inr listed)).2
    have within := filter_entering (slotFlows slot exit) (slotIds slot) fun flow member =>
      Or.inr (source_mem_slotIds slot exit flow member)
    rw [List.filter_append, List.filter_cons_of_pos (by simp [enters, comes]), List.filter_append,
      inFront, within, inBack]
    rfl
  case closed =>
    intro flow member inside
    simp only [List.mem_append, List.mem_cons] at member
    rcases member with inFront | rfl | within | inBack
    · exact absurd inside (others flow (Or.inl inFront)).1
    · exact absurd inside comes
    · have arrives : flow.target ∈ slotIds slot ++ [exit] :=
        (slotFlows_sublist slot exit flow within).subset (by simp)
      simpa using arrives
    · exact absurd inside (others flow (Or.inr inBack)).1
  case left =>
    have way := chain_to_target (slotFlows slot exit) slot exit ⟨List.Subset.refl _, branched⟩
      entry.target (List.mem_append_left _ enters)
    rcases way.cases_tail with same | ⟨last, _, flow, member, _, arrives⟩
    · exact absurd (same ▸ enters) outside
    · exact ⟨flow, by simp [member], source_mem_slotIds slot exit flow member, arrives⟩

/-- Branches of compiled trees are regions. Every reached fork inherits some place; and
whatever place a fork inherits, a branch of it that begins with a step is entered along the
fork's own flow for this branch, which leads to this step, and left to the place behind the
fork, or to the inherited one if nothing is behind the fork. -/
theorem compile_regions (root : Step) (processId : String) (processName : Option String)
    (net : Net) (accepted : compile root processId processName = .ok net) :
    (∀ step, root.Reaches step → ∃ inherited, root.Inherits endEventId step inherited) ∧
    ∀ fork inherited index branch first, root.Inherits endEventId fork inherited → fork.isFork →
      fork.branches[index]? = some branch → branch.first? = some first →
      ∃ entry, entry.id = some (branchFlowId fork.idText (index + 1)) ∧
        entry.source = fork.idText ∧ entry.target = first.idText ∧
        Region net.flows (first.reached.map (·.idText)) entry
          (fork.continuation inherited) := by
  refine ⟨fun step chain => inherits_of_reaches root step chain endEventId, ?_⟩
  intro fork inherited index branch first chain isFork listed begins
  have distinct := compile_ids_nodup root processId processName net accepted
  obtain ⟨valid, _, _, rfl⟩ := compile_eq_ok root processId processName net accepted
  obtain ⟨bound, same⟩ := List.getElem?_eq_some_iff.mp listed
  obtain ⟨slot, identified⟩ := Option.filter_eq_some_iff.mp begins
  have present : first.idText ≠ "" :=
    first.filled_of_present (Option.isSome_iff_ne_none.mp identified)
  have split : fork.branches = fork.branches.take index ++ branch :: fork.branches.drop (index + 1) := by
    rw [← same, ← List.drop_eq_getElem_cons bound, List.take_append_drop]
  have member : branch ∈ fork.branches := List.mem_of_getElem? listed
  have position : 1 + (fork.branches.take index).length = index + 1 := by
    rw [List.length_take]
    omega
  have block := block_of_inherits root fork endEventId inherited chain isFork _ _ branch split distinct
  obtain ⟨own, behind, _⟩ := apart_around fork inherited chain.finish (distinct.sublist chain.ids)
    isFork _ _ branch split (slotIds branch.child) fun _ inside => inside
  have inside := (reached_of_branch fork chain.finish branch
    ((fork.mem_entered_iff branch).mpr ⟨isFork, member⟩)).trans (List.tail_sublist _)
  rw [slot] at block own behind inside
  rw [position] at block
  have leads : (fork.branchFlow (entryId fork.child inherited) (index + 1) branch).target =
      first.idText := by
    rw [Step.branchFlow, slot, entryId_occupied first _ present]
  refine ⟨_, rfl, rfl, leads, region_of_block _ (some first) _ _ block ?_ own behind ?_⟩
  · rw [leads, slotIds_occupied first present]
    exact List.mem_cons_self
  · intro step reached
    have chained := chain.reached.subset (inside.subset reached)
    exact valid.branched step ((mem_reached_iff root step).mp chained)

/-- The open fork on a branch of the other one inherits the join behind that fork. -/
theorem inherits_openFork : nestedForks.Inherits endEventId openFork "join" := by
  refine Step.Inherits.behind _ _ _ _ _ (by decide) rfl ?_
  refine Step.Inherits.branch _ openFork _ _ _ { child := some openFork } (by decide) (by decide)
    List.mem_cons_self rfl ?_
  exact Step.Inherits.self openFork "join" (by decide)

/-- The nested forks meet the premises with the first branch of the open fork. -/
theorem compile_regions_nestedForks :
    compile nestedForks "p" none = .ok nestedForksNet ∧ nestedForks.Reaches openFork ∧
      (∃ inherited, nestedForks.Inherits endEventId openFork inherited) ∧
      nestedForks.Inherits endEventId openFork "join" ∧ openFork.isFork ∧
      openFork.branches[0]? = some { child := some (Step.ofType "task" "USER_TASK") } ∧
      ∃ entry, entry.id = some (branchFlowId "inner" 1) ∧ entry.source = "inner" ∧
        entry.target = "task" ∧ Region nestedForksNet.flows ["task"] entry "join" := by
  have reaches : nestedForks.Reaches openFork := by
    refine Step.Reaches.behind _ _ _ (by decide) rfl ?_
    refine Step.Reaches.branch _ openFork _ { child := some openFork } (by decide) (by decide)
      List.mem_cons_self rfl ?_
    exact Step.Reaches.self openFork (by decide)
  obtain ⟨inherited, regions⟩ :=
    compile_regions nestedForks "p" none nestedForksNet compile_nestedForks
  exact ⟨compile_nestedForks, reaches, inherited openFork reaches, inherits_openFork, by decide,
    rfl, regions openFork "join" 0 _ _ inherits_openFork (by decide) rfl rfl⟩

end Workflow
