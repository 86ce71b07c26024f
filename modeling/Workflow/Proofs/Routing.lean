import Workflow.Proofs.Tree

/-!
# The flows of a tree, by recursion

`slotFlows` gives the flows of a slot by recursion over the tree: a step's own flow
and then the flows behind it, or, for a fork, each branch's flow directly before the
flows of the branch. `runTasks_visitSlot` says that the flows pass puts out exactly
these, before everything that remains on its list, unless the type of a reached step
stands for no kind; the first such step decides the defect.

The flows that start at one step stand scattered between those of the steps below it.
If no two reached steps share an identifier, `filter_slotFlows` collects them again:
the flows that start at a visited step are its own flows, in the order of its branches.
-/

namespace Workflow

namespace Step

/-- The flow from a fork into its branch at a position, given the place behind the fork. -/
def branchFlow (fork : Step) (continuation : String) (position : Nat) (branch : Branch) : Flow :=
  { id := some (branchFlowId fork.idText position), source := fork.idText,
    target := entryId branch.child continuation,
    isDefault := fork.hasDefault && position == fork.branches.length }

/-- The only flow from a step that is no fork. -/
def plainFlow (step : Step) (target : String) : Flow :=
  { source := step.idText, target := entryId step.child target }

/-- All flows that start at a step with a target. -/
def ownFlows (step : Step) (target : String) : List Flow :=
  if step.isFork then
    (step.branches.zipIdx 1).map fun entry =>
      step.branchFlow (entryId step.child target) entry.2 entry.1
  else [step.plainFlow target]

end Step

mutual

/-- The flows of a tree whose open paths are closed into a target. -/
def Step.flowList : Step → String → List Flow
  | ⟨id, typeName, name, attributes, child, branches⟩, target =>
      let step : Step := ⟨id, typeName, name, attributes, child, branches⟩
      if step.idText = "" then []
      else
        (if step.isFork then branchesFlows step (entryId child target) 1 branches
          else [step.plainFlow target]) ++
          slotFlows child target
termination_by structural step => step

/-- The flows of a slot. -/
def slotFlows : Option Step → String → List Flow
  | none, _ => []
  | some step, target => step.flowList target
termination_by structural slot => slot

/-- The flows of a fork's branches from a position on, each behind the flow into it. -/
def branchesFlows (fork : Step) (continuation : String) : Nat → List Branch → List Flow
  | _, [] => []
  | position, ⟨id, name, attributes, child⟩ :: rest =>
      fork.branchFlow continuation position ⟨id, name, attributes, child⟩ ::
        (slotFlows child continuation ++ branchesFlows fork continuation (position + 1) rest)
termination_by structural _ branches => branches

end

/-- A vacant slot has no flows. -/
theorem slotFlows_vacant (slot : Option Step) (target : String) (vacant : Vacant slot) :
    slotFlows slot target = [] := by
  cases slot with
  | none => rfl
  | some step =>
    have empty : step.idText = "" := (vacant_some_iff step).mp vacant
    cases step
    rw [slotFlows, Step.flowList, if_pos empty]

/-- The flows of an occupied slot are those of its branches or its plain flow, and then
those behind the step. -/
theorem slotFlows_occupied (step : Step) (target : String) (present : step.idText ≠ "") :
    slotFlows (some step) target =
      (if step.isFork then branchesFlows step (entryId step.child target) 1 step.branches
        else [step.plainFlow target]) ++
        slotFlows step.child target := by
  cases step
  rw [slotFlows, Step.flowList, if_neg present]

/-- The first of some branches contributes the flow into it and then its own flows. -/
theorem branchesFlows_cons (fork : Step) (continuation : String) (position : Nat)
    (branch : Branch) (rest : List Branch) :
    branchesFlows fork continuation position (branch :: rest) =
      fork.branchFlow continuation position branch ::
        (slotFlows branch.child continuation ++
          branchesFlows fork continuation (position + 1) rest) := by
  cases branch; rfl

/-- Branches contribute their flows one after the other, and keep their positions. -/
theorem branchesFlows_append (fork : Step) (continuation : String) (position : Nat)
    (front back : List Branch) :
    branchesFlows fork continuation position (front ++ back) =
      branchesFlows fork continuation position front ++
        branchesFlows fork continuation (position + front.length) back := by
  induction front generalizing position with
  | nil => rfl
  | cons branch rest inductionHypothesis =>
    have shifted : position + 1 + rest.length = position + (rest.length + 1) := by omega
    simp only [List.cons_append, branchesFlows_cons, inductionHypothesis, List.append_assoc,
      List.length_cons, shifted]

/-- Resolve the kinds of steps in their order. -/
def resolveAll : List Step → Except Defect Unit
  | [] => .ok ()
  | step :: rest =>
      match step.kind step.idText with
      | .error defect => .error defect
      | .ok _ => resolveAll rest

/-- Steps are resolved one list after the other. -/
theorem resolveAll_append (front back : List Step) :
    resolveAll (front ++ back) = (resolveAll front >>= fun _ => resolveAll back) := by
  induction front with
  | nil => rfl
  | cons step rest inductionHypothesis =>
    simp only [List.cons_append, resolveAll]
    cases step.kind step.idText with
    | error defect => rfl
    | ok kind => exact inductionHypothesis

/-- Steps of known kinds are resolved. -/
theorem resolveAll_known (steps : List Step) (known : ∀ step ∈ steps, step.kind? ≠ none) :
    resolveAll steps = .ok () := by
  induction steps with
  | nil => rfl
  | cons step rest inductionHypothesis =>
    obtain ⟨kind, resolved⟩ := Option.ne_none_iff_exists'.mp (known step List.mem_cons_self)
    rw [resolveAll, (step.kind_eq_ok_iff _ kind).mpr resolved]
    exact inductionHypothesis fun later member => known later (List.mem_cons_of_mem step member)

/-- The flows of some steps in front of those of the rest, once the kinds of these steps are
resolved. -/
def flowsBefore (steps : List Step) (flows : List Flow) (rest : Except Defect (List Flow)) :
    Except Defect (List Flow) :=
  resolveAll steps >>= fun _ => rest.map (flows ++ ·)

/-- Without steps and flows there is only the rest. -/
theorem flowsBefore_nil (rest : Except Defect (List Flow)) : flowsBefore [] [] rest = rest := by
  cases rest <;> rfl

/-- Steps and their flows come one list after the other. -/
theorem flowsBefore_append (front back : List Step) (early late : List Flow)
    (rest : Except Defect (List Flow)) :
    flowsBefore (front ++ back) (early ++ late) rest =
      flowsBefore front early (flowsBefore back late rest) := by
  simp only [flowsBefore, resolveAll_append]
  cases resolveAll front with
  | error defect => rfl
  | ok _ =>
    cases resolveAll back with
    | error defect => rfl
    | ok _ => cases rest <;> simp [Except.map, bind, Except.bind]

/-- A flow that is put out at once comes in front of all others. -/
theorem flowsBefore_cons (steps : List Step) (flow : Flow) (flows : List Flow)
    (rest : Except Defect (List Flow)) :
    flowsBefore steps (flow :: flows) rest = (flowsBefore steps flows rest).map (flow :: ·) := by
  simp only [flowsBefore]
  cases resolveAll steps with
  | error defect => rfl
  | ok _ => cases rest <;> rfl

/-- The tasks of a fork's branches put out the flows of the branches, if the walks of the
branches put out theirs. The fork's identifier and kind are passed along as such; they
are those of the fork. -/
theorem runTasks_branchTasks (fork : Step) (kind : StepKind) (known : fork.kind? = some kind)
    (continuation : String) (position : Nat) (branches : List Branch) (rest : List FlowTask)
    (walked : ∀ branch ∈ branches, ∀ rest,
      runTasks (visitSlot branch.child continuation ++ rest) =
        flowsBefore (slotReached branch.child) (slotFlows branch.child continuation)
          (runTasks rest)) :
    runTasks (branchTasks fork.idText kind continuation fork.branches.length position branches ++
        rest) =
      flowsBefore (branches.flatMap fun branch => slotReached branch.child)
        (branchesFlows fork continuation position branches) (runTasks rest) := by
  induction branches generalizing position with
  | nil => exact (flowsBefore_nil (runTasks rest)).symm
  | cons branch others inductionHypothesis =>
    have default : fork.hasDefault = kind.hasDefault := by simp [Step.hasDefault, known]
    have emitted : fork.branchFlow continuation position branch =
        { id := some (branchFlowId fork.idText position), source := fork.idText,
          target := entryId branch.child continuation,
          isDefault := kind.hasDefault && position == fork.branches.length } := by
      rw [Step.branchFlow, default]
    have behind := inductionHypothesis (position + 1)
      fun later member => walked later (List.mem_cons_of_mem branch member)
    rw [branchTasks, ← emitted, List.cons_append, runTasks, List.append_assoc,
      walked branch List.mem_cons_self, behind, List.flatMap_cons, branchesFlows_cons,
      flowsBefore_cons, flowsBefore_append]

/-- The flows pass walks a slot as the recursion does, whatever else is pending: it puts
out the flows of the slot and then those of the rest, unless the type of a reached step
stands for no kind. -/
theorem runTasks_visitSlot (slot : Option Step) (target : String) (rest : List FlowTask) :
    runTasks (visitSlot slot target ++ rest) =
      flowsBefore (slotReached slot) (slotFlows slot target) (runTasks rest) := by
  induction slot using slot_induction generalizing target rest with
  | vacant slot vacant =>
    rw [slotReached_vacant slot vacant, slotFlows_vacant slot target vacant, flowsBefore_nil]
    cases slot with
    | none => rfl
    | some step =>
      have absent := step.presentId?_of_vacant vacant
      simp [visitSlot, runTasks, absent]
  | occupied step present branches child =>
    have id := step.presentId?_of_filled present
    rw [slotReached_occupied step present, slotFlows_occupied step target present, flowsBefore]
    simp only [visitSlot, Option.toList_some, List.map_cons, List.map_nil, List.cons_append,
      List.nil_append, runTasks, id, resolveAll]
    cases resolved : step.kind step.idText with
    | error defect => rfl
    | ok kind =>
      have known : step.kind? = some kind := (step.kind_eq_ok_iff _ kind).mp resolved
      have fork : step.isFork = kind.isFork := by simp [Step.isFork, known]
      simp only [Step.tasks, Step.entered, fork]
      rw [← flowsBefore]
      cases kind.isFork with
      | true =>
        simp only [if_true, List.append_assoc]
        rw [runTasks_branchTasks step kind known (entryId step.child target) 1 step.branches
          (visitSlot step.child target ++ rest) fun branch member rest =>
            branches branch member _ rest, child target rest, flowsBefore_append]
      | false =>
        have emitted : step.plainFlow target =
            { source := step.idText, target := entryId step.child target } := rfl
        simp only [Bool.false_eq_true, if_false, List.cons_append, List.nil_append,
          List.flatMap_nil, runTasks]
        rw [child target rest, ← emitted, flowsBefore_cons]

/-- The flows pass puts out the flows of the tree if every reached step has a kind, and
otherwise names the first that has none. -/
theorem flows_eq (root : Step) (target : String) :
    root.flows target = (resolveAll root.reached).map fun _ => root.flowList target := by
  have walked := runTasks_visitSlot (some root) target []
  have tasks : visitSlot (some root) target ++ [] = [.visit root target] := rfl
  rw [tasks] at walked
  rw [Step.flows, walked, flowsBefore, slotReached, slotFlows]
  cases resolveAll root.reached with
  | error defect => rfl
  | ok _ => simp [runTasks, Except.map, bind, Except.bind]

/-- A step's own flows start at the step. -/
theorem source_of_ownFlows (step : Step) (target : String) (flow : Flow)
    (own : flow ∈ step.ownFlows target) : flow.source = step.idText := by
  unfold Step.ownFlows at own
  split at own
  · obtain ⟨entry, _, rfl⟩ := List.mem_map.mp own
    rfl
  · rw [List.mem_singleton.mp own]
    rfl

/-- A flow of branches leads into one of them or belongs to one of them. -/
theorem mem_branchesFlows_iff (fork : Step) (continuation : String) (position : Nat)
    (branches : List Branch) (flow : Flow) :
    flow ∈ branchesFlows fork continuation position branches ↔
      flow ∈ (branches.zipIdx position).map
          (fun entry => fork.branchFlow continuation entry.2 entry.1) ∨
        ∃ branch ∈ branches, flow ∈ slotFlows branch.child continuation := by
  induction branches generalizing position with
  | nil => simp [branchesFlows]
  | cons branch rest inductionHypothesis =>
    rw [List.exists_mem_cons_iff, branchesFlows_cons, List.mem_cons, List.mem_append,
      inductionHypothesis, List.zipIdx_cons, List.map_cons, List.mem_cons]
    tauto

/-- The flows of an occupied slot are its step's own flows, those of the entered branches
and those behind the step. -/
theorem mem_slotFlows_occupied (step : Step) (target : String) (present : step.idText ≠ "")
    (flow : Flow) :
    flow ∈ slotFlows (some step) target ↔
      flow ∈ step.ownFlows target ∨
        (∃ branch ∈ step.entered, flow ∈ slotFlows branch.child (entryId step.child target)) ∨
        flow ∈ slotFlows step.child target := by
  rw [slotFlows_occupied step target present, List.mem_append, Step.ownFlows, Step.entered]
  cases step.isFork with
  | true => simp only [if_true, mem_branchesFlows_iff, or_assoc]
  | false => simp

/-- The flows of a slot are the own flows of its visits. -/
theorem mem_slotFlows_iff (slot : Option Step) (target : String) (flow : Flow) :
    flow ∈ slotFlows slot target ↔
      ∃ visit ∈ slotVisits slot target, flow ∈ visit.step.ownFlows visit.target := by
  induction slot using slot_induction generalizing target with
  | vacant slot vacant =>
    simp [slotFlows_vacant slot target vacant, slotVisits_vacant slot target vacant]
  | occupied step present branches child =>
    have inBranches :
        (∃ branch ∈ step.entered, flow ∈ slotFlows branch.child (entryId step.child target)) ↔
          ∃ branch ∈ step.entered, ∃ visit ∈ slotVisits branch.child (entryId step.child target),
            flow ∈ visit.step.ownFlows visit.target :=
      exists_congr fun branch => and_congr_right fun entered =>
        branches branch (step.branch_of_entered branch entered) _
    rw [mem_slotFlows_occupied step target present, slotVisits_occupied step target present,
      inBranches, child]
    simp only [List.exists_mem_cons_iff, List.mem_append, List.mem_flatMap, or_and_right,
      exists_or]
    constructor
    · rintro (own | ⟨branch, entered, visit, visited, own⟩ | behind)
      · exact Or.inl own
      · exact Or.inr (Or.inl ⟨visit, ⟨branch, entered, visited⟩, own⟩)
      · exact Or.inr (Or.inr behind)
    · rintro (own | ⟨visit, ⟨branch, entered, visited⟩, own⟩ | behind)
      · exact Or.inl own
      · exact Or.inr (Or.inl ⟨branch, entered, visit, visited, own⟩)
      · exact Or.inr (Or.inr behind)

/-- A visited step's identifier is reached. -/
theorem idText_mem_slotIds (slot : Option Step) (target : String) (visit : Visit)
    (visited : visit ∈ slotVisits slot target) : visit.step.idText ∈ slotIds slot := by
  rw [slotIds, ← slotVisits_map_step slot target, List.map_map]
  exact List.mem_map.mpr ⟨visit, visited, rfl⟩

/-- Every flow of a slot starts at a step reached from it. -/
theorem source_mem_slotIds (slot : Option Step) (target : String) (flow : Flow)
    (member : flow ∈ slotFlows slot target) : flow.source ∈ slotIds slot := by
  obtain ⟨visit, visited, own⟩ := (mem_slotFlows_iff slot target flow).mp member
  rw [source_of_ownFlows visit.step visit.target flow own]
  exact idText_mem_slotIds slot target visit visited

/-- No flow of a slot starts at an identifier that the slot does not reach. -/
theorem filter_foreign (slot : Option Step) (target id : String) (foreign : id ∉ slotIds slot) :
    (slotFlows slot target).filter (fun flow => flow.source == id) = [] := by
  rw [List.filter_eq_nil_iff]
  intro flow member same
  exact foreign (eq_of_beq same ▸ source_mem_slotIds slot target flow member)

/-- Of the flows of branches, those that start at an identifier that no branch reaches
are the flows into the branches, if the identifier is the fork's, and none otherwise. -/
theorem filter_branchesFlows (fork : Step) (continuation id : String) (position : Nat)
    (branches : List Branch) (foreign : ∀ branch ∈ branches, id ∉ slotIds branch.child) :
    (branchesFlows fork continuation position branches).filter (fun flow => flow.source == id) =
      if fork.idText = id then
        (branches.zipIdx position).map fun entry => fork.branchFlow continuation entry.2 entry.1
      else [] := by
  induction branches generalizing position with
  | nil => simp [branchesFlows]
  | cons branch rest inductionHypothesis =>
    have others := inductionHypothesis (position + 1)
      fun later member => foreign later (List.mem_cons_of_mem branch member)
    have inner := filter_foreign branch.child continuation id (foreign branch List.mem_cons_self)
    rw [branchesFlows_cons, List.filter_cons, List.filter_append, inner, others]
    by_cases same : fork.idText = id <;> simp [Step.branchFlow, same, List.zipIdx_cons]

/-- Of the flows in front of those behind a step, the ones that start at an identifier
that no entered branch reaches are the step's own, or none. -/
theorem filter_front (step : Step) (target id : String)
    (foreign : ∀ branch ∈ step.entered, id ∉ slotIds branch.child) :
    (if step.isFork then branchesFlows step (entryId step.child target) 1 step.branches
        else [step.plainFlow target]).filter (fun flow => flow.source == id) =
      if step.idText = id then step.ownFlows target else [] := by
  unfold Step.entered at foreign
  unfold Step.ownFlows
  cases fork : step.isFork with
  | true =>
    simp only [fork, if_true] at foreign ⊢
    exact filter_branchesFlows step _ id 1 step.branches foreign
  | false =>
    by_cases same : step.idText = id <;> simp [Step.plainFlow, same]

/-- Of the flows of branches that reach distinct identifiers, those that start at an
identifier that one branch reaches and that is not the fork's belong to this branch. -/
theorem filter_branchesFlows_of_mem (fork : Step) (continuation id : String) (position : Nat)
    (branches : List Branch)
    (distinct : (branches.flatMap fun branch => slotIds branch.child).Nodup) (branch : Branch)
    (member : branch ∈ branches) (reached : id ∈ slotIds branch.child)
    (other : fork.idText ≠ id) :
    (branchesFlows fork continuation position branches).filter (fun flow => flow.source == id) =
      (slotFlows branch.child continuation).filter (fun flow => flow.source == id) := by
  obtain ⟨front, back, rfl⟩ := List.append_of_mem member
  rw [List.flatMap_append, List.flatMap_cons, List.nodup_append, List.nodup_append] at distinct
  obtain ⟨_, ⟨_, _, apartBack⟩, apartFront⟩ := distinct
  have inFront : ∀ earlier ∈ front, id ∉ slotIds earlier.child := by
    intro earlier before twice
    apply apartFront id (List.mem_flatMap.mpr ⟨earlier, before, twice⟩) id _ rfl
    exact List.mem_append_left _ reached
  have inBack : ∀ later ∈ back, id ∉ slotIds later.child := by
    intro later behind twice
    exact apartBack id reached id (List.mem_flatMap.mpr ⟨later, behind, twice⟩) rfl
  rw [branchesFlows_append, branchesFlows_cons, List.filter_append, List.filter_cons,
    List.filter_append, filter_branchesFlows _ _ _ _ _ inFront,
    filter_branchesFlows _ _ _ _ _ inBack, if_neg other]
  simp [Step.branchFlow, other]

/-- A part of a list of parts is a sublist of all of them together. -/
theorem sublist_flatMap {α β : Type} (f : α → List β) (items : List α) (item : α)
    (member : item ∈ items) : (f item).Sublist (items.flatMap f) := by
  rw [List.flatMap_def]
  exact List.sublist_flatten_of_mem (List.mem_map.mpr ⟨item, member, rfl⟩)

/-- If no two steps reached from a slot share an identifier, the flows that start at a
visited step are its own flows, in their order.

Proof: induction over the slot. Distinct identifiers keep the flows of every other part
of the tree out: at the first step, those of the steps below it; below it, the step's
own flows and those of all branches but one, or of all branches. -/
theorem filter_slotFlows (slot : Option Step) (target : String) (distinct : (slotIds slot).Nodup)
    (visit : Visit) (visited : visit ∈ slotVisits slot target) :
    (slotFlows slot target).filter (fun flow => flow.source == visit.step.idText) =
      visit.step.ownFlows visit.target := by
  induction slot using slot_induction generalizing target with
  | vacant slot vacant =>
    rw [slotVisits_vacant slot target vacant] at visited
    exact False.elim (List.not_mem_nil visited)
  | occupied step present branches child =>
    rw [slotIds_occupied step present, List.nodup_cons, List.mem_append, not_or,
      List.nodup_append] at distinct
    obtain ⟨⟨notInBranches, notBehind⟩, distinctBranches, distinctBehind, apart⟩ := distinct
    rw [slotVisits_occupied step target present, List.mem_cons, List.mem_append, List.mem_flatMap]
      at visited
    rw [slotFlows_occupied step target present, List.filter_append]
    rcases visited with rfl | ⟨branch, entered, visited⟩ | visited
    · have outside : ∀ branch ∈ step.entered, step.idText ∉ slotIds branch.child := by
        intro branch entered reached
        apply notInBranches
        exact List.mem_flatMap.mpr ⟨branch, entered, reached⟩
      rw [filter_front step target step.idText outside, if_pos rfl,
        filter_foreign step.child target step.idText notBehind, List.append_nil]
    · have reached := idText_mem_slotIds branch.child _ visit visited
      have inBranches : visit.step.idText ∈
          step.entered.flatMap fun branch => slotIds branch.child :=
        List.mem_flatMap.mpr ⟨branch, entered, reached⟩
      have other : step.idText ≠ visit.step.idText := fun same => notInBranches (same ▸ inBranches)
      have foreign : visit.step.idText ∉ slotIds step.child :=
        fun behind => apart _ inBranches _ behind rfl
      have fork : step.isFork = true := ((step.mem_entered_iff branch).mp entered).1
      simp only [Step.entered, fork, if_true] at entered distinctBranches
      have distinctHere := distinctBranches.sublist
        (sublist_flatMap (fun branch => slotIds branch.child) step.branches branch entered)
      rw [fork, if_pos rfl, filter_foreign _ _ _ foreign, List.append_nil,
        filter_branchesFlows_of_mem step _ _ 1 step.branches distinctBranches branch entered reached
          other]
      exact branches branch entered _ distinctHere visited
    · have reached := idText_mem_slotIds step.child target visit visited
      have other : step.idText ≠ visit.step.idText := fun same => notBehind (same ▸ reached)
      have foreign : ∀ branch ∈ step.entered, visit.step.idText ∉ slotIds branch.child := by
        intro branch entered inBranch
        exact apart _ (List.mem_flatMap.mpr ⟨branch, entered, inBranch⟩) _ reached rfl
      rw [filter_front step target _ foreign, if_neg other, List.nil_append]
      exact child target distinctBehind visited

end Workflow
