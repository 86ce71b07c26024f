import Workflow.Proofs.Regions
import Workflow.Proofs.SharedOrder

/-!
# Trees with a tail

A tree is open-ended if the chain of steps that follow each other from its root has
identifiers throughout and ends at a step with an empty slot behind it. Another tree can be
attached there as its tail.

Compiling the whole only redirects the open paths. The elements of the tail stand behind
those of the tree, and so do its flows; the flows of the tree are what they were, except that
those which led to the end event lead to the tail. `slotFlows_redirected` says this for the
slots that hand their target on, at any depth: which target they are given shows in the ends
of their open paths and nowhere else.
-/

namespace Workflow

mutual

/-- A tree with a tail attached behind the last step of its chain. -/
def Step.extended : Step → Step → Step
  | ⟨id, typeName, name, attributes, child, branches⟩, tail =>
      ⟨id, typeName, name, attributes, some (slotExtended child tail), branches⟩
termination_by structural step => step

/-- What stands in the slot behind a step once a tail is attached to the chain. -/
def slotExtended : Option Step → Step → Step
  | none, tail => tail
  | some step, tail => step.extended tail
termination_by structural slot => slot

end

/-- Extending a tree changes what follows its root and nothing else there. -/
theorem Step.extended_eq (step tail : Step) :
    step.extended tail = step.followedBy (slotExtended step.child tail) := by
  cases step; rfl

/-- A tree whose chain has identifiers throughout and ends at a step with nothing behind it. -/
inductive Step.OpenEnded : Step → Prop
  | last (step : Step) (present : step.presentId? ≠ none) (ends : step.child = none) :
      OpenEnded step
  | link (step next : Step) (present : step.presentId? ≠ none) (follows : step.child = some next)
      (rest : OpenEnded next) : OpenEnded step

/-- The root of an open-ended tree has an identifier text. -/
theorem Step.OpenEnded.filled {step : Step} (ended : step.OpenEnded) : step.idText ≠ "" := by
  cases ended with
  | last _ present => exact step.filled_of_present present
  | link _ _ present => exact step.filled_of_present present

/-- The element of a step, if the step has one. -/
def Step.element? (step : Step) : Option Element :=
  step.kind?.bind fun kind => (Element.ofStep step step.idText kind).toOption

/-- Elements represent steps exactly if they are the elements of the steps. -/
theorem forall₂_represents_iff (steps : List Step) (elements : List Element) :
    List.Forall₂ Represents steps elements ↔ steps.map Step.element? = elements.map some := by
  have one (step : Step) (element : Element) :
      Represents step element ↔ step.element? = some element := by
    unfold Represents Step.element?
    cases step.kind? with
    | none => simp
    | some kind => cases made : Element.ofStep step step.idText kind <;> simp [made, Except.toOption]
  rw [← List.forall₂_eq_eq_eq, List.forall₂_map_left_iff, List.forall₂_map_right_iff]
  constructor
  · intro represented
    exact represented.imp fun step element => (one step element).mp
  · intro same
    exact same.imp fun step element => (one step element).mpr

section

variable (step next : Step) (present : step.idText ≠ "")

include present

/-- From a step that is followed by another one, the branches are reached as before. -/
theorem slotReached_followedBy :
    slotReached (some (step.followedBy next)) =
      step.followedBy next ::
        (step.entered.flatMap (fun branch => slotReached branch.child) ++ slotReached (some next)) :=
  slotReached_occupied (step.followedBy next) present

/-- What follows a step shows in the elements behind the step only. -/
theorem elements_followedBy :
    (slotReached (some (step.followedBy next))).map Step.element? =
      step.element? ::
        ((step.entered.flatMap fun branch => slotReached branch.child).map Step.element? ++
          (slotReached (some next)).map Step.element?) := by
  rw [slotReached_followedBy step next present, List.map_cons, List.map_append]
  rfl

end

/-- The elements of an extended tree are those of the tree and then those of the tail. -/
theorem elements_extended (root tail : Step) (ended : root.OpenEnded) :
    (slotReached (some (root.extended tail))).map Step.element? =
      (slotReached (some root)).map Step.element? ++
        (slotReached (some tail)).map Step.element? := by
  induction ended with
  | last step present ends =>
    have filled := step.filled_of_present present
    rw [step.extended_eq, elements_followedBy step _ filled, slotReached_occupied step filled, ends]
    simp [slotExtended, slotReached]
  | link step next present follows rest inductionHypothesis =>
    have filled := step.filled_of_present present
    have attached : slotExtended (some next) tail = next.extended tail := rfl
    rw [step.extended_eq, follows, attached, elements_followedBy step _ filled, inductionHypothesis,
      slotReached_occupied step filled, follows]
    simp

/-- The flow with another target in place of a given one. -/
def Flow.redirected (target other : String) (flow : Flow) : Flow :=
  { flow with target := if flow.target = target then other else flow.target }

/-- Flows that lead elsewhere are not redirected. -/
theorem map_redirected_eq_self (flows : List Flow) (target other : String)
    (elsewhere : ∀ flow ∈ flows, flow.target ≠ target) :
    flows.map (Flow.redirected target other) = flows := by
  have same : flows.map (Flow.redirected target other) = flows.map id := by
    apply List.map_congr_left
    intro flow member
    rw [Flow.redirected, if_neg (elsewhere flow member)]
    rfl
  rw [same, List.map_id]

/-- Where a slot is entered depends on its target only if the slot is vacant. -/
theorem entryId_redirected (slot : Option Step) (target other : String)
    (ahead : target ∉ slotIds slot) :
    entryId slot other = if entryId slot target = target then other else entryId slot target := by
  induction slot using slot_induction with
  | vacant slot vacant =>
    rw [entryId_vacant slot other vacant, entryId_vacant slot target vacant, if_pos rfl]
  | occupied step present branches child =>
    obtain ⟨notHere, _⟩ := (notMem_slotIds_iff step present target).mp ahead
    rw [entryId_occupied step other present, entryId_occupied step target present,
      if_neg notHere.symm]

/-- The flows in front of those behind a step, given the place behind the step. -/
def Step.frontFlows (step : Step) (continuation : String) : List Flow :=
  if step.isFork then branchesFlows step continuation 1 step.branches
  else [{ source := step.idText, target := continuation }]

/-- The flows of an occupied slot are those in front and those behind its step. -/
theorem slotFlows_front (step : Step) (target : String) (present : step.idText ≠ "") :
    slotFlows (some step) target =
      step.frontFlows (entryId step.child target) ++ slotFlows step.child target :=
  slotFlows_occupied step target present

/-- The flows of branches are redirected with the place behind their fork, if those inside each
branch are. -/
theorem branchesFlows_redirected (fork : Step) (continuation other : String) (position : Nat)
    (branches : List Branch) (ahead : ∀ branch ∈ branches, continuation ∉ slotIds branch.child)
    (each : ∀ branch ∈ branches, slotFlows branch.child other =
      (slotFlows branch.child continuation).map (Flow.redirected continuation other)) :
    branchesFlows fork other position branches =
      (branchesFlows fork continuation position branches).map
        (Flow.redirected continuation other) := by
  induction branches generalizing position with
  | nil => rfl
  | cons branch rest inductionHypothesis =>
    have others := inductionHypothesis (position + 1)
      (fun later member => ahead later (List.mem_cons_of_mem branch member))
      (fun later member => each later (List.mem_cons_of_mem branch member))
    have into : fork.branchFlow other position branch =
        (fork.branchFlow continuation position branch).redirected continuation other := by
      rw [Step.branchFlow, entryId_redirected branch.child continuation other
        (ahead branch List.mem_cons_self)]
      rfl
    rw [branchesFlows_cons, branchesFlows_cons, List.map_cons, List.map_append, into, others,
      each branch List.mem_cons_self]

/-- The flows in front of those behind a step are redirected with the place behind the step, if
those inside each entered branch are. -/
theorem frontFlows_redirected (step : Step) (continuation other : String)
    (ahead : ∀ branch ∈ step.entered, continuation ∉ slotIds branch.child)
    (each : ∀ branch ∈ step.entered, slotFlows branch.child other =
      (slotFlows branch.child continuation).map (Flow.redirected continuation other)) :
    step.frontFlows other =
      (step.frontFlows continuation).map (Flow.redirected continuation other) := by
  unfold Step.entered at ahead each
  unfold Step.frontFlows
  cases fork : step.isFork with
  | true =>
    simp only [fork, if_true] at ahead each ⊢
    exact branchesFlows_redirected step continuation other 1 step.branches ahead each
  | false => simp [Flow.redirected]

/-- No flow in front of those behind a step leads to a target that the slot does not reach,
unless the target is the place behind the step. -/
theorem frontFlows_elsewhere (step : Step) (target : String) (present : step.idText ≠ "")
    (ahead : target ∉ slotIds (some step)) (other : entryId step.child target ≠ target) :
    ∀ flow ∈ step.frontFlows (entryId step.child target), flow.target ≠ target := by
  obtain ⟨notHere, outside, _⟩ := (notMem_slotIds_iff step present target).mp ahead
  have apart := apart_of_front step target [target] (by simpa [eq_comm] using notHere)
    (by simpa using other) fun branch entered id inBranch single =>
      outside branch entered (List.mem_singleton.mp single ▸ inBranch)
  intro flow member leads
  exact (apart flow member).2 (leads ▸ List.mem_singleton_self _)

/-- Given another target, a slot has the same flows, except that those which lead to its target
lead to the other one.

Proof: induction over the slot. If the slot behind a step is vacant, the branches of the step are
given the other target too. Otherwise they are closed into what follows the step, as before. -/
theorem slotFlows_redirected (slot : Option Step) (target other : String)
    (ahead : target ∉ slotIds slot) :
    slotFlows slot other = (slotFlows slot target).map (Flow.redirected target other) := by
  induction slot using slot_induction generalizing target other with
  | vacant slot vacant =>
    rw [slotFlows_vacant slot other vacant, slotFlows_vacant slot target vacant, List.map_nil]
  | occupied step present branches child =>
    obtain ⟨_, outside, notBehind⟩ := (notMem_slotIds_iff step present target).mp ahead
    rw [slotFlows_front step other present, slotFlows_front step target present, List.map_append,
      child target other notBehind, entryId_redirected step.child target other notBehind]
    congr 1
    by_cases same : entryId step.child target = target
    · rw [if_pos same, same]
      exact frontFlows_redirected step target other outside fun branch entered =>
        branches branch (step.branch_of_entered branch entered) target other
          (outside branch entered)
    · rw [if_neg same, map_redirected_eq_self _ _ _
        (frontFlows_elsewhere step target present ahead same)]

/-- What follows a step shows in the flows in front of those behind it only as the place that they
are given. -/
theorem slotFlows_followedBy (step next : Step) (target : String) (present : step.idText ≠ "")
    (filled : next.idText ≠ "") :
    slotFlows (some (step.followedBy next)) target =
      step.frontFlows next.idText ++ slotFlows (some next) target := by
  have branches (position : Nat) (listed : List Branch) :
      branchesFlows (step.followedBy next) next.idText position listed =
        branchesFlows step next.idText position listed := by
    induction listed generalizing position with
    | nil => rfl
    | cons branch rest inductionHypothesis =>
      rw [branchesFlows_cons, branchesFlows_cons, inductionHypothesis]
      rfl
  have front : (step.followedBy next).frontFlows next.idText = step.frontFlows next.idText := by
    unfold Step.frontFlows
    rw [branches]
    rfl
  have behind : (step.followedBy next).child = some next := rfl
  rw [slotFlows_front (step.followedBy next) target present, behind,
    entryId_occupied next target filled, front]

/-- The root of an extended tree keeps its identifier. -/
theorem idText_extended (step tail : Step) : (step.extended tail).idText = step.idText := by
  rw [step.extended_eq]
  rfl

/-- The flows of an extended tree are those of the tree, redirected to the tail, and then those
of the tail.

Proof: induction along the chain. Behind its last step the tail takes the place of the target.
Every other step is followed by a step, so the flows in front do not lead to the target. -/
theorem slotFlows_extended (root tail : Step) (target : String) (ended : root.OpenEnded)
    (filled : tail.idText ≠ "") (ahead : target ∉ slotIds (some root)) :
    slotFlows (some (root.extended tail)) target =
      (slotFlows (some root) target).map (Flow.redirected target tail.idText) ++
        slotFlows (some tail) target := by
  induction ended with
  | last step present ends =>
    have here := step.filled_of_present present
    have empty : entryId step.child target = target := by
      rw [ends]
      rfl
    have nothing : slotFlows step.child target = [] := by
      rw [ends]
      rfl
    obtain ⟨_, outside, _⟩ := (notMem_slotIds_iff step here target).mp ahead
    have redirected := frontFlows_redirected step target tail.idText outside fun branch entered =>
      slotFlows_redirected branch.child target tail.idText (outside branch entered)
    have attached : slotExtended none tail = tail := rfl
    rw [step.extended_eq, ends, attached, slotFlows_followedBy step tail target here filled,
      slotFlows_front step target here, empty, nothing, List.append_nil, redirected]
  | link step next present follows rest inductionHypothesis =>
    have here := step.filled_of_present present
    have entry : entryId step.child target = next.idText := by
      rw [follows, entryId_occupied next target rest.filled]
    obtain ⟨_, _, behind⟩ := (notMem_slotIds_iff step here target).mp ahead
    rw [follows] at behind
    obtain ⟨notNext, _⟩ := (notMem_slotIds_iff next rest.filled target).mp behind
    have other : entryId step.child target ≠ target := by
      rw [entry]
      exact notNext.symm
    have kept := map_redirected_eq_self _ target tail.idText
      (frontFlows_elsewhere step target here ahead other)
    rw [entry] at kept
    have attached : slotExtended (some next) tail = next.extended tail := rfl
    have named := idText_extended next tail
    rw [step.extended_eq, follows, attached,
      slotFlows_followedBy step (next.extended tail) target here (named ▸ rest.filled), named,
      inductionHypothesis behind, slotFlows_front step target here, entry, follows, List.map_append,
      kept, List.append_assoc]

/-- Steps that are represented have known kinds. -/
theorem known_of_represented (steps : List Step) (elements : List Element)
    (represented : List.Forall₂ Represents steps elements) : ∀ step ∈ steps, step.kind? ≠ none := by
  intro step member
  obtain ⟨_, _, kind, known, _⟩ := exists_of_forall₂ represented step member
  rw [known]
  exact Option.some_ne_none kind

/-- Compiling an open-ended tree with a tail appends the tail's elements and flows to those of the
tree, in front of the end event, and redirects to the tail what led to the end event. Nothing
else changes. -/
theorem compile_extended (root tail : Step) (processId : String) (processName : Option String)
    (net whole : Net) (ended : root.OpenEnded) (present : tail.presentId? ≠ none)
    (accepted : compile root processId processName = .ok net)
    (acceptedWhole : compile (root.extended tail) processId processName = .ok whole) :
    ∃ front elements flows,
      net.elements = front ++ [endEvent] ∧
      List.Forall₂ Represents tail.reached elements ∧
      tail.flows endEventId = .ok flows ∧
      whole = { net with
        elements := front ++ elements ++ [endEvent]
        flows := net.flows.map (Flow.redirected endEventId tail.idText) ++ flows } := by
  have ahead := endEventId_notMem root processId processName net accepted
  obtain ⟨_, front, ofRoot, rfl⟩ := compile_eq_ok root processId processName net accepted
  obtain ⟨_, all, ofWhole, rfl⟩ := compile_eq_ok _ processId processName whole acceptedWhole
  have parts : all.map some = front.map some ++ tail.reached.map Step.element? := by
    rw [← (forall₂_represents_iff _ _).mp ofWhole, ← (forall₂_represents_iff _ _).mp ofRoot]
    exact elements_extended root tail ended
  obtain ⟨early, elements, rfl, sameFront, ofTail⟩ := List.map_eq_append_iff.mp parts
  obtain rfl : early = front := (List.map_inj_right fun _ _ => Option.some.inj).mp sameFront
  have represented := (forall₂_represents_iff _ _).mpr ofTail.symm
  have flows : (root.extended tail).flowList endEventId = _ :=
    slotFlows_extended root tail endEventId ended (tail.filled_of_present present) ahead
  refine ⟨early, elements, tail.flowList endEventId, rfl, represented, ?_, ?_⟩
  · rw [flows_eq, resolveAll_known _ (known_of_represented _ _ represented)]
    rfl
  · rw [flows]
    rfl

/-- A tree that ends at a fork, with three open paths. -/
def openTree : Step := (Step.ofType "start" "START_EVENT").followedBy openFork

/-- The net of the open tree. -/
def openTreeNet : Net :=
  { id := "p"
    elements := [
      { id := "start", kind := .startEvent },
      { id := "inner", kind := .inclusiveGateway, defaultFlow := some "inner_SequenceFlow_3" },
      { id := "task", kind := .userTask },
      endEvent]
    flows := [
      { source := "start", target := "inner" },
      { id := some "inner_SequenceFlow_1", source := "inner", target := "task" },
      { source := "task", target := "EndEvent" },
      { id := some "inner_SequenceFlow_2", source := "inner", target := "EndEvent" },
      { id := some "inner_SequenceFlow_3", source := "inner", target := "EndEvent",
        isDefault := true }] }

/-- A task and a copy task, for the end of another tree. -/
def lateTasks : Step :=
  (Step.ofType "late" "USER_TASK").followedBy (Step.ofType "copy" "COPY_TASK")

/-- The net of the open tree with the tasks behind it. All open paths lead to the first of them. -/
def extendedTreeNet : Net :=
  { id := "p"
    elements := [
      { id := "start", kind := .startEvent },
      { id := "inner", kind := .inclusiveGateway, defaultFlow := some "inner_SequenceFlow_3" },
      { id := "task", kind := .userTask },
      { id := "late", kind := .userTask },
      { id := "copy", kind := .serviceTask, implementation := some copyTaskExpression },
      endEvent]
    flows := [
      { source := "start", target := "inner" },
      { id := some "inner_SequenceFlow_1", source := "inner", target := "task" },
      { source := "task", target := "late" },
      { id := some "inner_SequenceFlow_2", source := "inner", target := "late" },
      { id := some "inner_SequenceFlow_3", source := "inner", target := "late", isDefault := true },
      { source := "late", target := "copy" },
      { source := "copy", target := "EndEvent" }] }

/-- The open tree is compiled to its net. -/
theorem compile_openTree : compile openTree "p" none = .ok openTreeNet := by
  have admitted : openTree.elements = .ok openTreeNet.elements.dropLast := by
    rw [elements_eq_examine openTree (by decide) (by decide)]
    rfl
  exact compile_of_elements openTree _ admitted "p" none

/-- The open tree with the tasks behind it is compiled to the net of both. -/
theorem compile_extendedTree :
    compile (openTree.extended lateTasks) "p" none = .ok extendedTreeNet := by
  have admitted : (openTree.extended lateTasks).elements =
      .ok extendedTreeNet.elements.dropLast := by
    rw [elements_eq_examine _ (by decide) (by decide)]
    rfl
  exact compile_of_elements _ _ admitted "p" none

/-- The open tree and the tasks meet the premises, with a fork at the end of the tree. -/
theorem compile_extended_openTree :
    openTree.OpenEnded ∧ lateTasks.presentId? ≠ none ∧
      compile openTree "p" none = .ok openTreeNet ∧
      compile (openTree.extended lateTasks) "p" none = .ok extendedTreeNet ∧
      ∃ front elements flows,
        openTreeNet.elements = front ++ [endEvent] ∧
        List.Forall₂ Represents lateTasks.reached elements ∧
        lateTasks.flows endEventId = .ok flows ∧
        extendedTreeNet = { openTreeNet with
          elements := front ++ elements ++ [endEvent]
          flows := openTreeNet.flows.map (Flow.redirected endEventId lateTasks.idText) ++ flows } := by
  have ended : openTree.OpenEnded :=
    Step.OpenEnded.link _ openFork (by decide) rfl (Step.OpenEnded.last _ (by decide) rfl)
  have present : lateTasks.presentId? ≠ none := by decide
  exact ⟨ended, present, compile_openTree, compile_extendedTree,
    compile_extended openTree lateTasks "p" none openTreeNet extendedTreeNet ended present
      compile_openTree compile_extendedTree⟩

end Workflow
