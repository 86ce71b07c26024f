import Workflow.Compile.Flows
import Mathlib.Data.List.Basic

/-!
# The steps a compilation reaches

A slot of a tree is vacant if it holds nothing or a step without an identifier;
whatever hangs below such a step is never looked at. From an occupied slot the
branches of a fork are entered in their order, then the slot behind the step. The
branches that a step of another kind lists are not entered.

`slotReached` lists the steps met in this way, each before the steps below it, and
`mem_reached_iff` says that these are the steps a chain of entered slots leads to.
`slotVisits` lists the same steps with the target that the open paths behind each of
them are closed into: a fork passes the place behind it to its branches. Statements
about trees are proved by `slot_induction`, which has one case for a vacant slot and
one for a step with all slots below it.
-/

namespace Workflow

namespace Step

/-- The text of a step's identifier, empty if there is none. -/
def idText (step : Step) : String := step.id.getD ""

/-- The kind that a step's type name stands for, if it stands for one. -/
def kind? (step : Step) : Option StepKind := StepKind.ofName? step.typeName

/-- True for a step of a known kind that owns branches. -/
def isFork (step : Step) : Bool := step.kind?.any StepKind.isFork

/-- True for a fork whose last branch is taken when no condition holds. -/
def hasDefault (step : Step) : Bool := step.kind?.any StepKind.hasDefault

/-- The branches that are entered from a step. -/
def entered (step : Step) : List Branch := if step.isFork then step.branches else []

/-- An identifier is present exactly if its text is not empty. -/
theorem presentId?_eq (step : Step) :
    step.presentId? = if step.idText = "" then none else some step.idText := by
  unfold presentId? idText
  cases step.id with
  | none => rfl
  | some id => simp [Option.filter]

/-- A present identifier is the step's identifier text, and it is not empty. -/
theorem presentId?_eq_some_iff (step : Step) (id : String) :
    step.presentId? = some id ↔ step.idText ≠ "" ∧ step.idText = id := by
  rw [presentId?_eq]
  by_cases empty : step.idText = "" <;> simp [empty]

/-- A step whose identifier text is not empty has that text as its identifier. -/
theorem presentId?_of_filled (step : Step) (filled : step.idText ≠ "") :
    step.presentId? = some step.idText := by
  rw [presentId?_eq, if_neg filled]

/-- An absent identifier is an empty identifier text. -/
theorem presentId?_eq_none_iff (step : Step) : step.presentId? = none ↔ step.idText = "" := by
  rw [presentId?_eq]
  by_cases empty : step.idText = "" <;> simp [empty]

/-- A present identifier has a text. -/
theorem filled_of_present (step : Step) (present : step.presentId? ≠ none) : step.idText ≠ "" := by
  intro empty
  exact present (step.presentId?_eq_none_iff.mpr empty)

/-- Resolving the kind of a step fails only for a type name of no kind. -/
theorem kind_eq (step : Step) (id : String) :
    step.kind id =
      match step.kind? with
      | some kind => .ok kind
      | none => .error (.unsupportedType id step.typeName) := rfl

/-- A kind is resolved exactly if the type name stands for it. -/
theorem kind_eq_ok_iff (step : Step) (id : String) (kind : StepKind) :
    step.kind id = .ok kind ↔ step.kind? = some kind := by
  rw [kind_eq]
  cases step.kind? <;> simp

/-- The entered branches are those that a fork lists. -/
theorem mem_entered_iff (step : Step) (branch : Branch) :
    branch ∈ step.entered ↔ step.isFork ∧ branch ∈ step.branches := by
  rw [entered]
  split <;> simp_all

/-- Entered branches are branches of the step. -/
theorem branch_of_entered (step : Step) (branch : Branch) (entered : branch ∈ step.entered) :
    branch ∈ step.branches := ((step.mem_entered_iff branch).mp entered).2

end Step

/-- A slot that stands for nothing: an empty one, or one whose step has no identifier. -/
def Vacant (slot : Option Step) : Prop := presentStep? slot = none

/-- A slot without a step is vacant. -/
theorem vacant_none : Vacant none := rfl

/-- A step's slot is vacant exactly if the step has no identifier. -/
theorem vacant_some_iff (step : Step) : Vacant (some step) ↔ step.idText = "" := by
  rw [← Step.presentId?_eq_none_iff]
  cases present : step.presentId? <;> simp [Vacant, presentStep?, present]

/-- The step of a vacant slot has no identifier. -/
theorem Step.presentId?_of_vacant (step : Step) (vacant : Vacant (some step)) :
    step.presentId? = none :=
  step.presentId?_eq_none_iff.mpr ((vacant_some_iff step).mp vacant)

/-- A vacant slot is entered at the target behind it. -/
theorem entryId_vacant (slot : Option Step) (target : String) (vacant : Vacant slot) :
    entryId slot target = target := by
  have absent : presentStep? slot = none := vacant
  simp [entryId, absent]

/-- An occupied slot is entered at its step, whatever the target. -/
theorem entryId_occupied (step : Step) (target : String) (present : step.idText ≠ "") :
    entryId (some step) target = step.idText := by
  simp [entryId, presentStep?, Option.filter_some, step.presentId?_of_filled present]

/-- Induction over all slots of a tree. A slot with a step may use the statement for the slot of
every branch of the step and for the slot behind it. -/
theorem tree_induction {motive : Option Step → Prop} (empty : motive none)
    (filled : ∀ step : Step, (∀ branch ∈ step.branches, motive branch.child) →
      motive step.child → motive (some step))
    (slot : Option Step) : motive slot := by
  cases slot with
  | none => exact empty
  | some step =>
    refine @Step.rec (fun step => motive (some step)) (fun branch => motive branch.child) motive
      (fun branches => ∀ branch ∈ branches, motive branch.child)
      ?step ?branch empty ?filled ?nil ?cons step
    case step =>
      intro _ _ _ _ child branches behind inBranches
      exact filled _ inBranches behind
    case branch =>
      intro _ _ _ _ begun
      exact begun
    case filled =>
      intro _ begun
      exact begun
    case nil => simp
    case cons =>
      intro _ _ first others
      exact List.forall_mem_cons.mpr ⟨first, others⟩

/-- Induction over the slots of a tree with all vacant slots in one case. An occupied slot may use
the statement for the slot of every branch of its step, entered or not, and for the slot behind
the step. -/
theorem slot_induction {motive : Option Step → Prop}
    (vacant : ∀ slot, Vacant slot → motive slot)
    (occupied : ∀ step : Step, step.idText ≠ "" → (∀ branch ∈ step.branches, motive branch.child) →
      motive step.child → motive (some step))
    (slot : Option Step) : motive slot := by
  induction slot using tree_induction with
  | empty => exact vacant none vacant_none
  | filled step branches child =>
    by_cases nameless : step.idText = ""
    · exact vacant _ ((vacant_some_iff step).mpr nameless)
    · exact occupied step nameless branches child

mutual

/-- The steps reached from a step in pre-order, the step itself among them. -/
def Step.reached : Step → List Step
  | ⟨id, typeName, name, attributes, child, branches⟩ =>
      let step : Step := ⟨id, typeName, name, attributes, child, branches⟩
      if step.idText = "" then []
      else step :: ((if step.isFork then branchesReached branches else []) ++ slotReached child)
termination_by structural step => step

/-- The steps reached from a slot. -/
def slotReached : Option Step → List Step
  | none => []
  | some step => step.reached
termination_by structural slot => slot

/-- The steps reached from branches, one branch after the other. -/
def branchesReached : List Branch → List Step
  | [] => []
  | ⟨_, _, _, child⟩ :: rest => slotReached child ++ branchesReached rest
termination_by structural branches => branches

end

/-- The steps reached from branches are those reached from their slots. -/
theorem branchesReached_eq (branches : List Branch) :
    branchesReached branches = branches.flatMap fun branch => slotReached branch.child := by
  induction branches with
  | nil => rfl
  | cons branch rest inductionHypothesis =>
    rw [List.flatMap_cons, ← inductionHypothesis]
    cases branch; rfl

/-- Nothing is reached from a vacant slot. -/
theorem slotReached_vacant (slot : Option Step) (vacant : Vacant slot) : slotReached slot = [] := by
  cases slot with
  | none => rfl
  | some step =>
    have empty : step.idText = "" := (vacant_some_iff step).mp vacant
    cases step
    rw [slotReached, Step.reached, if_pos empty]

/-- From an occupied slot its step is reached, then the entered branches, then the slot
behind the step. -/
theorem slotReached_occupied (step : Step) (present : step.idText ≠ "") :
    slotReached (some step) =
      step :: (step.entered.flatMap (fun branch => slotReached branch.child) ++
        slotReached step.child) := by
  have branches : (if step.isFork then branchesReached step.branches else []) =
      step.entered.flatMap fun branch => slotReached branch.child := by
    unfold Step.entered
    split
    · exact branchesReached_eq step.branches
    · rfl
  rw [← branches]
  cases step
  rw [slotReached, Step.reached, if_neg present]

/-- The identifiers of the steps reached from a slot. -/
def slotIds (slot : Option Step) : List String := (slotReached slot).map (·.idText)

/-- A vacant slot reaches no identifier. -/
theorem slotIds_vacant (slot : Option Step) (vacant : Vacant slot) : slotIds slot = [] := by
  rw [slotIds, slotReached_vacant slot vacant, List.map_nil]

/-- The identifiers of an occupied slot, in the order in which its steps are reached. -/
theorem slotIds_occupied (step : Step) (present : step.idText ≠ "") :
    slotIds (some step) =
      step.idText :: (step.entered.flatMap (fun branch => slotIds branch.child) ++
        slotIds step.child) := by
  simp only [slotIds, slotReached_occupied step present, List.map_cons, List.map_append,
    List.map_flatMap]

/-- An identifier is not reached from an occupied slot if it is neither that of the step nor reached
in what is entered from there. -/
theorem notMem_slotIds_iff (step : Step) (present : step.idText ≠ "") (id : String) :
    id ∉ slotIds (some step) ↔
      id ≠ step.idText ∧ (∀ branch ∈ step.entered, id ∉ slotIds branch.child) ∧
        id ∉ slotIds step.child := by
  rw [slotIds_occupied step present, List.mem_cons, List.mem_append, not_or, not_or,
    List.mem_flatMap, not_exists]
  simp only [not_and]

/-- The place an occupied slot is entered at is the first identifier it reaches. -/
theorem slotIds_append_target (slot : Option Step) (target : String) :
    ∃ rest, slotIds slot ++ [target] = entryId slot target :: rest := by
  induction slot using slot_induction with
  | vacant slot vacant =>
    exact ⟨[], by simp [slotIds_vacant slot vacant, entryId_vacant slot target vacant]⟩
  | occupied step present branches child =>
    rw [slotIds_occupied step present, entryId_occupied step target present]
    exact ⟨_, rfl⟩

/-- An occupied slot is entered at an identifier that it reaches. -/
theorem entryId_mem_of_occupied (slot : Option Step) (target : String) (occupied : ¬ Vacant slot) :
    entryId slot target ∈ slotIds slot := by
  induction slot using slot_induction with
  | vacant slot vacant => exact absurd vacant occupied
  | occupied step present branches child =>
    rw [entryId_occupied step target present, slotIds_occupied step present]
    exact List.mem_cons_self

/-- A step is reached from another one along a chain of steps with identifiers, each
owning the next one as what follows it or, if it is a fork, as the start of a branch. -/
inductive Step.Reaches : Step → Step → Prop
  | self (step : Step) (present : step.presentId? ≠ none) : Reaches step step
  | branch (root first step : Step) (branch : Branch) (present : root.presentId? ≠ none)
      (fork : root.isFork) (member : branch ∈ root.branches) (begins : branch.child = some first)
      (below : Reaches first step) : Reaches root step
  | behind (root next step : Step) (present : root.presentId? ≠ none)
      (follows : root.child = some next) (below : Reaches next step) : Reaches root step

/-- The list of reached steps holds exactly the steps that a chain leads to. -/
theorem mem_reached_iff (root step : Step) : step ∈ root.reached ↔ root.Reaches step := by
  have ofSlot (slot : Option Step) :
      ∀ root, slot = some root → (step ∈ slotReached slot ↔ root.Reaches step) := by
    induction slot using slot_induction with
    | vacant slot vacant =>
      rintro root rfl
      have absent := root.presentId?_of_vacant vacant
      rw [slotReached_vacant _ vacant]
      constructor
      · intro member
        exact False.elim (List.not_mem_nil member)
      · intro chain
        cases chain with
        | self _ present => exact False.elim (present absent)
        | branch _ _ _ _ present => exact False.elim (present absent)
        | behind _ _ _ present => exact False.elim (present absent)
    | occupied root filled branches child =>
      rintro _ ⟨⟩
      have present : root.presentId? ≠ none := by
        intro absent
        exact filled (root.presentId?_eq_none_iff.mp absent)
      rw [slotReached_occupied root filled, List.mem_cons, List.mem_append, List.mem_flatMap]
      constructor
      · rintro (rfl | ⟨branch, entered, reached⟩ | reached)
        · exact Step.Reaches.self _ present
        · obtain ⟨fork, member⟩ := (root.mem_entered_iff branch).mp entered
          cases begins : branch.child with
          | none => simp [begins, slotReached] at reached
          | some first =>
            have below := (branches branch member first begins).mp reached
            exact Step.Reaches.branch root first step branch present fork member begins below
        · cases follows : root.child with
          | none => simp [follows, slotReached] at reached
          | some next =>
            exact Step.Reaches.behind root next step present follows ((child next follows).mp reached)
      · intro chain
        cases chain with
        | self => exact Or.inl rfl
        | branch _ first _ branch _ fork member begins below =>
          have entered := (root.mem_entered_iff branch).mpr ⟨fork, member⟩
          exact Or.inr (Or.inl ⟨branch, entered, (branches branch member first begins).mpr below⟩)
        | behind _ next _ _ follows below =>
          exact Or.inr (Or.inr ((child next follows).mpr below))
  exact ofSlot (some root) root rfl

/-- A step with the place that open paths behind it are closed into. -/
structure Visit where
  step : Step
  target : String

mutual

/-- The visits of a tree whose open paths are closed into a target. -/
def Step.visits : Step → String → List Visit
  | ⟨id, typeName, name, attributes, child, branches⟩, target =>
      let step : Step := ⟨id, typeName, name, attributes, child, branches⟩
      if step.idText = "" then []
      else ⟨step, target⟩ ::
        ((if step.isFork then branchesVisits branches (entryId child target) else []) ++
          slotVisits child target)
termination_by structural step => step

/-- The visits of a slot. -/
def slotVisits : Option Step → String → List Visit
  | none, _ => []
  | some step, target => step.visits target
termination_by structural slot => slot

/-- The visits of branches, all of them closed into one target. -/
def branchesVisits : List Branch → String → List Visit
  | [], _ => []
  | ⟨_, _, _, child⟩ :: rest, target => slotVisits child target ++ branchesVisits rest target
termination_by structural branches => branches

end

/-- The visits of branches are those of their slots. -/
theorem branchesVisits_eq (branches : List Branch) (target : String) :
    branchesVisits branches target =
      branches.flatMap fun branch => slotVisits branch.child target := by
  induction branches with
  | nil => rfl
  | cons branch rest inductionHypothesis =>
    rw [List.flatMap_cons, ← inductionHypothesis]
    cases branch; rfl

/-- A vacant slot is not visited. -/
theorem slotVisits_vacant (slot : Option Step) (target : String) (vacant : Vacant slot) :
    slotVisits slot target = [] := by
  cases slot with
  | none => rfl
  | some step =>
    have empty : step.idText = "" := (vacant_some_iff step).mp vacant
    cases step
    rw [slotVisits, Step.visits, if_pos empty]

/-- The branches of a step are visited with the place behind the step as their target,
the slot behind the step with the step's own target. -/
theorem slotVisits_occupied (step : Step) (target : String) (present : step.idText ≠ "") :
    slotVisits (some step) target =
      ⟨step, target⟩ ::
        (step.entered.flatMap (fun branch =>
            slotVisits branch.child (entryId step.child target)) ++
          slotVisits step.child target) := by
  have branches : (if step.isFork then
        branchesVisits step.branches (entryId step.child target) else []) =
      step.entered.flatMap fun branch =>
        slotVisits branch.child (entryId step.child target) := by
    unfold Step.entered
    split
    · exact branchesVisits_eq step.branches _
    · rfl
  rw [← branches]
  cases step
  rw [slotVisits, Step.visits, if_neg present]

/-- The visited steps are the reached ones, in the same order. -/
theorem slotVisits_map_step (slot : Option Step) (target : String) :
    (slotVisits slot target).map (·.step) = slotReached slot := by
  induction slot using slot_induction generalizing target with
  | vacant slot vacant =>
    rw [slotVisits_vacant slot target vacant, slotReached_vacant slot vacant, List.map_nil]
  | occupied step present branches child =>
    have inBranches : step.entered.flatMap (fun branch =>
          (slotVisits branch.child (entryId step.child target)).map (·.step)) =
        step.entered.flatMap fun branch => slotReached branch.child :=
      List.flatMap_congr fun branch entered =>
        branches branch (step.branch_of_entered branch entered) _
    simp only [slotVisits_occupied step target present, slotReached_occupied step present,
      List.map_cons, List.map_append, List.map_flatMap, inBranches, child]

/-- Every reached step is visited. -/
theorem visit_of_reached (slot : Option Step) (target : String) (step : Step)
    (reached : step ∈ slotReached slot) : ∃ visit ∈ slotVisits slot target, visit.step = step := by
  rw [← slotVisits_map_step slot target] at reached
  exact List.mem_map.mp reached

end Workflow
