import Workflow.Proofs.Attributes
import Workflow.Proofs.Tree

/-!
# Which steps are admitted

`Offence` says why a step is refused behind the steps reached before it: its type is
no kind, it is a start event with steps before it, its identifier is reserved or
taken, it is a fork without branches, or a reserved attribute is not what it must be.
Each reason presupposes that those named before it do not apply, so a step has at most
one.

The elements pass works through a list of pending steps. `elements_eq_examine` says
that this amounts to admitting the reached steps in their order, so that the pass is
refused exactly for the first offence and otherwise gives one element for every
reached step.
-/

namespace Workflow

namespace Step

/-- The candidates of a task are refused for the code, or else for the parameter. -/
theorem candidateExtensions_error_iff (step : Step) (id : String) (defect : Defect) :
    step.candidateExtensions id = .error defect ↔
      (¬ StrategyValid (step.attributes.lookup strategyKey) ∧
          defect = .badAttribute id strategyKey .integer) ∨
        (StrategyValid (step.attributes.lookup strategyKey) ∧
          ¬ ParameterValid (step.attributes.lookup parameterKey) ∧
          defect = .badAttribute id parameterKey .scalar) := by
  have code := strategy_error_iff (step.attributes.lookup strategyKey)
  have text := parameter_error_iff (step.attributes.lookup parameterKey)
  cases readCode : strategy (step.attributes.lookup strategyKey) with
  | error rule =>
    obtain ⟨invalid, rfl⟩ := (code rule).mp readCode
    simp [candidateExtensions, readCode, underRule, bind, Except.bind, invalid, eq_comm]
  | ok value =>
    have valid : StrategyValid (step.attributes.lookup strategyKey) := by
      by_contra invalid
      rw [(code .integer).mpr ⟨invalid, rfl⟩] at readCode
      cases readCode
    cases readText : parameter (step.attributes.lookup parameterKey) with
    | error rule =>
      obtain ⟨invalid, rfl⟩ := (text rule).mp readText
      simp [candidateExtensions, readCode, readText, underRule, bind, Except.bind, valid, invalid,
        eq_comm]
    | ok value =>
      have allowed : ParameterValid (step.attributes.lookup parameterKey) := by
        by_contra invalid
        rw [(text .scalar).mpr ⟨invalid, rfl⟩] at readText
        cases readText
      simp [candidateExtensions, readCode, readText, underRule, bind, Except.bind, pure,
        Except.pure, valid, allowed]

/-- The permissions of a task are refused exactly for their fault. -/
theorem permissionExtensions_error_iff (step : Step) (id : String) (defect : Defect) :
    step.permissionExtensions id = .error defect ↔
      ∃ rule, PermissionsFault (step.attributes.lookup permissionsKey) rule ∧
        defect = .badAttribute id permissionsKey rule := by
  simp only [← permissions_error_iff]
  cases read : permissions (step.attributes.lookup permissionsKey) <;>
    simp [permissionExtensions, read, underRule, bind, Except.bind, pure, Except.pure, eq_comm]

end Step

/-- Only the attributes of tasks are reserved. -/
theorem isTask_of_attributeFault {step : Step} {kind : StepKind} {key : String}
    {rule : AttributeRule} (fault : AttributeFault step kind key rule) : kind.isTask := by
  cases fault with
  | strategy task => exact task
  | parameter task => exact task
  | permissions _ user => exact user ▸ rfl

/-- The faults of a copy task are those of its candidates. -/
theorem copyTask_fault_iff (step : Step) (id : String) (defect : Defect) :
    (∃ key rule, AttributeFault step .copyTask key rule ∧ defect = .badAttribute id key rule) ↔
      step.candidateExtensions id = .error defect := by
  rw [Step.candidateExtensions_error_iff]
  constructor
  · rintro ⟨key, rule, fault, rfl⟩
    cases fault with
    | strategy _ fault => exact Or.inl ⟨fault, rfl⟩
    | parameter _ code fault => exact Or.inr ⟨code, fault, rfl⟩
    | permissions _ user => cases user
  · rintro (⟨fault, rfl⟩ | ⟨code, fault, rfl⟩)
    · exact ⟨_, _, AttributeFault.strategy rfl fault, rfl⟩
    · exact ⟨_, _, AttributeFault.parameter rfl code fault, rfl⟩

/-- The faults of a user task are those of its candidates, and without one of these
those of its permissions. -/
theorem userTask_fault_iff (step : Step) (id : String) (defect : Defect) :
    (∃ key rule, AttributeFault step .userTask key rule ∧ defect = .badAttribute id key rule) ↔
      step.candidateExtensions id = .error defect ∨
        (∃ candidates, step.candidateExtensions id = .ok candidates) ∧
          step.permissionExtensions id = .error defect := by
  have passed : (∃ candidates, step.candidateExtensions id = .ok candidates) ↔
      StrategyValid (step.attributes.lookup strategyKey) ∧
        ParameterValid (step.attributes.lookup parameterKey) := by
    have refused := step.candidateExtensions_error_iff id
    constructor
    · rintro ⟨candidates, read⟩
      simp only [read, reduceCtorEq, false_iff, not_or] at refused
      have code : StrategyValid (step.attributes.lookup strategyKey) := by
        by_contra fault
        exact (refused _).1 ⟨fault, rfl⟩
      refine ⟨code, ?_⟩
      by_contra fault
      exact (refused _).2 ⟨code, fault, rfl⟩
    · rintro ⟨code, text⟩
      cases read : step.candidateExtensions id with
      | error found =>
        rcases (refused found).mp read with ⟨fault, _⟩ | ⟨_, fault, _⟩
        · exact False.elim (fault code)
        · exact False.elim (fault text)
      | ok candidates => exact ⟨candidates, rfl⟩
  rw [passed, Step.candidateExtensions_error_iff, Step.permissionExtensions_error_iff]
  constructor
  · rintro ⟨key, rule, fault, rfl⟩
    cases fault with
    | strategy _ fault => exact Or.inl (Or.inl ⟨fault, rfl⟩)
    | parameter _ code fault => exact Or.inl (Or.inr ⟨code, fault, rfl⟩)
    | permissions _ _ code text fault => exact Or.inr ⟨⟨code, text⟩, rule, fault, rfl⟩
  · rintro ((⟨fault, rfl⟩ | ⟨code, fault, rfl⟩) | ⟨⟨code, text⟩, rule, fault, rfl⟩)
    · exact ⟨_, _, AttributeFault.strategy rfl fault, rfl⟩
    · exact ⟨_, _, AttributeFault.parameter rfl code fault, rfl⟩
    · exact ⟨_, rule, AttributeFault.permissions rule rfl code text fault, rfl⟩

/-- The element of a step is refused for missing branches if the step is a fork, and for
its attributes if it is a task. -/
theorem ofStep_error_iff (step : Step) (id : String) (kind : StepKind) (defect : Defect) :
    Element.ofStep step id kind = .error defect ↔
      (kind.isFork ∧ step.branches = [] ∧ defect = .branchless id) ∨
        ∃ key rule, AttributeFault step kind key rule ∧ defect = .badAttribute id key rule := by
  have noFault (other : kind.isTask = false) :
      ¬ ∃ key rule, AttributeFault step kind key rule ∧ defect = .badAttribute id key rule := by
    rintro ⟨key, rule, fault, _⟩
    rw [isTask_of_attributeFault fault] at other
    cases other
  cases kind with
  | userTask =>
    rw [userTask_fault_iff]
    cases candidates : step.candidateExtensions id with
    | error found => simp [Element.ofStep, StepKind.isFork, candidates, bind, Except.bind]
    | ok extensions =>
      cases permissions : step.permissionExtensions id <;>
        simp [Element.ofStep, StepKind.isFork, candidates, permissions, bind, Except.bind, pure,
          Except.pure]
  | copyTask =>
    rw [copyTask_fault_iff]
    cases candidates : step.candidateExtensions id <;>
      simp [Element.ofStep, StepKind.isFork, candidates, bind, Except.bind, pure, Except.pure]
  | exclusiveGateway | inclusiveFork | parallelFork =>
    simp only [noFault rfl, or_false]
    cases bare : step.branches <;> simp [Element.ofStep, StepKind.isFork, bare, eq_comm]
  | startEvent | parallelJoin | inclusiveJoin =>
    simp only [noFault rfl, or_false]
    simp [Element.ofStep, StepKind.isFork]

/-- A step has a kind, is a start event only if no step is reached before it, and its
identifier is neither that of the end event nor taken by a step before it. -/
structure Placed (before : List Step) (step : Step) (kind : StepKind) : Prop where
  known : step.kind? = some kind
  first : kind = .startEvent → before = []
  free : ¬ (step.idText = endEventId ∨ step.idText ∈ before.map (·.idText))

/-- Why a step is refused behind the steps reached before it. -/
inductive Offence (before : List Step) (step : Step) : Defect → Prop
  | unsupportedType (unknown : step.kind? = none) :
      Offence before step (.unsupportedType step.idText step.typeName)
  | misplacedStart (start : step.kind? = some .startEvent) (below : before ≠ []) :
      Offence before step (.misplacedStart step.idText)
  | duplicateId (kind : StepKind) (known : step.kind? = some kind)
      (first : kind = .startEvent → before = [])
      (taken : step.idText = endEventId ∨ step.idText ∈ before.map (·.idText)) :
      Offence before step (.duplicateId step.idText)
  | branchless (kind : StepKind) (placed : Placed before step kind) (fork : kind.isFork)
      (bare : step.branches = []) : Offence before step (.branchless step.idText)
  | badAttribute (kind : StepKind) (key : String) (rule : AttributeRule)
      (placed : Placed before step kind) (fault : AttributeFault step kind key rule) :
      Offence before step (.badAttribute step.idText key rule)

/-- The element of a step that is reached behind other steps. -/
def Step.accept (before : List Step) (step : Step) : Except Defect Element :=
  match step.kind step.idText with
  | .error defect => .error defect
  | .ok kind =>
      if kind = .startEvent ∧ before ≠ [] then .error (.misplacedStart step.idText)
      else step.enter step.idText kind (before.map (·.idText))

/-- A step is refused exactly for its offence. -/
theorem accept_error_iff (before : List Step) (step : Step) (defect : Defect) :
    step.accept before = .error defect ↔ Offence before step defect := by
  constructor
  · intro refused
    unfold Step.accept at refused
    rw [Step.kind_eq] at refused
    cases resolved : step.kind? with
    | none =>
      simp only [resolved, Except.error.injEq] at refused
      exact refused ▸ Offence.unsupportedType resolved
    | some kind =>
      simp only [resolved] at refused
      split at refused
      · rename_i misplaced
        cases refused
        exact Offence.misplacedStart (misplaced.1 ▸ resolved) misplaced.2
      · rename_i allowed
        have first : kind = .startEvent → before = [] := by
          intro start
          by_contra below
          exact allowed ⟨start, below⟩
        unfold Step.enter at refused
        split at refused
        · rename_i taken
          cases refused
          exact Offence.duplicateId kind resolved first taken
        · rename_i free
          have placed : Placed before step kind := ⟨resolved, first, free⟩
          rcases (ofStep_error_iff _ _ _ _).mp refused with ⟨fork, bare, rfl⟩ | ⟨key, rule, fault, rfl⟩
          · exact Offence.branchless kind placed fork bare
          · exact Offence.badAttribute kind key rule placed fault
  · have admitted (kind : StepKind) (known : step.kind? = some kind)
        (first : kind = .startEvent → before = []) :
        step.accept before = step.enter step.idText kind (before.map (·.idText)) := by
      simp only [Step.accept, Step.kind_eq, known]
      exact if_neg fun misplaced => misplaced.2 (first misplaced.1)
    intro offence
    cases offence with
    | unsupportedType unknown => simp [Step.accept, Step.kind_eq, unknown]
    | misplacedStart start below => simp [Step.accept, Step.kind_eq, start, below]
    | duplicateId kind known first taken =>
      rw [admitted kind known first, Step.enter, if_pos taken]
    | branchless kind placed fork bare =>
      rw [admitted kind placed.known placed.first, Step.enter, if_neg placed.free, ofStep_error_iff]
      exact Or.inl ⟨fork, bare, rfl⟩
    | badAttribute kind key rule placed fault =>
      rw [admitted kind placed.known placed.first, Step.enter, if_neg placed.free, ofStep_error_iff]
      exact Or.inr ⟨key, rule, fault, rfl⟩

/-- The successors of a step of a known kind lead to the steps reached behind it. -/
theorem successors_reached (step : Step) (kind : StepKind) (known : step.kind? = some kind) :
    (step.successors kind).flatMap Step.reached =
      step.entered.flatMap (fun branch => slotReached branch.child) ++ slotReached step.child := by
  have slots (branches : List Branch) :
      (branches.filterMap (·.child)).flatMap Step.reached =
        branches.flatMap fun branch => slotReached branch.child := by
    induction branches with
    | nil => rfl
    | cons branch rest inductionHypothesis =>
      cases slot : branch.child <;>
        simp [slot, inductionHypothesis, slotReached]
  have behind : step.child.toList.flatMap Step.reached = slotReached step.child := by
    cases step.child <;> simp [slotReached]
  have fork : step.isFork = kind.isFork := by simp [Step.isFork, known]
  rw [Step.successors, List.flatMap_append, behind, Step.entered, fork]
  cases kind.isFork
  · rfl
  · simp only [if_true, slots]

/-- Examining what pending steps reach begins with the first pending step, and goes on
with what is reached behind it. -/
theorem examine_reached (before : List Step) (step : Step) (pending : List Step)
    (present : step.idText ≠ "") :
    InOrder.examine (fun later => Step.accept (before ++ later))
        ((step :: pending).flatMap Step.reached) =
      match step.accept before with
      | .error defect => .error defect
      | .ok element =>
          (InOrder.examine (fun later => Step.accept (before ++ [step] ++ later))
            (step.entered.flatMap (fun branch => slotReached branch.child) ++
              slotReached step.child ++ pending.flatMap Step.reached)).map (element :: ·) := by
  have reached : step.reached =
      step :: (step.entered.flatMap (fun branch => slotReached branch.child) ++
        slotReached step.child) := slotReached_occupied step present
  rw [List.flatMap_cons, reached, List.cons_append, InOrder.examine, List.append_nil]
  cases step.accept before with
  | error defect => rfl
  | ok element => simp only [List.append_assoc, List.cons_append, List.nil_append]

/-- Below the root, pending steps are worked through like the steps reached from them,
each admitted behind all steps before it. The stack only matters through the order in
which it gives these steps, and the identifiers in use only through their set.

Proof: induction along the pass. A step without an identifier reaches nothing. A step
that is admitted joins the steps before it, and its successors lead to what is reached
behind it. -/
theorem pendingElements_eq (pending : List Step) (seen : List String) (before : List Step)
    (begun : before ≠ []) (same : ∀ id, id ∈ seen ↔ id ∈ before.map (·.idText)) :
    pendingElements pending seen =
      InOrder.examine (fun later => Step.accept (before ++ later))
        (pending.flatMap Step.reached) := by
  have below {step : Step} {seen : List String} {before : List Step} (begun : before ≠ [])
      (same : ∀ id, id ∈ seen ↔ id ∈ before.map (·.idText)) :
      step.accept before =
        match step.kind step.idText with
        | .error defect => .error defect
        | .ok kind =>
            if kind = .startEvent then .error (.misplacedStart step.idText)
            else step.enter step.idText kind seen := by
    simp [Step.accept, Step.enter, begun, same]
  fun_induction pendingElements pending seen generalizing before with
  | case1 => rfl
  | case2 step pending seen absent inductionHypothesis =>
    have vacant : Vacant (some step) :=
      (vacant_some_iff step).mpr (step.presentId?_eq_none_iff.mp absent)
    have reached : step.reached = [] := slotReached_vacant (some step) vacant
    rw [inductionHypothesis before begun same, List.flatMap_cons, reached, List.nil_append]
  | case3 step pending seen id present defect unresolved =>
    obtain ⟨filled, rfl⟩ := (step.presentId?_eq_some_iff id).mp present
    rw [examine_reached before step pending filled, below begun same]
    simp only [unresolved]
  | case4 step pending seen id present start =>
    obtain ⟨filled, rfl⟩ := (step.presentId?_eq_some_iff id).mp present
    rw [examine_reached before step pending filled, below begun same]
    simp only [start, if_true]
  | case5 step pending seen id present kind resolved other defect refused =>
    obtain ⟨filled, rfl⟩ := (step.presentId?_eq_some_iff id).mp present
    rw [examine_reached before step pending filled, below begun same]
    simp only [resolved, if_neg other, refused]
  | case6 step pending seen id present kind resolved other element entered inductionHypothesis =>
    obtain ⟨filled, rfl⟩ := (step.presentId?_eq_some_iff id).mp present
    have known : step.kind? = some kind := (step.kind_eq_ok_iff _ kind).mp resolved
    have extended : ∀ id, id ∈ step.idText :: seen ↔ id ∈ (before ++ [step]).map (·.idText) := by
      intro id
      simp [same id, or_comm]
    rw [examine_reached before step pending filled, below begun same]
    simp only [resolved, if_neg other, entered]
    rw [inductionHypothesis (before ++ [step]) (by simp) extended, List.flatMap_append,
      successors_reached step kind known]

/-- From a start event the elements pass admits the reached steps in their order. -/
theorem elements_eq_examine (root : Step) (present : root.idText ≠ "")
    (start : root.kind? = some .startEvent) :
    root.elements = InOrder.examine Step.accept root.reached := by
  have id := root.presentId?_of_filled present
  have resolved : root.kind root.idText = .ok .startEvent :=
    (root.kind_eq_ok_iff _ _).mpr start
  have admitted : root.accept [] = root.enter root.idText .startEvent [] := by
    simp [Step.accept, resolved]
  have whole := examine_reached [] root [] present
  simp only [List.nil_append, List.flatMap_cons, List.flatMap_nil, List.append_nil] at whole
  simp only [Step.elements, id, resolved, if_true]
  rw [whole, admitted]
  cases root.enter root.idText .startEvent [] with
  | error defect => rfl
  | ok element =>
    have below := pendingElements_eq (root.successors .startEvent) [root.idText] [root] (by simp)
      (by simp)
    rw [successors_reached root .startEvent start] at below
    simp only [below]

end Workflow
