import Workflow.Compile
import Workflow.Proofs.Admission
import Workflow.Proofs.Routing
import Mathlib.Data.List.Induction

/-!
# Which trees are compiled

A tree is valid if its root is a start event with an identifier and every reached step
meets the conditions of `Step.Valid`. What is not reached is not looked at: the steps
below one without an identifier, and the branches that a step of another kind than a
fork lists. `Step.FirstDefect` names the defect of any other tree: a root that is
missing or no start event comes first, and otherwise the first offence of the reached
steps in their order decides.

The elements pass finds every defect. Once it succeeds the flows pass cannot fail, and
`compile_eq_ok` tells all parts of the net that comes out.
-/

namespace Workflow

/-- The conditions on a tree. They concern the reached steps only: each has a known kind,
none but the root is a start event, no two share an identifier and none has that of the
end event, forks have branches, and the reserved attributes of tasks are in order. -/
structure Step.Valid (root : Step) : Prop where
  present : root.presentId? ≠ none
  start : root.kind? = some .startEvent
  known : ∀ step, root.Reaches step → step.kind? ≠ none
  onlyStart : ∀ step ∈ root.reached.tail, step.kind? ≠ some .startEvent
  distinct : (root.reached.map (·.idText)).Nodup
  unreserved : ∀ step, root.Reaches step → step.idText ≠ endEventId
  branched : ∀ step, root.Reaches step → step.isFork → step.branches ≠ []
  attributes : ∀ step kind, root.Reaches step → step.kind? = some kind → AttributesValid step kind

/-- The root of a valid tree has an identifier text. -/
theorem Step.Valid.filled {root : Step} (valid : root.Valid) : root.idText ≠ "" :=
  root.filled_of_present valid.present

/-- The defect that a tree is refused for. -/
inductive Step.FirstDefect (root : Step) : Defect → Prop
  | empty (absent : root.presentId? = none) : FirstDefect root .empty
  | unsupportedRoot (id : String) (present : root.presentId? = some id)
      (unknown : root.kind? = none) : FirstDefect root (.unsupportedType id root.typeName)
  | missingStart (id : String) (kind : StepKind) (present : root.presentId? = some id)
      (known : root.kind? = some kind) (other : kind ≠ .startEvent) :
      FirstDefect root (.missingStart id root.typeName)
  | offence (defect : Defect) (present : root.presentId? ≠ none)
      (start : root.kind? = some .startEvent)
      (first : InOrder.FirstFault Offence root.reached defect) : FirstDefect root defect

/-- A step stands behind the first one exactly if some step stands before it. -/
theorem mem_tail_iff {α : Type} (items : List α) (item : α) :
    item ∈ items.tail ↔ ∃ before after, items = before ++ item :: after ∧ before ≠ [] := by
  cases items with
  | nil => simp
  | cons first rest =>
    rw [List.tail_cons]
    constructor
    · intro member
      obtain ⟨before, after, rfl⟩ := List.append_of_mem member
      exact ⟨first :: before, after, rfl, by simp⟩
    · rintro ⟨before, after, split, filled⟩
      cases before with
      | nil => exact False.elim (filled rfl)
      | cons other before =>
        obtain ⟨_, rfl⟩ := List.cons.inj split
        simp

/-- Values are distinct if none stands among those before it. -/
theorem nodup_map_iff {α β : Type} (f : α → β) (items : List α) :
    (items.map f).Nodup ↔
      ∀ before item after, items = before ++ item :: after → f item ∉ before.map f := by
  constructor
  · rintro distinct before item after rfl member
    rw [List.map_append, List.map_cons, List.nodup_append] at distinct
    exact distinct.2.2 _ member _ List.mem_cons_self rfl
  · intro apart
    induction items using List.reverseRecOn with
    | nil => exact List.nodup_nil
    | append_singleton front item inductionHypothesis =>
      have frontDistinct : (front.map f).Nodup :=
        inductionHypothesis fun before other after split =>
          apart before other (after ++ [item]) (by simp [split])
      have fresh : f item ∉ front.map f := apart front item [] rfl
      rw [List.map_append, List.nodup_append]
      refine ⟨frontDistinct, by simp, ?_⟩
      intro value member other single same
      rw [List.map_singleton, List.mem_singleton] at single
      exact fresh (single ▸ same ▸ member)

/-- A reached step stands somewhere in the list of reached steps. -/
theorem stands_of_reaches (root step : Step) (chain : root.Reaches step) :
    ∃ before after, root.reached = before ++ step :: after :=
  List.append_of_mem ((mem_reached_iff root step).mpr chain)

/-- A reached step that gives no offence is placed: its kind is known, it is a start event
only in front of all others, and its identifier is free. -/
theorem placed_of_faultless (root : Step) (faultless : InOrder.Faultless Offence root.reached)
    (before : List Step) (step : Step) (after : List Step)
    (split : root.reached = before ++ step :: after) : ∃ kind, Placed before step kind := by
  cases resolved : step.kind? with
  | none => exact False.elim (faultless before step after _ split (Offence.unsupportedType resolved))
  | some kind =>
    have first : kind = .startEvent → before = [] := by
      rintro rfl
      by_contra below
      exact faultless before step after _ split (Offence.misplacedStart resolved below)
    refine ⟨kind, resolved, first, ?_⟩
    intro taken
    exact faultless before step after _ split (Offence.duplicateId kind resolved first taken)

/-- A tree whose root is a start event is valid if its reached steps give no offence. -/
theorem valid_of_faultless (root : Step) (present : root.presentId? ≠ none)
    (start : root.kind? = some .startEvent)
    (faultless : InOrder.Faultless Offence root.reached) : root.Valid := by
  refine ⟨present, start, ?known, ?onlyStart, ?distinct, ?unreserved, ?branched, ?attributes⟩
  case known =>
    intro step chain unknown
    obtain ⟨before, after, split⟩ := stands_of_reaches root step chain
    exact faultless before step after _ split (Offence.unsupportedType unknown)
  case onlyStart =>
    intro step behind start
    obtain ⟨before, after, split, below⟩ := (mem_tail_iff _ _).mp behind
    exact faultless before step after _ split (Offence.misplacedStart start below)
  case distinct =>
    rw [nodup_map_iff]
    intro before step after split taken
    obtain ⟨kind, placed⟩ := placed_of_faultless root faultless before step after split
    exact placed.free (Or.inr taken)
  case unreserved =>
    intro step chain reserved
    obtain ⟨before, after, split⟩ := stands_of_reaches root step chain
    obtain ⟨kind, placed⟩ := placed_of_faultless root faultless before step after split
    exact placed.free (Or.inl reserved)
  case branched =>
    intro step chain fork bare
    obtain ⟨before, after, split⟩ := stands_of_reaches root step chain
    obtain ⟨kind, placed⟩ := placed_of_faultless root faultless before step after split
    have isFork : kind.isFork = true := by simpa [Step.isFork, placed.known] using fork
    exact faultless before step after _ split (Offence.branchless kind placed isFork bare)
  case attributes =>
    intro step kind chain resolved
    obtain ⟨before, after, split⟩ := stands_of_reaches root step chain
    obtain ⟨other, placed⟩ := placed_of_faultless root faultless before step after split
    obtain rfl : other = kind := Option.some.inj (placed.known.symm.trans resolved)
    rw [attributesValid_iff]
    intro key rule fault
    exact faultless before step after _ split (Offence.badAttribute other key rule placed fault)

/-- No reached step of a valid tree gives an offence. -/
theorem faultless_of_valid (root : Step) (valid : root.Valid) :
    InOrder.Faultless Offence root.reached := by
  intro before step after defect split offence
  have chain : root.Reaches step := (mem_reached_iff root step).mp (by simp [split])
  cases offence with
  | unsupportedType unknown => exact valid.known step chain unknown
  | misplacedStart start below =>
    have behind : step ∈ root.reached.tail := (mem_tail_iff _ _).mpr ⟨before, after, split, below⟩
    exact valid.onlyStart step behind start
  | duplicateId kind known first taken =>
    rcases taken with reserved | taken
    · exact valid.unreserved step chain reserved
    · exact (nodup_map_iff _ _).mp valid.distinct before step after split taken
  | branchless kind placed fork bare =>
    have isFork : step.isFork = true := by simpa [Step.isFork, placed.known] using fork
    exact valid.branched step chain isFork bare
  | badAttribute kind key rule placed fault =>
    have valid := valid.attributes step kind chain placed.known
    exact (attributesValid_iff step kind).mp valid key rule fault

section

variable (root : Step) (defect : Defect)

/-- A root without an identifier is the only defect of its tree. -/
theorem firstDefect_iff_of_absent (absent : root.presentId? = none) :
    root.FirstDefect defect ↔ defect = .empty := by
  constructor
  · intro first
    cases first with
    | empty => rfl
    | unsupportedRoot id present => simp [absent] at present
    | missingStart id kind present => simp [absent] at present
    | offence _ present => exact False.elim (present absent)
  · rintro rfl
    exact Step.FirstDefect.empty absent

/-- A root of no kind is the only defect of its tree. -/
theorem firstDefect_iff_of_unknown (id : String) (present : root.presentId? = some id)
    (unknown : root.kind? = none) :
    root.FirstDefect defect ↔ defect = .unsupportedType id root.typeName := by
  constructor
  · intro first
    cases first with
    | empty absent => simp [present] at absent
    | unsupportedRoot other same => rw [Option.some.inj (present.symm.trans same)]
    | missingStart _ _ _ known => simp [unknown] at known
    | offence _ _ start => simp [unknown] at start
  · rintro rfl
    exact Step.FirstDefect.unsupportedRoot id present unknown

/-- A root of another kind than start events is the only defect of its tree. -/
theorem firstDefect_iff_of_other (id : String) (present : root.presentId? = some id)
    (kind : StepKind) (known : root.kind? = some kind) (other : kind ≠ .startEvent) :
    root.FirstDefect defect ↔ defect = .missingStart id root.typeName := by
  constructor
  · intro first
    cases first with
    | empty absent => simp [present] at absent
    | unsupportedRoot _ _ unknown => simp [known] at unknown
    | missingStart _ _ same => rw [Option.some.inj (present.symm.trans same)]
    | offence _ _ start => exact False.elim (other (Option.some.inj (known.symm.trans start)))
  · rintro rfl
    exact Step.FirstDefect.missingStart id kind present known other

/-- Below a start event the first offence of the reached steps is the first defect. -/
theorem firstDefect_iff_of_start (present : root.presentId? ≠ none)
    (start : root.kind? = some .startEvent) :
    root.FirstDefect defect ↔ InOrder.FirstFault Offence root.reached defect := by
  constructor
  · intro first
    cases first with
    | empty absent => exact False.elim (present absent)
    | unsupportedRoot _ _ unknown => simp [start] at unknown
    | missingStart _ kind _ known other =>
      exact False.elim (other (Option.some.inj (known.symm.trans start)))
    | offence _ _ _ first => exact first
  · exact Step.FirstDefect.offence defect present start

/-- The elements pass is refused exactly for the first defect of the tree. -/
theorem elements_error_iff : root.elements = .error defect ↔ root.FirstDefect defect := by
  cases present : root.presentId? with
  | none =>
    rw [firstDefect_iff_of_absent root defect present]
    simp [Step.elements, present, eq_comm]
  | some id =>
    cases known : root.kind? with
    | none =>
      rw [firstDefect_iff_of_unknown root defect id present known]
      simp [Step.elements, present, Step.kind_eq, known, eq_comm]
    | some kind =>
      by_cases start : kind = .startEvent
      · subst start
        obtain ⟨filled, rfl⟩ := (root.presentId?_eq_some_iff id).mp present
        rw [firstDefect_iff_of_start root defect (by simp [present]) known,
          elements_eq_examine root filled known, InOrder.examine_error_iff _ _ accept_error_iff]
      · rw [firstDefect_iff_of_other root defect id present kind known start]
        simp [Step.elements, present, Step.kind_eq, known, start, eq_comm]

end

/-- A tree is valid exactly if it has no first defect. -/
theorem valid_iff_no_firstDefect (root : Step) :
    root.Valid ↔ ∀ defect, ¬ root.FirstDefect defect := by
  constructor
  · intro valid defect first
    rw [firstDefect_iff_of_start root defect valid.present valid.start] at first
    have faultless := faultless_of_valid root valid
    exact (InOrder.faultless_iff _ _).mp faultless defect first
  · intro clean
    have present : root.presentId? ≠ none := by
      intro absent
      exact clean _ (Step.FirstDefect.empty absent)
    obtain ⟨id, filled⟩ := Option.ne_none_iff_exists'.mp present
    have start : root.kind? = some .startEvent := by
      cases resolved : root.kind? with
      | none => exact False.elim (clean _ (Step.FirstDefect.unsupportedRoot id filled resolved))
      | some kind =>
        by_contra other
        apply clean _ (Step.FirstDefect.missingStart id kind filled resolved ?_)
        intro same
        exact other (congrArg some same)
    apply valid_of_faultless root present start
    rw [InOrder.faultless_iff]
    intro defect first
    exact clean defect (Step.FirstDefect.offence defect present start first)

/-- A tree whose elements pass succeeds is valid. -/
theorem valid_of_elements (root : Step) (elements : List Element)
    (admitted : root.elements = .ok elements) : root.Valid := by
  rw [valid_iff_no_firstDefect]
  intro defect first
  rw [(elements_error_iff root defect).mpr first] at admitted
  cases admitted

/-- The flows pass cannot fail on a valid tree. -/
theorem flows_of_valid (root : Step) (valid : root.Valid) (target : String) :
    root.flows target = .ok (root.flowList target) := by
  have known : ∀ step ∈ root.reached, step.kind? ≠ none :=
    fun step reached => valid.known step ((mem_reached_iff root step).mp reached)
  rw [flows_eq, resolveAll_known root.reached known]
  rfl

/-- What stands for a reached step in a compiled net. -/
def Represents (step : Step) (element : Element) : Prop :=
  ∃ kind, step.kind? = some kind ∧ Element.ofStep step step.idText kind = .ok element

/-- An admitted step is represented by its element. -/
theorem represents_of_accept (before : List Step) (step : Step) (element : Element)
    (admitted : step.accept before = .ok element) : Represents step element := by
  unfold Step.accept at admitted
  split at admitted
  · cases admitted
  · rename_i kind resolved
    split at admitted
    · cases admitted
    · unfold Step.enter at admitted
      split at admitted
      · cases admitted
      · exact ⟨kind, (step.kind_eq_ok_iff _ kind).mp resolved, admitted⟩

/-- A compiled tree is valid, and the net has one element for every reached step, the
end event behind them, and the flows of the tree. -/
theorem compile_eq_ok (root : Step) (processId : String) (processName : Option String) (net : Net)
    (accepted : compile root processId processName = .ok net) :
    root.Valid ∧ ∃ elements, List.Forall₂ Represents root.reached elements ∧
      net = { id := processId, name := processName, executable := true,
              elements := elements ++ [endEvent], flows := root.flowList endEventId } := by
  cases admitted : root.elements with
  | error defect => simp [compile, admitted, bind, Except.bind] at accepted
  | ok elements =>
    have valid := valid_of_elements root elements admitted
    have represented : List.Forall₂ Represents root.reached elements := by
      rw [elements_eq_examine root valid.filled valid.start] at admitted
      refine (InOrder.examine_forall₂ _ _ _ admitted).imp ?_
      rintro step element ⟨before, passed⟩
      exact represents_of_accept before step element passed
    have routed := flows_of_valid root valid endEventId
    refine ⟨valid, elements, represented, ?_⟩
    simp only [compile, admitted, routed, bind, Except.bind, pure, Except.pure, Except.ok.injEq]
      at accepted
    exact accepted.symm

/-- A compilation is refused exactly for the first defect of the tree. -/
theorem compile_error_iff (root : Step) (processId : String) (processName : Option String)
    (defect : Defect) :
    compile root processId processName = .error defect ↔ root.FirstDefect defect := by
  rw [← elements_error_iff]
  cases admitted : root.elements with
  | error found => simp [compile, admitted, bind, Except.bind]
  | ok elements =>
    have routed := flows_of_valid root (valid_of_elements root elements admitted) endEventId
    simp [compile, admitted, routed, bind, Except.bind, pure, Except.pure]

/-- The kind of the elements that stand for steps of a kind. -/
def StepKind.elementKind : StepKind → ElementKind
  | startEvent => .startEvent
  | userTask => .userTask
  | copyTask => .serviceTask
  | exclusiveGateway => .exclusiveGateway
  | parallelFork | parallelJoin => .parallelGateway
  | inclusiveFork | inclusiveJoin => .inclusiveGateway

/-- An element has the identifier of its step, and the kind of its step decides its own
and whether the flow into the last branch is its default. -/
theorem ofStep_ok (step : Step) (id : String) (kind : StepKind) (element : Element)
    (made : Element.ofStep step id kind = .ok element) :
    element.id = id ∧ element.kind = kind.elementKind ∧
      element.defaultFlow =
        if kind.hasDefault then some (branchFlowId id step.branches.length) else none := by
  cases kind with
  | userTask =>
    cases candidates : step.candidateExtensions id with
    | error found => simp [Element.ofStep, candidates, bind, Except.bind] at made
    | ok extensions =>
      cases permissions : step.permissionExtensions id with
      | error found => simp [Element.ofStep, candidates, permissions, bind, Except.bind] at made
      | ok entries =>
        simp only [Element.ofStep, candidates, permissions, bind, Except.bind, pure, Except.pure,
          Except.ok.injEq] at made
        exact made ▸ ⟨rfl, rfl, rfl⟩
  | copyTask =>
    cases candidates : step.candidateExtensions id with
    | error found => simp [Element.ofStep, candidates, bind, Except.bind] at made
    | ok extensions =>
      simp only [Element.ofStep, candidates, bind, Except.bind, pure, Except.pure,
        Except.ok.injEq] at made
      exact made ▸ ⟨rfl, rfl, rfl⟩
  | exclusiveGateway | inclusiveFork | parallelFork =>
    simp only [Element.ofStep] at made
    split at made
    · cases made
    · cases made
      exact ⟨rfl, rfl, rfl⟩
  | startEvent | parallelJoin | inclusiveJoin =>
    cases made
    exact ⟨rfl, rfl, rfl⟩

/-- Every item of a list is related to an item of a list that is related item by item. -/
theorem exists_of_forall₂ {α β : Type} {related : α → β → Prop} {items : List α} {images : List β}
    (all : List.Forall₂ related items images) (item : α) (member : item ∈ items) :
    ∃ image ∈ images, related item image := by
  induction all with
  | nil => exact False.elim (List.not_mem_nil member)
  | cons first _ inductionHypothesis =>
    rcases List.mem_cons.mp member with rfl | later
    · exact ⟨_, List.mem_cons_self, first⟩
    · obtain ⟨image, listed, same⟩ := inductionHypothesis later
      exact ⟨image, List.mem_cons_of_mem _ listed, same⟩

/-- Elements carry the identifiers of the steps they stand for. -/
theorem ids_of_represented (steps : List Step) (elements : List Element)
    (represented : List.Forall₂ Represents steps elements) :
    elements.map (·.id) = steps.map (·.idText) := by
  induction represented with
  | nil => rfl
  | cons represents _ inductionHypothesis =>
    obtain ⟨kind, _, made⟩ := represents
    rw [List.map_cons, List.map_cons, inductionHypothesis, (ofStep_ok _ _ _ _ made).1]

/-- The elements of a compiled net have the identifiers of the reached steps, and behind
these that of the end event. -/
theorem compile_ids (root : Step) (processId : String) (processName : Option String) (net : Net)
    (accepted : compile root processId processName = .ok net) :
    net.elements.map (·.id) = slotIds (some root) ++ [endEventId] := by
  obtain ⟨_, elements, represented, rfl⟩ := compile_eq_ok root processId processName net accepted
  rw [List.map_append, ids_of_represented root.reached elements represented]
  rfl

/-- No reached step of a compiled tree shares its identifier with another one or with the end
event. -/
theorem compile_ids_nodup (root : Step) (processId : String) (processName : Option String)
    (net : Net) (accepted : compile root processId processName = .ok net) :
    (slotIds (some root) ++ [endEventId]).Nodup := by
  obtain ⟨valid, _⟩ := compile_eq_ok root processId processName net accepted
  rw [List.nodup_append]
  refine ⟨valid.distinct, by simp, ?_⟩
  rintro id reached _ final rfl
  obtain ⟨step, member, rfl⟩ := List.mem_map.mp reached
  exact valid.unreserved step ((mem_reached_iff root step).mp member) (List.mem_singleton.mp final)

/-- The elements of a compiled net have different identifiers. -/
theorem compile_elements_nodup (root : Step) (processId : String) (processName : Option String)
    (net : Net) (accepted : compile root processId processName = .ok net) :
    (net.elements.map (·.id)).Nodup := by
  rw [compile_ids root processId processName net accepted]
  exact compile_ids_nodup root processId processName net accepted

/-- No step of a compiled tree has the identifier of the end event. -/
theorem endEventId_notMem (root : Step) (processId : String) (processName : Option String)
    (net : Net) (accepted : compile root processId processName = .ok net) :
    endEventId ∉ slotIds (some root) := by
  have distinct := compile_ids_nodup root processId processName net accepted
  intro reached
  exact (List.nodup_append.mp distinct).2.2 _ reached _ (List.mem_singleton_self _) rfl

/-- The compiler accepts exactly the valid trees, and it refuses every other tree for its
first defect, whatever process the tree is compiled for. -/
theorem compile_decides_validity (root : Step) (processId : String) (processName : Option String) :
    ((∃ net, compile root processId processName = .ok net) ↔ root.Valid) ∧
      ∀ defect, compile root processId processName = .error defect ↔ root.FirstDefect defect := by
  refine ⟨?_, compile_error_iff root processId processName⟩
  rw [valid_iff_no_firstDefect]
  simp only [← compile_error_iff root processId processName]
  cases compile root processId processName <;> simp

/-- A fork without a step behind it, with a task, an empty branch and a branch whose step
has no identifier and a type of no kind. -/
def openFork : Step :=
  (Step.ofType "inner" "INCLUSIVE_GATEWAY_FORK")
    |>.withBranch { child := some (Step.ofType "task" "USER_TASK") }
    |>.withBranch {}
    |>.withBranch { child := some (Step.ofType "" "TIMER") }

/-- The open fork on a branch of another fork, which has an empty branch besides and a
join, a copy task and a step without identifier behind it. -/
def nestedForks : Step :=
  (Step.ofType "start" "START_EVENT").followedBy <|
    (((Step.ofType "outer" "EXCLUSIVE_GATEWAY").withBranch { child := some openFork }).withBranch
      {}).followedBy <|
    (Step.ofType "join" "PARALLEL_GATEWAY_JOIN").followedBy <|
    (Step.ofType "copy" "COPY_TASK").followedBy (Step.ofType "" "TIMER")

/-- The net of the two forks. All open branches lead to the join. -/
def nestedForksNet : Net :=
  { id := "p"
    elements := [
      { id := "start", kind := .startEvent },
      { id := "outer", kind := .exclusiveGateway, defaultFlow := some "outer_SequenceFlow_2" },
      { id := "inner", kind := .inclusiveGateway, defaultFlow := some "inner_SequenceFlow_3" },
      { id := "task", kind := .userTask },
      { id := "join", kind := .parallelGateway },
      { id := "copy", kind := .serviceTask, implementation := some copyTaskExpression },
      endEvent]
    flows := [
      { source := "start", target := "outer" },
      { id := some "outer_SequenceFlow_1", source := "outer", target := "inner" },
      { id := some "inner_SequenceFlow_1", source := "inner", target := "task" },
      { source := "task", target := "join" },
      { id := some "inner_SequenceFlow_2", source := "inner", target := "join" },
      { id := some "inner_SequenceFlow_3", source := "inner", target := "join", isDefault := true },
      { id := some "outer_SequenceFlow_2", source := "outer", target := "join", isDefault := true },
      { source := "join", target := "copy" },
      { source := "copy", target := "EndEvent" }] }

/-- The elements of the two forks, by the recursion over the tree that the pass amounts to. -/
theorem elements_nestedForks :
    nestedForks.elements = .ok nestedForksNet.elements.dropLast := by
  rw [elements_eq_examine nestedForks (by decide) (by decide)]
  rfl

/-- The two forks are compiled to their net. -/
theorem compile_nestedForks : compile nestedForks "p" none = .ok nestedForksNet := by
  have flows : nestedForks.flows endEventId = .ok nestedForksNet.flows := by
    rw [flows_eq]
    rfl
  simp only [compile, elements_nestedForks, flows]
  rfl

end Workflow
