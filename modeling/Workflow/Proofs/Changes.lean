import Workflow.Proofs.SharedOrder

/-!
# Changes that a compilation follows

A compilation looks at little of a tree: at the identifiers, only whether they are equal, empty
or that of the end event; at the type names and names of the steps it reaches; at the branches
of forks; and at what the reserved attributes of tasks say. `TreeChange` describes what may happen
to the form of a tree besides: steps and slots are replaced by others, which agree with them in all
this up to a renaming of identifiers. Reserved attributes may say the same in other words, and a
`Change` keeps them as they are.

`compile_treeChange` says that the compilation follows every change of the form in which the
attributes say the same. The changed tree is compiled to the renamed net, or refused for the renamed
defect. The steps reached from the changed tree are the changed steps, in the same order, so that
each of them is admitted or refused as before; the flows follow by induction over the slots.
-/

namespace Workflow

/-- The keys of the attributes that a step of a kind is asked for. -/
def StepKind.reservedKeys : StepKind → List String
  | userTask => [strategyKey, parameterKey, permissionsKey]
  | copyTask => [strategyKey, parameterKey]
  | _ => []

/-- A change of the form of trees that shows in a compilation as a renaming of identifiers only.
What becomes of slots that hold no step, of the branches of other steps than forks and of all that
is not mentioned here is left open. -/
structure TreeChange where
  rename : String → String
  step : Step → Step
  slot : Option Step → Option Step
  injective : Function.Injective rename
  rename_empty : rename "" = ""
  rename_endEventId : rename endEventId = endEventId
  idText_step : ∀ original, (step original).idText = rename original.idText
  typeName_step : ∀ original, (step original).typeName = original.typeName
  name_step : ∀ original, (step original).name = original.name
  child_step : ∀ original, (step original).child = slot original.child
  slots_step : ∀ original, original.isFork → (step original).branches.map (·.child) =
    original.branches.map fun branch => slot branch.child
  vacant_slot : ∀ original, Vacant original → Vacant (slot original)
  occupied_slot : ∀ original, original.idText ≠ "" → slot (some original) = some (step original)

/-- The attributes of changed steps say to the engine what those of the steps say. -/
structure TreeChange.KeepsMetadata (change : TreeChange) : Prop where
  code : ∀ original kind, original.kind? = some kind → strategyKey ∈ kind.reservedKeys →
    strategy ((change.step original).attributes.lookup strategyKey) =
      strategy (original.attributes.lookup strategyKey)
  text : ∀ original kind, original.kind? = some kind → parameterKey ∈ kind.reservedKeys →
    parameter ((change.step original).attributes.lookup parameterKey) =
      parameter (original.attributes.lookup parameterKey)
  entries : ∀ original kind, original.kind? = some kind → permissionsKey ∈ kind.reservedKeys →
    permissions ((change.step original).attributes.lookup permissionsKey) =
      permissions (original.attributes.lookup permissionsKey)

/-- A change of trees that shows in a compilation as a renaming of identifiers only, and keeps the
reserved attributes. -/
structure Change extends TreeChange where
  attributes_step : ∀ original kind, original.kind? = some kind → ∀ key ∈ kind.reservedKeys,
    (step original).attributes.lookup key = original.attributes.lookup key

/-- The defect with its step renamed. -/
def Defect.renamed (rename : String → String) : Defect → Defect
  | unsupportedType id typeName => unsupportedType (rename id) typeName
  | branchless id => branchless (rename id)
  | duplicateId id => duplicateId (rename id)
  | missingStart id typeName => missingStart (rename id) typeName
  | misplacedStart id => misplacedStart (rename id)
  | empty => empty
  | badAttribute id key rule => badAttribute (rename id) key rule

/-- An identifier of a flow, if there is one, is made from a fork and a position; and another one
is made from the renamed fork and the same position. -/
inductive NumberedAlike (rename : String → String) (forkId : String) :
    Option String → Option String → Prop
  | anonymous : NumberedAlike rename forkId none none
  | numbered (position : Nat) : NumberedAlike rename forkId (some (branchFlowId forkId position))
      (some (branchFlowId (rename forkId) position))

/-- A flow becomes another one when identifiers are renamed. -/
structure Flow.RenamedTo (rename : String → String) (flow other : Flow) : Prop where
  id : NumberedAlike rename flow.source flow.id other.id
  source : other.source = rename flow.source
  target : other.target = rename flow.target
  condition : other.condition = flow.condition
  isDefault : other.isDefault = flow.isDefault

/-- An element becomes another one when identifiers are renamed. -/
structure Element.RenamedTo (rename : String → String) (element other : Element) : Prop where
  id : other.id = rename element.id
  kind : other.kind = element.kind
  name : other.name = element.name
  implementation : other.implementation = element.implementation
  defaultFlow : NumberedAlike rename element.id element.defaultFlow other.defaultFlow
  extensions : other.extensions = element.extensions

/-- A net becomes another one, element by element and flow by flow, when identifiers are
renamed. -/
structure Net.RenamedTo (rename : String → String) (net other : Net) : Prop where
  id : other.id = net.id
  name : other.name = net.name
  executable : other.executable = net.executable
  elements : List.Forall₂ (Element.RenamedTo rename) net.elements other.elements
  flows : List.Forall₂ (Flow.RenamedTo rename) net.flows other.flows

/-- Two results agree: their values are related, or one failure is the translation of the other. -/
def Agree {ε ζ α β : Type} (translate : ε → ζ) (related : α → β → Prop) :
    Except ε α → Except ζ β → Prop
  | .ok value, .ok other => related value other
  | .error fault, .error other => other = translate fault
  | _, _ => False

section

variable {ε ζ α β : Type} {translate : ε → ζ} {related : α → β → Prop}

/-- A result that agrees with a value is a related value. -/
theorem Agree.ok_left {value : α} {other : Except ζ β}
    (agree : Agree translate related (.ok value) other) :
    ∃ image, other = .ok image ∧ related value image := by
  cases other with
  | error fault => exact False.elim agree
  | ok image => exact ⟨image, rfl, agree⟩

/-- A result that agrees with a failure is its translation. -/
theorem Agree.error_left {fault : ε} {other : Except ζ β}
    (agree : Agree translate related (.error fault) other) :
    other = .error (translate fault) := by
  cases other with
  | error image => exact congrArg Except.error agree
  | ok value => exact False.elim agree

/-- Results that agree still do if their values are related in a weaker sense. -/
theorem Agree.imp {further : α → β → Prop} {result : Except ε α} {other : Except ζ β}
    (agree : Agree translate related result other)
    (weaker : ∀ value image, related value image → further value image) :
    Agree translate further result other := by
  cases result with
  | error fault =>
    rw [agree.error_left]
    rfl
  | ok value =>
    obtain ⟨image, rfl, same⟩ := agree.ok_left
    exact weaker value image same

/-- Results that agree, continued in ways that agree on related values, agree. -/
theorem Agree.bind {γ δ : Type} {further : γ → δ → Prop} {result : Except ε α}
    {other : Except ζ β} {f : α → Except ε γ} {g : β → Except ζ δ}
    (agree : Agree translate related result other)
    (next : ∀ value image, related value image → Agree translate further (f value) (g image)) :
    Agree translate further (result >>= f) (other >>= g) := by
  cases result with
  | error fault =>
    obtain rfl := agree.error_left
    rfl
  | ok value =>
    obtain ⟨image, rfl, same⟩ := agree.ok_left
    exact next value image same

/-- One result, continued in ways that agree on its value, agrees. -/
theorem agree_after {γ δ : Type} {further : γ → δ → Prop} (result : Except ε α)
    {f : α → Except ε γ} {g : α → Except ε δ}
    (next : ∀ value, Agree id further (f value) (g value)) :
    Agree id further (result >>= f) (result >>= g) := by
  cases result with
  | error fault => rfl
  | ok value => exact next value

/-- Results that agree still do if their values are mapped to related ones. -/
theorem Agree.map {γ δ : Type} {further : γ → δ → Prop} {result : Except ε α}
    {other : Except ζ β} {f : α → γ} {g : β → δ} (agree : Agree translate related result other)
    (next : ∀ value image, related value image → further (f value) (g image)) :
    Agree translate further (result.map f) (other.map g) :=
  agree.bind (f := fun value => .ok (f value)) (g := fun image => .ok (g image)) next

/-- If checks agree on items and their images, behind other items and the images of these, the
lists of them are examined with results that agree. -/
theorem examine_agree {ι κ : Type} (image : ι → κ) (items : List ι)
    (check : List ι → ι → Except ε α) (other : List κ → κ → Except ζ β)
    (each : ∀ before item,
      Agree translate related (check before item) (other (before.map image) (image item))) :
    Agree translate (List.Forall₂ related) (InOrder.examine check items)
      (InOrder.examine other (items.map image)) := by
  induction items generalizing check other with
  | nil => exact List.Forall₂.nil
  | cons item rest inductionHypothesis =>
    have later := inductionHypothesis (fun before => check (item :: before))
      (fun before => other (image item :: before)) fun before => each (item :: before)
    have unfolded {ν ξ η : Type} (check : List ν → ν → Except η ξ) (item : ν) (rest : List ν) :
        InOrder.examine check (item :: rest) = (check [] item >>= fun result =>
          (InOrder.examine (fun before => check (item :: before)) rest).map (result :: ·)) := by
      rw [InOrder.examine]
      cases check [] item <;> rfl
    rw [List.map_cons, unfolded, unfolded]
    apply (each [] item).bind
    intro value result same
    exact later.map fun values results others => List.Forall₂.cons same others

end

section

variable (change : TreeChange)

namespace TreeChange

/-- A changed step has an identifier exactly if the step has one. -/
theorem idText_step_eq_empty_iff (step : Step) :
    (change.step step).idText = "" ↔ step.idText = "" := by
  rw [change.idText_step, ← change.rename_empty, change.injective.eq_iff, change.rename_empty]

/-- A changed step has an identifier if the step has one. -/
theorem filled_step (step : Step) (present : step.idText ≠ "") : (change.step step).idText ≠ "" :=
  fun empty => present ((change.idText_step_eq_empty_iff step).mp empty)

/-- A changed step has the kind of the step. -/
theorem kind?_step (step : Step) : (change.step step).kind? = step.kind? := by
  rw [Step.kind?, change.typeName_step, Step.kind?]

/-- A changed step is a fork exactly if the step is one. -/
theorem isFork_step (step : Step) : (change.step step).isFork = step.isFork := by
  rw [Step.isFork, change.kind?_step, Step.isFork]

/-- A changed fork has a default exactly if the fork has one. -/
theorem hasDefault_step (step : Step) : (change.step step).hasDefault = step.hasDefault := by
  rw [Step.hasDefault, change.kind?_step, Step.hasDefault]

/-- A changed fork has as many branches as the fork. -/
theorem length_branches_step (step : Step) (fork : step.isFork) :
    (change.step step).branches.length = step.branches.length := by
  have slots := congrArg List.length (change.slots_step step fork)
  simpa using slots

/-- A changed fork lacks branches exactly if the fork does. -/
theorem isEmpty_branches_step (step : Step) (fork : step.isFork) :
    (change.step step).branches.isEmpty = step.branches.isEmpty := by
  have slots := congrArg List.isEmpty (change.slots_step step fork)
  simpa using slots

/-- The identifier of a changed step is reserved or in use among changed steps exactly if that of
the step is among these. -/
theorem taken_step_iff (before : List Step) (id : String) :
    (change.rename id = endEventId ∨
        change.rename id ∈ (before.map change.step).map (·.idText)) ↔
      (id = endEventId ∨ id ∈ before.map (·.idText)) := by
  have renamed : (before.map change.step).map (·.idText) =
      (before.map (·.idText)).map change.rename := by
    simp only [List.map_map, Function.comp_def, change.idText_step]
  rw [renamed, List.mem_map_of_injective change.injective]
  conv_lhs => rw [← change.rename_endEventId, change.injective.eq_iff]

/-- The slots of the branches entered from a changed step are the changed slots. -/
theorem slots_entered (step : Step) :
    (change.step step).entered.map (·.child) =
      step.entered.map fun branch => change.slot branch.child := by
  rw [Step.entered, Step.entered, change.isFork_step]
  split
  · rename_i fork
    exact change.slots_step step fork
  · rfl

end TreeChange

/-- From a changed slot the changed steps are reached, in the same order. -/
theorem slotReached_change (slot : Option Step) :
    slotReached (change.slot slot) = (slotReached slot).map change.step := by
  induction slot using slot_induction with
  | vacant slot vacant =>
    rw [slotReached_vacant slot vacant, slotReached_vacant _ (change.vacant_slot slot vacant)]
    rfl
  | occupied step present branches child =>
    have filled := change.filled_step step present
    have inBranches : (change.step step).entered.flatMap (fun branch => slotReached branch.child) =
        step.entered.flatMap fun branch => (slotReached branch.child).map change.step := by
      rw [← List.flatMap_map (f := fun branch : Branch => branch.child) (g := slotReached),
        change.slots_entered, List.flatMap_map]
      exact List.flatMap_congr fun branch entered =>
        branches branch (step.branch_of_entered branch entered)
    rw [change.occupied_slot step present, slotReached_occupied _ filled,
      slotReached_occupied step present, inBranches, change.child_step, child]
    simp only [List.map_cons, List.map_append, List.map_flatMap]

/-- A changed slot is entered at the renamed place. -/
theorem entryId_change (slot : Option Step) (target : String) :
    entryId (change.slot slot) (change.rename target) = change.rename (entryId slot target) := by
  induction slot using slot_induction with
  | vacant slot vacant =>
    rw [entryId_vacant slot target vacant, entryId_vacant _ _ (change.vacant_slot slot vacant)]
  | occupied step present branches child =>
    have filled := change.filled_step step present
    rw [change.occupied_slot step present, entryId_occupied _ _ filled,
      entryId_occupied step target present, change.idText_step]

/-- The flows of the branches of a changed fork are those of the fork, renamed, if the flows inside
each branch are. -/
theorem branchesFlows_change (fork : Step) (isFork : fork.isFork) (continuation : String)
    (position : Nat) (branches others : List Branch)
    (slots : others.map (·.child) = branches.map fun branch => change.slot branch.child)
    (each : ∀ branch ∈ branches, List.Forall₂ (Flow.RenamedTo change.rename)
      (slotFlows branch.child continuation)
      (slotFlows (change.slot branch.child) (change.rename continuation))) :
    List.Forall₂ (Flow.RenamedTo change.rename)
      (branchesFlows fork continuation position branches)
      (branchesFlows (change.step fork) (change.rename continuation) position others) := by
  induction branches generalizing position others with
  | nil =>
    obtain rfl : others = [] := by simpa using slots
    exact List.Forall₂.nil
  | cons branch rest inductionHypothesis =>
    obtain ⟨other, remaining, rfl, beginning, slots⟩ := List.map_eq_cons_iff.mp slots
    have same : other.child = change.slot branch.child := beginning
    have behind := inductionHypothesis (position + 1) remaining slots
      fun later member => each later (List.mem_cons_of_mem branch member)
    have inside := each branch List.mem_cons_self
    rw [← same] at inside
    rw [branchesFlows_cons, branchesFlows_cons]
    refine List.Forall₂.cons ?_ (List.rel_append inside behind)
    refine ⟨?_, change.idText_step fork, ?_, rfl, ?_⟩
    · simp only [Step.branchFlow, change.idText_step]
      exact NumberedAlike.numbered position
    · simp only [Step.branchFlow, same, entryId_change]
    · simp only [Step.branchFlow, change.hasDefault_step, change.length_branches_step fork isFork]

/-- The flows of a changed slot with a renamed target are those of the slot, renamed.

Proof: induction over the slot. The place behind a step is renamed with it, so the branches and
what follows the step are given renamed targets again. -/
theorem slotFlows_change (slot : Option Step) (target : String) :
    List.Forall₂ (Flow.RenamedTo change.rename) (slotFlows slot target)
      (slotFlows (change.slot slot) (change.rename target)) := by
  induction slot using slot_induction generalizing target with
  | vacant slot vacant =>
    rw [slotFlows_vacant slot target vacant, slotFlows_vacant _ _ (change.vacant_slot slot vacant)]
    exact List.Forall₂.nil
  | occupied step present branches child =>
    have filled := change.filled_step step present
    have behind := child target
    rw [change.occupied_slot step present, slotFlows_occupied _ _ filled,
      slotFlows_occupied step target present, change.isFork_step, change.child_step, entryId_change]
    refine List.rel_append ?_ behind
    split
    · rename_i fork
      exact branchesFlows_change change step fork _ 1 _ _ (change.slots_step step fork)
        fun branch member => branches branch member _
    · refine List.Forall₂.cons ?_ List.Forall₂.nil
      refine ⟨NumberedAlike.anonymous, change.idText_step step, ?_, rfl, rfl⟩
      simp only [Step.plainFlow, change.child_step, entryId_change]

/-- What an attribute gives is refused for the renamed step under the same rule. -/
theorem underRule_agree {α : Type} (rename : String → String) (id key : String)
    (result : Except AttributeRule α) :
    Agree (Defect.renamed rename) Eq (Step.underRule id key result)
      (Step.underRule (rename id) key result) := by
  cases result <;> rfl

/-- The candidates of a changed step are those of the step, if the attributes for them say the
same. -/
theorem candidateExtensions_agree (step : Step) (id : String)
    (code : strategy ((change.step step).attributes.lookup strategyKey) =
      strategy (step.attributes.lookup strategyKey))
    (text : parameter ((change.step step).attributes.lookup parameterKey) =
      parameter (step.attributes.lookup parameterKey)) :
    Agree (Defect.renamed change.rename) Eq (step.candidateExtensions id)
      ((change.step step).candidateExtensions (change.rename id)) := by
  unfold Step.candidateExtensions
  rw [code, text]
  apply (underRule_agree change.rename id strategyKey _).bind
  rintro code _ rfl
  apply (underRule_agree change.rename id parameterKey _).bind
  rintro text _ rfl
  rfl

/-- The permissions of a changed step are those of the step, if the attribute for them says the
same. -/
theorem permissionExtensions_agree (step : Step) (id : String)
    (entries : permissions ((change.step step).attributes.lookup permissionsKey) =
      permissions (step.attributes.lookup permissionsKey)) :
    Agree (Defect.renamed change.rename) Eq (step.permissionExtensions id)
      ((change.step step).permissionExtensions (change.rename id)) := by
  unfold Step.permissionExtensions
  rw [entries]
  apply (underRule_agree change.rename id permissionsKey _).bind
  rintro entries _ rfl
  rfl

variable (kept : change.KeepsMetadata)
include kept

/-- The element of a changed step is that of the step, renamed. -/
theorem ofStep_agree (step : Step) (id : String) (kind : StepKind)
    (known : step.kind? = some kind) :
    Agree (Defect.renamed change.rename) (Element.RenamedTo change.rename)
      (Element.ofStep step id kind)
      (Element.ofStep (change.step step) (change.rename id) kind) := by
  have name := change.name_step step
  cases kind with
  | userTask =>
    have candidates := candidateExtensions_agree change step id
      (kept.code step _ known (by simp [StepKind.reservedKeys]))
      (kept.text step _ known (by simp [StepKind.reservedKeys]))
    have permissions := permissionExtensions_agree change step id
      (kept.entries step _ known (by simp [StepKind.reservedKeys]))
    apply candidates.bind
    rintro front _ rfl
    apply permissions.bind
    rintro back _ rfl
    exact ⟨rfl, rfl, name, rfl, NumberedAlike.anonymous, rfl⟩
  | copyTask =>
    have candidates := candidateExtensions_agree change step id
      (kept.code step _ known (by simp [StepKind.reservedKeys]))
      (kept.text step _ known (by simp [StepKind.reservedKeys]))
    apply candidates.bind
    rintro extensions _ rfl
    exact ⟨rfl, rfl, name, rfl, NumberedAlike.anonymous, rfl⟩
  | exclusiveGateway | inclusiveFork =>
    have fork : step.isFork = true := by rw [Step.isFork, known]; rfl
    simp only [Element.ofStep, change.length_branches_step step fork,
      change.isEmpty_branches_step step fork]
    split
    · rfl
    · exact ⟨rfl, rfl, name, rfl, NumberedAlike.numbered _, rfl⟩
  | parallelFork =>
    have fork : step.isFork = true := by rw [Step.isFork, known]; rfl
    simp only [Element.ofStep, change.isEmpty_branches_step step fork]
    split
    · rfl
    · exact ⟨rfl, rfl, name, rfl, NumberedAlike.anonymous, rfl⟩
  | startEvent | parallelJoin | inclusiveJoin =>
    exact ⟨rfl, rfl, name, rfl, NumberedAlike.anonymous, rfl⟩

/-- A changed step is admitted behind changed steps like the step behind these, with the renamed
element, or refused for the renamed defect. -/
theorem accept_agree (before : List Step) (step : Step) :
    Agree (Defect.renamed change.rename) (Element.RenamedTo change.rename) (step.accept before)
      ((change.step step).accept (before.map change.step)) := by
  unfold Step.accept
  rw [Step.kind_eq, Step.kind_eq, change.kind?_step, change.idText_step, change.typeName_step]
  cases known : step.kind? with
  | none => rfl
  | some kind =>
    have begun : before.map change.step ≠ [] ↔ before ≠ [] := by simp
    simp only [begun]
    split
    · rfl
    · simp only [Step.enter, change.taken_step_iff]
      split
      · rfl
      · exact ofStep_agree change kept step step.idText kind known

/-- The elements of a changed tree are those of the tree, renamed, or it is refused for the renamed
defect. -/
theorem elements_agree (root : Step) :
    Agree (Defect.renamed change.rename) (List.Forall₂ (Element.RenamedTo change.rename))
      root.elements (change.step root).elements := by
  by_cases empty : root.idText = ""
  · have absent := root.presentId?_eq_none_iff.mpr empty
    have absentToo := (change.step root).presentId?_eq_none_iff.mpr
      ((change.idText_step_eq_empty_iff root).mpr empty)
    rw [Step.elements, absent, Step.elements, absentToo]
    rfl
  · have filled := change.filled_step root empty
    by_cases start : root.kind? = some .startEvent
    · have reached : (change.step root).reached = root.reached.map change.step := by
        have slots := slotReached_change change (some root)
        rwa [change.occupied_slot root empty] at slots
      rw [elements_eq_examine root empty start,
        elements_eq_examine _ filled ((change.kind?_step root).trans start), reached]
      exact examine_agree change.step root.reached _ _ (accept_agree change kept)
    · simp only [Step.elements, root.presentId?_of_filled empty,
        Step.presentId?_of_filled _ filled, Step.kind_eq, change.kind?_step, change.idText_step,
        change.typeName_step]
      cases known : root.kind? with
      | none => rfl
      | some kind =>
        have other : kind ≠ .startEvent := fun same => start (same ▸ known)
        simp only [if_neg other]
        rfl

/-- A compilation follows a change of the form of its tree in which the attributes say the same: it
gives the renamed net, or is refused for the renamed defect. -/
theorem compile_treeChange (root : Step) (processId : String) (processName : Option String) :
    Agree (Defect.renamed change.rename) (Net.RenamedTo change.rename)
      (compile root processId processName) (compile (change.step root) processId processName) := by
  have agree := elements_agree change kept root
  have refused (tree : Step) (defect : Defect) (found : tree.elements = .error defect) :
      compile tree processId processName = .error defect :=
    (compile_error_iff tree processId processName defect).mpr
      ((elements_error_iff tree defect).mp found)
  cases admitted : root.elements with
  | error defect =>
    rw [admitted] at agree
    rw [refused _ _ admitted, refused _ _ agree.error_left]
    rfl
  | ok elements =>
    rw [admitted] at agree
    obtain ⟨others, changed, renamed⟩ := agree.ok_left
    have filled := (valid_of_elements root elements admitted).filled
    have flows := slotFlows_change change (some root) endEventId
    rw [change.occupied_slot root filled, change.rename_endEventId] at flows
    have final : endEvent.RenamedTo change.rename endEvent :=
      ⟨change.rename_endEventId.symm, rfl, rfl, rfl, NumberedAlike.anonymous, rfl⟩
    rw [compile_of_elements root elements admitted, compile_of_elements _ others changed]
    exact ⟨rfl, rfl, rfl, List.rel_append renamed (List.Forall₂.cons final List.Forall₂.nil), flows⟩

end

/-- Reserved attributes that are kept say what they said. -/
theorem Change.keepsMetadata (change : Change) : change.toTreeChange.KeepsMetadata where
  code original kind known reserved :=
    congrArg strategy (change.attributes_step original kind known _ reserved)
  text original kind known reserved :=
    congrArg parameter (change.attributes_step original kind known _ reserved)
  entries original kind known reserved :=
    congrArg permissions (change.attributes_step original kind known _ reserved)

/-- A compilation follows a change of its tree: it gives the renamed net, or is refused for the
renamed defect. -/
theorem compile_change (change : Change) (root : Step) (processId : String)
    (processName : Option String) :
    Agree (Defect.renamed change.rename) (Net.RenamedTo change.rename)
      (compile root processId processName) (compile (change.step root) processId processName) :=
  compile_treeChange change.toTreeChange change.keepsMetadata root processId processName

end Workflow
