import Workflow.Proofs.Changes

/-!
# What a compilation ignores

A designer's document says more about a tree than its process needs: what hangs below a step
without an identifier, what steps other than forks list as branches, how branches are called and
decorated, and the attributes that mean nothing to the engine. `Step.erased` takes all of this
out. `compile_erased` says that it has no influence on a compilation, neither on the net nor on
the defect that is reported: ignored parts may be as defective as they like.

Erasing is a change of trees that renames nothing, and a net that is renamed to itself is the
net.
-/

namespace Workflow

/-- The keys of the attributes that a step is asked for. -/
def Step.reservedKeys (step : Step) : List String :=
  (step.kind?.map StepKind.reservedKeys).getD []

mutual

/-- A tree without the steps, branches and attributes that a compilation does not look at. -/
def Step.erased : Step → Step
  | ⟨id, typeName, name, attributes, child, branches⟩ =>
      let step : Step := ⟨id, typeName, name, attributes, child, branches⟩
      { id := id, typeName := typeName, name := name,
        attributes := attributes.filter fun entry => entry.1 ∈ step.reservedKeys,
        child := slotErased child,
        branches := if step.isFork then branchesErased branches else [] }
termination_by structural step => step

/-- A slot with what is left of its step, if the step has an identifier. -/
def slotErased : Option Step → Option Step
  | none => none
  | some step => if step.idText = "" then none else some step.erased
termination_by structural slot => slot

/-- Branches without anything but what they begin with. -/
def branchesErased : List Branch → List Branch
  | [] => []
  | ⟨_, _, _, child⟩ :: rest => { child := slotErased child } :: branchesErased rest
termination_by structural branches => branches

end

/-- A task keeps its reserved attributes only, and nothing that it lists as a branch. -/
example :
    ({ id := some "task", typeName := "USER_TASK", child := some { typeName := "TIMER" }
       attributes := [("candidateParam", .string "1"), ("color", .string "red")]
       branches := [{ name := some "otherwise", child := some { typeName := "TIMER" } }] }
      : Step).erased =
    { id := some "task", typeName := "USER_TASK"
      attributes := [("candidateParam", .string "1")] } :=
  rfl

/-- Erased branches begin with the erased slots. -/
theorem branchesErased_slots (branches : List Branch) :
    (branchesErased branches).map (·.child) =
      branches.map fun branch => slotErased branch.child := by
  induction branches with
  | nil => rfl
  | cons branch rest inductionHypothesis =>
    rw [List.map_cons, ← inductionHypothesis]
    cases branch; rfl

/-- A look-up among the entries with some keys finds what it finds among all, if its own key is
one of these. -/
theorem lookup_filter_keys {β : Type} (keys : List String) (key : String) (kept : key ∈ keys)
    (entries : List (String × β)) :
    (entries.filter fun entry => entry.1 ∈ keys).lookup key = entries.lookup key := by
  induction entries with
  | nil => rfl
  | cons entry rest inductionHypothesis =>
    obtain ⟨name, value⟩ := entry
    by_cases listed : name ∈ keys
    · rw [List.filter_cons_of_pos (by simpa using listed), List.lookup_cons, List.lookup_cons,
        inductionHypothesis]
    · have other : (key == name) = false := by
        rw [beq_eq_false_iff_ne]
        rintro rfl
        exact listed kept
      rw [List.filter_cons_of_neg (by simpa using listed), List.lookup_cons, other,
        inductionHypothesis]

/-- Erasing is a change that renames nothing. -/
def erasing : Change where
  rename := id
  step := Step.erased
  slot := slotErased
  injective := Function.injective_id
  rename_empty := rfl
  rename_endEventId := rfl
  idText_step := fun step => by cases step; rfl
  typeName_step := fun step => by cases step; rfl
  name_step := fun step => by cases step; rfl
  child_step := fun step => by cases step; rfl
  slots_step := by
    intro step fork
    rw [← branchesErased_slots]
    cases step
    rw [Step.erased, if_pos fork]
  attributes_step := by
    intro step kind known key reserved
    have keys : step.reservedKeys = kind.reservedKeys := by simp [Step.reservedKeys, known]
    have kept : step.erased.attributes =
        step.attributes.filter fun entry => entry.1 ∈ step.reservedKeys := by
      cases step; rfl
    rw [kept, keys, lookup_filter_keys kind.reservedKeys key reserved]
  vacant_slot := by
    intro slot vacant
    cases slot with
    | none => exact vacant_none
    | some step =>
      rw [slotErased, if_pos ((vacant_some_iff step).mp vacant)]
      exact vacant_none
  occupied_slot := by
    intro step present
    rw [slotErased, if_neg present]

/-- A defect is not renamed by the identity. -/
theorem Defect.renamed_id (defect : Defect) : defect.renamed id = defect := by
  cases defect <;> rfl

/-- Identifiers of flows that are numbered alike without a renaming are the same. -/
theorem NumberedAlike.eq_of_id {forkId : String} {first second : Option String}
    (alike : NumberedAlike id forkId first second) : second = first := by
  cases alike <;> rfl

/-- A flow that is not renamed stays the flow. -/
theorem flow_eq_of_renamed {flow other : Flow} (renamed : flow.RenamedTo id other) :
    other = flow := by
  obtain ⟨alike, source, target, condition, isDefault⟩ := renamed
  have identifier := alike.eq_of_id
  cases flow
  cases other
  simp_all

/-- An element that is not renamed stays the element. -/
theorem element_eq_of_renamed {element other : Element}
    (renamed : element.RenamedTo id other) : other = element := by
  obtain ⟨identifier, kind, name, implementation, alike, extensions⟩ := renamed
  have defaultFlow := alike.eq_of_id
  cases element
  cases other
  simp_all

/-- Lists whose items stay what they are stay what they are. -/
theorem eq_of_forall₂ {α : Type} {related : α → α → Prop}
    (same : ∀ first second, related first second → second = first) (items others : List α)
    (all : List.Forall₂ related items others) : others = items := by
  induction all with
  | nil => rfl
  | cons one _ inductionHypothesis => rw [same _ _ one, inductionHypothesis]

/-- A net that is not renamed stays the net. -/
theorem net_eq_of_renamed {net other : Net} (renamed : net.RenamedTo id other) :
    other = net := by
  obtain ⟨identifier, name, executable, elements, flows⟩ := renamed
  have elements := eq_of_forall₂ (fun _ _ => element_eq_of_renamed) _ _ elements
  have flows := eq_of_forall₂ (fun _ _ => flow_eq_of_renamed) _ _ flows
  cases net
  cases other
  simp_all

/-- Results of compilations that agree without a renaming are the same. -/
theorem eq_of_agree {result other : Except Defect Net}
    (agree : Agree (Defect.renamed id) (Net.RenamedTo id) result other) : other = result := by
  cases result with
  | error defect => rw [agree.error_left, defect.renamed_id]
  | ok net =>
    obtain ⟨image, rfl, renamed⟩ := agree.ok_left
    rw [net_eq_of_renamed renamed]

/-- What is erased from a tree has no influence on its compilation, whether this succeeds or
not. -/
theorem compile_erased (root : Step) (processId : String) (processName : Option String) :
    compile root.erased processId processName = compile root processId processName :=
  eq_of_agree (compile_change erasing root processId processName)

end Workflow
