import Mathlib.Logic.Equiv.Basic
import Workflow.Proofs.Changes

/-!
# Identifiers are opaque

A compilation compares identifiers with each other, with the empty text and with the identifier of
the end event, and makes the identifiers of flows from them; what they consist of does not matter
to it. `Step.renamed` gives every step of a tree another identifier, also those steps that no
compilation looks at. `compile_renamed` says that with an injective renaming that keeps the two
special identifiers the tree is compiled to the renamed net, or refused for the renamed defect.

The renaming of a tree is a change of trees in which nothing else happens.
-/

namespace Workflow

mutual

/-- A tree with all its steps renamed. -/
def Step.renamed (rename : String → String) : Step → Step
  | ⟨id, typeName, name, attributes, child, branches⟩ =>
      { id := id.map rename, typeName := typeName, name := name, attributes := attributes,
        child := slotRenamed rename child, branches := branchesRenamed rename branches }
termination_by structural step => step

/-- A slot with its step renamed. -/
def slotRenamed (rename : String → String) : Option Step → Option Step
  | none => none
  | some step => some (step.renamed rename)
termination_by structural slot => slot

/-- Branches, which keep their own identifiers, with the steps inside renamed. -/
def branchesRenamed (rename : String → String) : List Branch → List Branch
  | [] => []
  | ⟨id, name, attributes, child⟩ :: rest =>
      { id := id, name := name, attributes := attributes, child := slotRenamed rename child } ::
        branchesRenamed rename rest
termination_by structural branches => branches

end

/-- Steps exchange their identifiers also where no compilation looks at them; branches keep
theirs. -/
example :
    ({ id := some "outer", typeName := "USER_TASK"
       branches := [{ id := some "inner", child := some { id := some "inner", typeName := "" } }] }
      : Step).renamed (Equiv.swap "outer" "inner") =
    { id := some "inner", typeName := "USER_TASK"
      branches := [{ id := some "inner", child := some { id := some "outer", typeName := "" } }] } :=
  rfl

section

variable (rename : String → String)

/-- Renamed branches begin with the renamed slots. -/
theorem branchesRenamed_slots (branches : List Branch) :
    (branchesRenamed rename branches).map (·.child) =
      branches.map fun branch => slotRenamed rename branch.child := by
  induction branches with
  | nil => rfl
  | cons branch rest inductionHypothesis =>
    rw [List.map_cons, ← inductionHypothesis]
    cases branch; rfl

/-- The text of a renamed identifier is the renamed text, also where there is no identifier. -/
theorem idText_renamed (empty : rename "" = "") (step : Step) :
    (step.renamed rename).idText = rename step.idText := by
  obtain ⟨id, typeName, name, attributes, child, branches⟩ := step
  cases id with
  | none => exact empty.symm
  | some id => rfl

/-- Renaming the steps of trees is a change. -/
def relabelling (injective : Function.Injective rename) (empty : rename "" = "")
    (final : rename endEventId = endEventId) : Change where
  rename := rename
  step := Step.renamed rename
  slot := slotRenamed rename
  injective := injective
  rename_empty := empty
  rename_endEventId := final
  idText_step := idText_renamed rename empty
  typeName_step := fun step => by cases step; rfl
  name_step := fun step => by cases step; rfl
  child_step := fun step => by cases step; rfl
  slots_step := by
    intro step _
    rw [← branchesRenamed_slots]
    cases step; rfl
  attributes_step := by
    intro step _ _ _ _
    cases step; rfl
  vacant_slot := by
    intro slot vacant
    cases slot with
    | none => exact vacant_none
    | some step =>
      rw [slotRenamed, vacant_some_iff, idText_renamed rename empty,
        (vacant_some_iff step).mp vacant, empty]
  occupied_slot := fun step _ => by rw [slotRenamed]

/-- A renamed tree compiles exactly if the tree does, and to the renamed net; if the tree is
refused, the renamed one is refused for the renamed defect. -/
theorem compile_renamed (injective : Function.Injective rename) (empty : rename "" = "")
    (final : rename endEventId = endEventId) (root : Step) (processId : String)
    (processName : Option String) :
    ((∃ other, compile (root.renamed rename) processId processName = .ok other) ↔
        ∃ net, compile root processId processName = .ok net) ∧
      (∀ net, compile root processId processName = .ok net →
        ∃ other, compile (root.renamed rename) processId processName = .ok other ∧
          net.RenamedTo rename other) ∧
      ∀ defect, compile root processId processName = .error defect →
        compile (root.renamed rename) processId processName =
          .error (defect.renamed rename) := by
  have agree : Agree (Defect.renamed rename) (Net.RenamedTo rename)
      (compile root processId processName) (compile (root.renamed rename) processId processName) :=
    compile_change (relabelling rename injective empty final) root processId processName
  have renamedNet (net : Net) (accepted : compile root processId processName = .ok net) :
      ∃ other, compile (root.renamed rename) processId processName = .ok other ∧
        net.RenamedTo rename other := by
    rw [accepted] at agree
    exact agree.ok_left
  have renamedDefect (defect : Defect)
      (refused : compile root processId processName = .error defect) :
      compile (root.renamed rename) processId processName = .error (defect.renamed rename) := by
    rw [refused] at agree
    exact agree.error_left
  refine ⟨⟨?_, ?_⟩, renamedNet, renamedDefect⟩
  · rintro ⟨other, changed⟩
    cases compiled : compile root processId processName with
    | ok net => exact ⟨net, rfl⟩
    | error defect =>
      rw [renamedDefect defect compiled] at changed
      cases changed
  · rintro ⟨net, accepted⟩
    obtain ⟨other, changed, _⟩ := renamedNet net accepted
    exact ⟨other, changed⟩

end

/-- The identifiers of the nested forks are exchanged. -/
def exchanged : String → String :=
  Equiv.swap "outer" "inner"

/-- The renaming that exchanges the forks meets the premises, and the nested forks are compiled
with it to their net with the forks exchanged. -/
theorem compile_renamed_nestedForks :
    Function.Injective exchanged ∧ exchanged "" = "" ∧ exchanged endEventId = endEventId ∧
      ∃ other, compile (nestedForks.renamed exchanged) "p" none = .ok other ∧
        nestedForksNet.RenamedTo exchanged other :=
  have injective : Function.Injective exchanged := Equiv.injective _
  have empty : exchanged "" = "" := by decide
  have final : exchanged endEventId = endEventId := by decide
  have renamed := compile_renamed exchanged injective empty final nestedForks "p" none
  ⟨injective, empty, final, renamed.2.1 nestedForksNet compile_nestedForks⟩

end Workflow
