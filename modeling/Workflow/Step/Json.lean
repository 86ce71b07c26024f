import Workflow.Json.Read
import Workflow.Step.Basic

/-!
# Steps as documents

A member that says nothing is left out of a document: an absent identifier, name
or child, an object without attributes, a list without branches. The type name is
always written. Reading gives every member that is left out the same meaning.

Nothing here can fail. What a text must look like is the concern of its shape;
these functions take a document that has it.
-/

namespace Workflow

open Json (Value)

/-- A member that is written only if there is something to write. -/
def optionalMember (key : String) (value : Option Value) : List (String × Value) :=
  match value with
  | none => []
  | some value => [(key, value)]

/-- The attributes as a member, unless there are none. -/
def attributesMember (attributes : List (String × Value)) : List (String × Value) :=
  if attributes.isEmpty then [] else [("attributes", .object attributes)]

mutual

/-- A step as an object. -/
def Step.toValue : Step → Value
  | ⟨id, typeName, name, attributes, child, branches⟩ =>
      .object (optionalMember "id" (id.map .string) ++ ("type", .string typeName) ::
        (optionalMember "name" (name.map .string) ++ attributesMember attributes ++
          optionalMember "childNode" (slotValue child) ++
          (if branches.isEmpty then [] else [("conditionNodes", .array (branchValues branches))])))
termination_by structural step => step

/-- The step of a slot as an object. -/
def slotValue : Option Step → Option Value
  | none => none
  | some step => some step.toValue
termination_by structural slot => slot

/-- Branches as objects. -/
def branchValues : List Branch → List Value
  | [] => []
  | ⟨id, name, attributes, child⟩ :: rest =>
      .object (optionalMember "id" (id.map .string) ++ optionalMember "name" (name.map .string) ++
        attributesMember attributes ++ optionalMember "childNode" (slotValue child)) ::
        branchValues rest
termination_by structural branches => branches

end

mutual

/-- The step that the members of an object describe. -/
def Step.ofMembers : List (String × Value) → Step
  | [] => {}
  | (key, value) :: rest =>
      let step := Step.ofMembers rest
      match key with
      | "id" => { step with id := value.string? }
      | "type" => { step with typeName := value.string?.getD "" }
      | "name" => { step with name := value.string? }
      | "attributes" => { step with attributes := value.members }
      | "childNode" => { step with child := stepOfSlot value }
      | "conditionNodes" => { step with branches := branchesOfList value }
      | _ => step
termination_by structural members => members

/-- The step in a slot, which a null leaves empty. -/
def stepOfSlot : Value → Option Step
  | .object members => some (Step.ofMembers members)
  | _ => none
termination_by structural value => value

/-- The branches in a list. -/
def branchesOfList : Value → List Branch
  | .array items => branchesOfItems items
  | _ => []
termination_by structural value => value

/-- The branches that the items of a list describe. -/
def branchesOfItems : List Value → List Branch
  | [] => []
  | item :: rest => branchOfValue item :: branchesOfItems rest
termination_by structural items => items

/-- The branch that an object describes. -/
def branchOfValue : Value → Branch
  | .object members => branchOfMembers members
  | _ => {}
termination_by structural value => value

/-- The branch that the members of an object describe. -/
def branchOfMembers : List (String × Value) → Branch
  | [] => {}
  | (key, value) :: rest =>
      let branch := branchOfMembers rest
      match key with
      | "id" => { branch with id := value.string? }
      | "name" => { branch with name := value.string? }
      | "attributes" => { branch with attributes := value.members }
      | "childNode" => { branch with child := stepOfSlot value }
      | _ => branch
termination_by structural members => members

end

/-- The step that a document describes. -/
def Step.ofValue (value : Value) : Step := Step.ofMembers value.members

/-- The compact text of a step. -/
def Step.text (step : Step) : String := step.toValue.compact

end Workflow
