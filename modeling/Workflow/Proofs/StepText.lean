import Workflow.Proofs.Records
import Workflow.Proofs.Tree

/-!
# The text of a tree is read back

A step is written as an object that leaves out what says nothing. Reading takes each member
by the field of its key and gives everything else its default, so the members that were
left out come back as what they stood for. `step_readBack` says that the text of a tree is
read as this tree, however deep it is.

The attributes of a step are a map in key order, and so are the objects in their values.
Their numbers are integers of 64 bits, with or without a sign.
-/

namespace Workflow

open Json (Value RecordField FieldsTake membersOf)

/-- True for attributes in key order, at every depth, whose numbers are integers of 64 bits. -/
def storableAttributes (attributes : List (String × Value)) : Bool :=
  (Value.object attributes).isWhole && (Value.object attributes).isOrdered

mutual

/-- True for a tree whose attributes can all be stored. -/
def Step.isStorable : Step → Bool
  | ⟨_, _, _, attributes, child, branches⟩ =>
      storableAttributes attributes && slotIsStorable child && branchesAreStorable branches
termination_by structural step => step

/-- True for a slot with nothing or a tree that can be stored. -/
def slotIsStorable : Option Step → Bool
  | none => true
  | some step => step.isStorable
termination_by structural slot => slot

/-- True for branches whose attributes and trees can be stored. -/
def branchesAreStorable : List Branch → Bool
  | [] => true
  | ⟨_, _, attributes, child⟩ :: rest =>
      storableAttributes attributes && slotIsStorable child && branchesAreStorable rest
termination_by structural branches => branches

end

/-- Branches can be stored if the attributes and the slot of each of them can. -/
theorem branchesAreStorable_eq (branches : List Branch) :
    branchesAreStorable branches = branches.all fun branch =>
      storableAttributes branch.attributes && slotIsStorable branch.child := by
  induction branches with
  | nil => rfl
  | cons branch rest inductionHypothesis =>
    rw [List.all_cons, ← inductionHypothesis]
    cases branch
    rfl

/-- The member of attributes is left out if there are none. -/
def attributesValue (attributes : List (String × Value)) : Option Value :=
  if attributes.isEmpty then none else some (.object attributes)

/-- The member of branches is left out if there are none. -/
def branchesValue (branches : List Branch) : Option Value :=
  if branches.isEmpty then none else some (.array (branchValues branches))

/-- What the fields of a branch are given, with the value of the slot it begins with. -/
def Branch.values (branch : Branch) (child : Option Value) : List (Option Value) :=
  [branch.id.map .string, branch.name.map .string, attributesValue branch.attributes, child]

/-- What the fields of a step are given, with the values of the slot behind it and of its
branches. -/
def Step.values (step : Step) (child branches : Option Value) : List (Option Value) :=
  [step.id.map .string, some (.string step.typeName), step.name.map .string,
    attributesValue step.attributes, child, branches]

/-- A branch as an object. -/
def Branch.toValue (branch : Branch) : Value :=
  .object (membersOf (documentSchema .branch).fields (branch.values (slotValue branch.child)))

/-- The attributes are an optional member. -/
theorem attributesMember_eq (attributes : List (String × Value)) :
    attributesMember attributes = optionalMember "attributes" (attributesValue attributes) := by
  unfold attributesMember attributesValue
  split <;> rfl

/-- Branches are written one by one, each in the order of its fields. -/
theorem branchValues_eq (branches : List Branch) :
    branchValues branches = branches.map Branch.toValue := by
  induction branches with
  | nil => rfl
  | cons branch rest inductionHypothesis =>
    cases branch
    simp only [branchValues, inductionHypothesis, List.map_cons, Branch.toValue, Branch.values,
      documentSchema, required, nullable, membersOf, attributesMember_eq, List.append_assoc,
      List.append_nil]

/-- A step is written in the order of its fields. -/
theorem Step.toValue_eq (step : Step) :
    step.toValue = .object (membersOf (documentSchema .step).fields
      (step.values (slotValue step.child) (branchesValue step.branches))) := by
  have branches : (if step.branches.isEmpty then []
      else [("conditionNodes", Value.array (branchValues step.branches))]) =
        optionalMember "conditionNodes" (branchesValue step.branches) := by
    unfold branchesValue
    split <;> rfl
  cases step
  simp only [Step.toValue, branches, Step.values, documentSchema, required, nullable, membersOf,
    attributesMember_eq, List.append_assoc, List.append_nil]
  rfl

/-- A step has the members found under the keys of its fields. -/
theorem Step.ofMembers_eq (members : List (String × Value)) :
    Step.ofMembers members =
      { id := (members.lookup "id").bind (·.string?)
        typeName := ((members.lookup "type").bind (·.string?)).getD ""
        name := (members.lookup "name").bind (·.string?)
        attributes := ((members.lookup "attributes").map (·.members)).getD []
        child := (members.lookup "childNode").bind stepOfSlot
        branches := ((members.lookup "conditionNodes").map branchesOfList).getD [] } := by
  induction members with
  | nil => rfl
  | cons member rest inductionHypothesis =>
    obtain ⟨key, value⟩ := member
    rw [Step.ofMembers.eq_def]
    simp only [inductionHypothesis]
    split
    case h_7 noId noType noName noAttributes noChild noBranches =>
      simp only [List.lookup_cons, beq_false_of_ne (Ne.symm noId), beq_false_of_ne (Ne.symm noType),
        beq_false_of_ne (Ne.symm noName), beq_false_of_ne (Ne.symm noAttributes),
        beq_false_of_ne (Ne.symm noChild), beq_false_of_ne (Ne.symm noBranches)]
    all_goals rfl

/-- A branch has the members found under the keys of its fields. -/
theorem branchOfMembers_eq (members : List (String × Value)) :
    branchOfMembers members =
      { id := (members.lookup "id").bind (·.string?)
        name := (members.lookup "name").bind (·.string?)
        attributes := ((members.lookup "attributes").map (·.members)).getD []
        child := (members.lookup "childNode").bind stepOfSlot } := by
  induction members with
  | nil => rfl
  | cons member rest inductionHypothesis =>
    obtain ⟨key, value⟩ := member
    rw [branchOfMembers.eq_def]
    simp only [inductionHypothesis]
    split
    case h_5 noId noName noAttributes noChild =>
      simp only [List.lookup_cons, beq_false_of_ne (Ne.symm noId), beq_false_of_ne (Ne.symm noName),
        beq_false_of_ne (Ne.symm noAttributes), beq_false_of_ne (Ne.symm noChild)]
    all_goals rfl

/-- An optional text is read from the value it is written as. -/
theorem bind_string (text : Option String) :
    (text.map Value.string).bind (·.string?) = text := by
  cases text <;> rfl

/-- Attributes are the members of what they are written as. -/
theorem members_attributesValue (attributes : List (String × Value)) :
    ((attributesValue attributes).map (·.members)).getD [] = attributes := by
  cases attributes <;> rfl

/-- A step is described by what its fields are given, once its slots are. -/
theorem Step.ofMembers_values (step : Step) (child branches : Option Value)
    (behind : child.bind stepOfSlot = step.child)
    (listed : (branches.map branchesOfList).getD [] = step.branches) :
    Step.ofMembers (membersOf (documentSchema .step).fields (step.values child branches)).reverse =
      step := by
  have found (index : Nat) (key : String) (value : Option Value) :=
    Json.lookup_membersOf (documentSchema .step).fields (step.values child branches) (by decide)
      index key value
  rw [Step.ofMembers_eq, found 0 "id" _ rfl rfl, found 1 "type" _ rfl rfl, found 2 "name" _ rfl rfl,
    found 3 "attributes" _ rfl rfl, found 4 "childNode" _ rfl rfl,
    found 5 "conditionNodes" _ rfl rfl, bind_string, bind_string, members_attributesValue, behind,
    listed]
  cases step
  rfl

/-- A branch is described by what its fields are given, once its slot is. -/
theorem branchOfMembers_values (branch : Branch) (child : Option Value)
    (begun : child.bind stepOfSlot = branch.child) :
    branchOfMembers (membersOf (documentSchema .branch).fields (branch.values child)).reverse =
      branch := by
  have found (index : Nat) (key : String) (value : Option Value) :=
    Json.lookup_membersOf (documentSchema .branch).fields (branch.values child) (by decide)
      index key value
  rw [branchOfMembers_eq, found 0 "id" _ rfl rfl, found 1 "name" _ rfl rfl,
    found 2 "attributes" _ rfl rfl, found 3 "childNode" _ rfl rfl, bind_string, bind_string,
    members_attributesValue, begun]
  cases branch
  rfl

/-- Attributes that can be stored are taken as they are. -/
theorem takes_attributes (attributes : List (String × Value))
    (storable : storableAttributes attributes) :
    Option.Rel ((required "attributes" (.table .any)).Takes documentSchema)
      (attributesValue attributes) (attributesValue attributes) := by
  rw [storableAttributes, Bool.and_eq_true] at storable
  have kept := Json.keep_draft (.object attributes) storable.1 storable.2
  unfold attributesValue
  split
  case isTrue => exact Option.Rel.none
  case isFalse =>
    apply Option.Rel.some
    rw [Value.draft, Json.Draft.keep] at kept
    simp only [RecordField.Takes, required, Bool.false_and, Bool.false_eq_true, if_false,
      Value.draft, Json.Draft.read, Json.readTable_membersDraft, kept]

/-- What a slot writes is taken, and what is taken stands for the slot. -/
def Rereads (slot : Option Step) : Prop :=
  ∃ result, Option.Rel ((nullable "childNode" (.record .step)).Takes documentSchema)
    (slotValue slot) result ∧ result.bind stepOfSlot = slot

/-- What a branch writes is read, and what is read describes the branch. -/
def Branch.Rereads (branch : Branch) : Prop :=
  ∃ members, branch.toValue.draft.read documentSchema (.record .branch) = .ok (.object members) ∧
    branchOfMembers members = branch

/-- A branch is read back if the slot it begins with is. -/
theorem rereads_branch (branch : Branch) (storable : storableAttributes branch.attributes)
    (child : Rereads branch.child) : branch.Rereads := by
  obtain ⟨result, taken, restored⟩ := child
  have take : FieldsTake documentSchema (documentSchema .branch).fields
      (branch.values (slotValue branch.child)) (branch.values result) := by
    apply FieldsTake.cons
    · exact Json.takes_optionalText documentSchema _ branch.id rfl
    apply FieldsTake.cons
    · exact Json.takes_optionalText documentSchema _ branch.name rfl
    apply FieldsTake.cons
    · exact takes_attributes branch.attributes storable
    apply FieldsTake.cons
    · exact taken
    exact FieldsTake.nil
  have read := Json.read_record documentSchema .branch _ _ (by decide) take
    (Json.complete_of_lenient _ _ rfl)
  exact ⟨_, read, branchOfMembers_values branch result restored⟩

/-- Branches are read back if each of them is. -/
theorem read_branches (branches : List Branch) (each : ∀ branch ∈ branches, branch.Rereads) :
    ∃ results, (Value.itemsDraft (branchValues branches)).read documentSchema (.record .branch) =
        .ok results ∧
      branchesOfItems results = branches := by
  rw [branchValues_eq]
  induction branches with
  | nil => exact ⟨[], rfl, rfl⟩
  | cons branch rest inductionHypothesis =>
    obtain ⟨members, read, restored⟩ := each branch List.mem_cons_self
    obtain ⟨results, others, restoredRest⟩ := inductionHypothesis fun other member =>
      each other (List.mem_cons_of_mem branch member)
    refine ⟨.object members :: results, ?read, ?items⟩
    case read =>
      simp only [List.map_cons, Value.itemsDraft, Json.DraftItems.read, read, others, bind,
        Except.bind, pure, Except.pure]
    case items => rw [branchesOfItems, branchOfValue, restored, restoredRest]

/-- Branches that are read back are taken, and what is taken stands for them. -/
theorem takes_branches (branches : List Branch) (each : ∀ branch ∈ branches, branch.Rereads) :
    ∃ result, Option.Rel ((required "conditionNodes" (.list (.record .branch))).Takes documentSchema)
        (branchesValue branches) result ∧
      (result.map branchesOfList).getD [] = branches := by
  obtain ⟨results, read, restored⟩ := read_branches branches each
  unfold branchesValue
  split
  case isTrue empty => exact ⟨none, Option.Rel.none, (List.isEmpty_iff.mp empty).symm⟩
  case isFalse =>
    refine ⟨some (.array results), Option.Rel.some ?taken, restored⟩
    simp only [RecordField.Takes, required, Bool.false_and, Bool.false_eq_true, if_false,
      Value.draft, Json.Draft.read, read]
    rfl

/-- A step is read back if its branches and the slot behind it are. -/
theorem read_step (step : Step) (storable : storableAttributes step.attributes)
    (branches : ∀ branch ∈ step.branches, branch.Rereads) (child : Rereads step.child) :
    ∃ members, step.toValue.draft.read documentSchema (.record .step) = .ok (.object members) ∧
      Step.ofMembers members = step := by
  obtain ⟨behind, takenBehind, restoredBehind⟩ := child
  obtain ⟨listed, takenListed, restoredListed⟩ := takes_branches step.branches branches
  have take : FieldsTake documentSchema (documentSchema .step).fields
      (step.values (slotValue step.child) (branchesValue step.branches))
      (step.values behind listed) := by
    apply FieldsTake.cons
    · exact Json.takes_optionalText documentSchema _ step.id rfl
    apply FieldsTake.cons
    · exact Option.Rel.some (Json.takes_text documentSchema _ step.typeName rfl)
    apply FieldsTake.cons
    · exact Json.takes_optionalText documentSchema _ step.name rfl
    apply FieldsTake.cons
    · exact takes_attributes step.attributes storable
    apply FieldsTake.cons
    · exact takenBehind
    apply FieldsTake.cons
    · exact takenListed
    exact FieldsTake.nil
  have read := Json.read_record documentSchema .step _ _ (by decide) take
    (Json.complete_of_lenient _ _ rfl)
  rw [← Step.toValue_eq] at read
  exact ⟨_, read, Step.ofMembers_values step behind listed restoredBehind restoredListed⟩

/-- A tree that can be stored has attributes, a slot behind it and branches that can be. -/
theorem storable_parts (step : Step) (storable : step.isStorable) :
    storableAttributes step.attributes ∧ slotIsStorable step.child ∧
      ∀ branch ∈ step.branches,
        storableAttributes branch.attributes ∧ slotIsStorable branch.child := by
  cases step
  rw [Step.isStorable, branchesAreStorable_eq] at storable
  simpa [and_assoc] using storable

/-- The object of a step is no null. -/
theorem isNull_draft_toValue (step : Step) : step.toValue.draft.isNull = false := by
  rw [step.toValue_eq, Value.draft]
  rfl

/-- Every slot of a tree that can be stored is read back. -/
theorem rereads_of_storable (slot : Option Step) (storable : slotIsStorable slot) :
    Rereads slot := by
  induction slot using tree_induction with
  | empty => exact ⟨none, Option.Rel.none, rfl⟩
  | filled step branches child =>
    obtain ⟨attributes, behind, inBranches⟩ := storable_parts step storable
    obtain ⟨members, read, restored⟩ := read_step step attributes
      (fun branch member => rereads_branch branch (inBranches branch member).1
        (branches branch member (inBranches branch member).2))
      (child behind)
    refine ⟨some (.object members), Option.Rel.some ?taken, congrArg some restored⟩
    case taken =>
      simp only [RecordField.Takes, nullable, isNull_draft_toValue, Bool.and_false,
        Bool.false_eq_true, if_false, read]

/-- There are no numbers in a text. -/
theorem isWhole_text (text : Option String) : ∀ value ∈ text.map Value.string, value.isWhole := by
  cases text with
  | none => simp
  | some text =>
    rintro _ ⟨⟩
    rfl

/-- The numbers in attributes that can be stored are integers of 64 bits. -/
theorem isWhole_attributes (attributes : List (String × Value))
    (storable : storableAttributes attributes) :
    ∀ value ∈ attributesValue attributes, value.isWhole := by
  rw [storableAttributes, Bool.and_eq_true] at storable
  unfold attributesValue
  split
  case isTrue => simp
  case isFalse =>
    rintro _ ⟨⟩
    exact storable.1

/-- The numbers in a branch are those in its attributes and in the slot it begins with. -/
theorem isWhole_branch (branch : Branch) (storable : storableAttributes branch.attributes)
    (child : ∀ value ∈ slotValue branch.child, value.isWhole) : branch.toValue.isWhole := by
  apply Json.isWhole_membersOf
  intro given member
  simp only [Branch.values, List.mem_cons, List.not_mem_nil, or_false] at member
  rcases member with rfl | rfl | rfl | rfl
  · exact isWhole_text branch.id
  · exact isWhole_text branch.name
  · exact isWhole_attributes branch.attributes storable
  · exact child

/-- The numbers in branches are those in each of them. -/
theorem isWhole_branches (branches : List Branch)
    (each : ∀ branch ∈ branches, branch.toValue.isWhole) :
    ∀ value ∈ branchesValue branches, value.isWhole := by
  unfold branchesValue
  split
  case isTrue => simp
  case isFalse =>
    rintro _ ⟨⟩
    rw [Value.isWhole_array, branchValues_eq, List.all_map, List.all_eq_true]
    exact each

/-- The numbers in a tree that can be stored are integers of 64 bits. -/
theorem isWhole_slotValue (slot : Option Step) (storable : slotIsStorable slot) :
    ∀ value ∈ slotValue slot, value.isWhole := by
  induction slot using tree_induction with
  | empty => simp [slotValue]
  | filled step branches child =>
    obtain ⟨attributes, behind, inBranches⟩ := storable_parts step storable
    rintro _ ⟨⟩
    rw [step.toValue_eq]
    apply Json.isWhole_membersOf
    intro given member
    simp only [Step.values, List.mem_cons, List.not_mem_nil, or_false] at member
    rcases member with rfl | rfl | rfl | rfl | rfl | rfl
    · exact isWhole_text step.id
    · exact isWhole_text (some step.typeName)
    · exact isWhole_text step.name
    · exact isWhole_attributes step.attributes attributes
    · exact child behind
    · exact isWhole_branches step.branches fun branch member =>
        isWhole_branch branch (inBranches branch member).1
          (branches branch member (inBranches branch member).2)

/-- A step that an object stands for in a slot is the one that the object describes. -/
theorem ofValue_of_stepOfSlot (value : Value) (step : Step)
    (stands : stepOfSlot value = some step) : Step.ofValue value = step := by
  cases value with
  | object members => exact Option.some.inj stands
  | null | bool | number | string | array => cases stands

/-- The text of a tree that can be stored is read as a value that describes the tree. -/
theorem readText_of_storable (step : Step) (storable : step.isStorable) :
    ∃ value, Json.readText documentSchema (.record .step) step.text = .ok value ∧
      Step.ofValue value = step := by
  have whole : step.toValue.isWhole := isWhole_slotValue (some step) storable _ rfl
  have scanned : Json.scan (step.toValue.text .compact) = (step.toValue.draft, []) :=
    Json.scan_text .compact step.toValue whole
  obtain ⟨result, taken, restored⟩ := rereads_of_storable (some step) storable
  cases taken with
  | @some _ value taken =>
    refine ⟨value, ?_, ofValue_of_stepOfSlot value step restored⟩
    simp only [RecordField.Takes, nullable, isNull_draft_toValue, Bool.and_false,
      Bool.false_eq_true, if_false] at taken
    rw [Json.readText, Step.text, Value.compact, String.toList_ofList, scanned]
    simp only [taken]
    rfl

/-- The text of a tree is read as this tree, however deep it is. Its attributes are in key order at
every depth, and their numbers are integers of 64 bits, with or without a sign. -/
theorem step_readBack (step : Step) (storable : step.isStorable) :
    Step.ofText step.text = .ok step := by
  obtain ⟨value, read, described⟩ := readText_of_storable step storable
  rw [Step.ofText, read]
  exact congrArg Except.ok described

/-- A fork without identifier, with a quote, a backslash, characters below the space and some
beyond ASCII in its texts, nested attributes with the least and the greatest integer, an empty
branch and slots at different depths. -/
def annotatedFork : Step :=
  { id := some ""
    typeName := "EXCLUSIVE_GATEWAY"
    name := some "\"é\\\n\x01\x1f😀"
    attributes := [
      ("", .array [.null, .object [("a", .number (.int 18446744073709551615)), ("b", .bool true)]]),
      ("é", .number (.int (-9223372036854775808)))]
    child := some { child := some (Step.ofType "end" "") }
    branches := [
      {},
      { id := some "1", name := some "", attributes := [("k", .object [])],
        child := some ((Step.ofType "task" "USER_TASK").withBranch {}) }] }

/-- The fork meets the premise and is read back from its text. -/
theorem step_readBack_annotatedFork :
    annotatedFork.isStorable ∧ Step.ofText annotatedFork.text = .ok annotatedFork := by
  have storable : annotatedFork.isStorable := by decide
  exact ⟨storable, step_readBack annotatedFork storable⟩

end Workflow
