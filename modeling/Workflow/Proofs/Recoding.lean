import Workflow.Proofs.Erasure
import Workflow.Proofs.Extensions
import Workflow.Proofs.Replacement
import Workflow.Proofs.StepText

/-!
# Replacing a strategy code

A strategy code may be written in many ways. `Step.Recoded` relates two drafts of a tree that are
the same but for one strategy code, which may stand at any step, and `Recodes` two documents with
such drafts. If the two codes say the same, the documents are read as trees that are the same once all
codes are brought to one form, or refused for the same reason; and bringing codes to one form is a
change of trees in which the attributes say the same. So `compileText_recoded` says that both
documents are compiled with the same result.
-/

namespace Workflow

open Json (Value Draft DraftItems DraftMembers MembersAlike ObjectsAlike Refused)

/-- A strategy code in the form that stands for all that say the same. -/
def restatedCode (value : Value) : Value :=
  match strategy (some value) with
  | .ok none => .null
  | .ok (some n) => .number (.int n)
  | .error _ => .bool false

/-- An attribute with its value in the one form if it is the strategy code. -/
def restatedEntry (key : String) (value : Value) : Value :=
  if key = strategyKey then restatedCode value else value

/-- Attributes with the strategy code in one form. -/
def restatedAttributes (attributes : List (String × Value)) : List (String × Value) :=
  attributes.map fun (key, value) => (key, restatedEntry key value)

mutual

/-- A tree with all its strategy codes in one form. -/
def Step.restated : Step → Step
  | ⟨id, typeName, name, attributes, child, branches⟩ =>
      ⟨id, typeName, name, restatedAttributes attributes, slotRestated child,
        branchesRestated branches⟩
termination_by structural step => step

/-- A slot with all strategy codes in one form. -/
def slotRestated : Option Step → Option Step
  | none => none
  | some step => some step.restated
termination_by structural slot => slot

/-- Branches with all strategy codes in one form. -/
def branchesRestated : List Branch → List Branch
  | [] => []
  | ⟨id, name, attributes, child⟩ :: rest =>
      ⟨id, name, restatedAttributes attributes, slotRestated child⟩ :: branchesRestated rest
termination_by structural branches => branches

end

/-- A branch with all strategy codes in one form. -/
def Branch.restated (branch : Branch) : Branch :=
  { branch with
    attributes := restatedAttributes branch.attributes, child := slotRestated branch.child }

/-- Branches are brought to the one form one by one. -/
theorem branchesRestated_eq (branches : List Branch) :
    branchesRestated branches = branches.map Branch.restated := by
  induction branches with
  | nil => rfl
  | cons branch rest inductionHypothesis =>
    rw [List.map_cons, ← inductionHypothesis]
    cases branch
    rfl

/-- A code says the same in the one form. -/
theorem strategy_restatedCode (value : Value) :
    strategy (some (restatedCode value)) = strategy (some value) := by
  unfold restatedCode
  cases read : strategy (some value) with
  | error rule =>
    obtain ⟨_, rfl⟩ := (strategy_error_iff _ rule).mp read
    rfl
  | ok code =>
    cases code with
    | none => rfl
    | some n => exact (strategyCode_ok_iff n _).mpr ⟨word_of_strategy _ n read, rfl⟩

/-- A look-up finds the strategy code in the one form, and every other attribute as it was. -/
theorem lookup_restatedAttributes (attributes : List (String × Value)) (key : String) :
    (restatedAttributes attributes).lookup key =
      (attributes.lookup key).map (restatedEntry key) := by
  induction attributes with
  | nil => rfl
  | cons entry rest inductionHypothesis =>
    obtain ⟨name, value⟩ := entry
    rw [restatedAttributes, List.map_cons, List.lookup_cons, List.lookup_cons,
      ← restatedAttributes, inductionHypothesis]
    by_cases found : key = name
    · simp [found]
    · have missed : (key == name) = false := by simpa using found
      rw [missed]

/-- The branches of a tree in the one form begin with slots in it. -/
theorem slots_restated (step : Step) : step.restated.branches.map (·.child) =
    step.branches.map fun branch => slotRestated branch.child := by
  cases step
  simp [Step.restated, branchesRestated_eq, Branch.restated]

/-- A slot that holds no step still holds none in the one form. -/
theorem vacant_slotRestated (slot : Option Step) (vacant : Vacant slot) :
    Vacant (slotRestated slot) := by
  cases slot with
  | none => exact vacant_none
  | some step =>
    cases step
    rw [vacant_some_iff] at vacant
    exact (vacant_some_iff _).mpr vacant

/-- Bringing strategy codes to one form is a change of the form of trees. -/
def restating : TreeChange where
  rename := id
  step := Step.restated
  slot := slotRestated
  injective := Function.injective_id
  rename_empty := id_eq ""
  rename_endEventId := id_eq endEventId
  idText_step := fun step => by cases step; rfl
  typeName_step := fun step => by cases step; rfl
  name_step := fun step => by cases step; rfl
  child_step := fun step => by cases step; rfl
  slots_step := fun step _ => slots_restated step
  vacant_slot := vacant_slotRestated
  occupied_slot := fun _ _ => rfl

/-- Attributes say the same once the strategy code is in the one form. -/
theorem restating_keepsMetadata : restating.KeepsMetadata := by
  have attributes (step : Step) : (restating.step step).attributes =
      restatedAttributes step.attributes := by
    cases step
    rfl
  have kept (step : Step) (key : String) (other : key ≠ strategyKey) :
      (restating.step step).attributes.lookup key = step.attributes.lookup key := by
    have unchanged : restatedEntry key = id := by
      funext value
      exact if_neg other
    rw [attributes, lookup_restatedAttributes, unchanged, Option.map_id, id]
  refine ⟨?code, ?text, ?entries⟩
  case code =>
    intro step kind _ _
    rw [attributes, lookup_restatedAttributes]
    cases step.attributes.lookup strategyKey with
    | none => rfl
    | some value => simp [restatedEntry, strategy_restatedCode]
  case text =>
    intro step kind _ _
    rw [kept step parameterKey (by decide)]
  case entries =>
    intro step kind _ _
    rw [kept step permissionsKey (by decide)]

/-- A tree with its strategy codes in one form is compiled like the tree. -/
theorem compile_restated (root : Step) (processId : String) (processName : Option String) :
    compile root.restated processId processName = compile root processId processName :=
  eq_of_agree (compile_treeChange restating restating_keepsMetadata root processId processName)

/-- Values under a key of a step or a branch that describe the same in the one form. -/
structure DescribesAlike (key : String) (value other : Value) : Prop where
  plain : key ≠ "attributes" → key ≠ "childNode" → key ≠ "conditionNodes" → other = value
  attributes : key = "attributes" →
    restatedAttributes other.members = restatedAttributes value.members
  child : key = "childNode" → slotRestated (stepOfSlot other) = slotRestated (stepOfSlot value)
  branches : key = "conditionNodes" →
    branchesRestated (branchesOfList other) = branchesRestated (branchesOfList value)

/-- A value describes what it describes. -/
theorem describesAlike_self (key : String) (value : Value) : DescribesAlike key value value := by
  constructor <;> intros <;> rfl

section

variable {members others : List (String × Value)}
  (alike : MembersAlike DescribesAlike members others)
include alike

/-- Members that describe alike find equal values under a key without a form of its own. -/
theorem lookup_plain (key : String) (attributes : key ≠ "attributes") (child : key ≠ "childNode")
    (branches : key ≠ "conditionNodes") : others.lookup key = members.lookup key :=
  alike.read_lookup key id fun _ _ same => congrArg some (same.plain attributes child branches)

/-- Members that describe alike describe the same attributes in the one form. -/
theorem restated_attributes :
    restatedAttributes (((others.lookup "attributes").map (·.members)).getD []) =
      restatedAttributes (((members.lookup "attributes").map (·.members)).getD []) :=
  alike.read_lookup "attributes"
    (fun found => restatedAttributes ((found.map Value.members).getD []))
    fun _ _ same => same.attributes rfl

/-- Members that describe alike describe the same slot in the one form. -/
theorem restated_child :
    slotRestated ((others.lookup "childNode").bind stepOfSlot) =
      slotRestated ((members.lookup "childNode").bind stepOfSlot) :=
  alike.read_lookup "childNode" (fun found => slotRestated (found.bind stepOfSlot))
    fun _ _ same => same.child rfl

/-- Members that describe alike describe the same branches in the one form. -/
theorem restated_branches :
    branchesRestated (((others.lookup "conditionNodes").map branchesOfList).getD []) =
      branchesRestated (((members.lookup "conditionNodes").map branchesOfList).getD []) :=
  alike.read_lookup "conditionNodes"
    (fun found => branchesRestated ((found.map branchesOfList).getD []))
    fun _ _ same => same.branches rfl

/-- Members that describe alike describe steps that are the same in the one form. -/
theorem restated_ofMembers :
    (Step.ofMembers others).restated = (Step.ofMembers members).restated := by
  rw [Step.ofMembers_eq, Step.ofMembers_eq, Step.restated, Step.restated,
    lookup_plain alike "id" (by decide) (by decide) (by decide),
    lookup_plain alike "type" (by decide) (by decide) (by decide),
    lookup_plain alike "name" (by decide) (by decide) (by decide),
    restated_attributes alike, restated_child alike, restated_branches alike]

/-- Members that describe alike describe branches that are the same in the one form. -/
theorem restated_branchOfMembers :
    (branchOfMembers others).restated = (branchOfMembers members).restated := by
  rw [branchOfMembers_eq, branchOfMembers_eq, Branch.restated, Branch.restated,
    lookup_plain alike "id" (by decide) (by decide) (by decide),
    lookup_plain alike "name" (by decide) (by decide) (by decide),
    restated_attributes alike, restated_child alike]

end

/-- A draft of a tree and the same draft with the strategy code of one step replaced. The step is
the root, or lies below it: behind a step, or in a branch that a step lists. -/
inductive Step.Recoded (code other : Draft) : Draft → Draft → Prop
  | own (members others : DraftMembers) (whole image : Draft)
      (table : DraftMembers.Replaced code other strategyKey members others)
      (step : (documentSchema .step).Replaced (required "attributes" (.table .any))
        (.object members) (.object others) whole image) : Recoded code other whole image
  | behind (next nextImage whole image : Draft) (below : Recoded code other next nextImage)
      (step : (documentSchema .step).Replaced (nullable "childNode" (.record .step))
        next nextImage whole image) : Recoded code other whole image
  | branch (first firstImage branch branchImage : Draft) (position : Nat)
      (branches branchesImage : DraftItems) (whole image : Draft)
      (below : Recoded code other first firstImage)
      (begins : (documentSchema .branch).Replaced (nullable "childNode" (.record .step))
        first firstImage branch branchImage)
      (listed : DraftItems.Replaced branch branchImage position branches branchesImage)
      (step : (documentSchema .step).Replaced
        (required "conditionNodes" (.list (.record .branch))) (.array branches)
        (.array branchesImage) whole image) : Recoded code other whole image

/-- Two codes that say the same. -/
def CodesAlike (value other : Value) : Prop := strategy (some other) = strategy (some value)

/-- Values of an attribute that are the same in the one form. -/
def EntriesAlike (key : String) (value other : Value) : Prop :=
  restatedEntry key other = restatedEntry key value

/-- Attributes with entries that are the same in the one form are. -/
theorem restatedAttributes_eq (members others : List (String × Value))
    (alike : MembersAlike EntriesAlike members others) :
    restatedAttributes others = restatedAttributes members := by
  induction alike with
  | nil => rfl
  | @cons member other _ _ first _ inductionHypothesis =>
    obtain ⟨key, value⟩ := member
    obtain ⟨_, held⟩ := other
    obtain ⟨rfl, same⟩ := first
    simp only [restatedAttributes, List.map_cons] at inductionHypothesis ⊢
    rw [inductionHypothesis, same]

/-- Values that describe branches that are the same in the one form. -/
def BranchesAlike (value other : Value) : Prop :=
  (branchOfValue other).restated = (branchOfValue value).restated

/-- Branches that describe alike are the same in the one form. -/
theorem restated_branchesOfItems (items others : List Value)
    (alike : List.Forall₂ BranchesAlike items others) :
    branchesRestated (branchesOfItems others) = branchesRestated (branchesOfItems items) := by
  rw [branchesRestated_eq, branchesRestated_eq]
  induction alike with
  | nil => rfl
  | cons first _ inductionHypothesis =>
    rw [branchesOfItems, branchesOfItems, List.map_cons, List.map_cons, first, inductionHypothesis]

/-- Attributes that are the same in the one form describe alike. -/
theorem describesAlike_attributes (members others : List (String × Value))
    (alike : MembersAlike EntriesAlike members others) :
    DescribesAlike "attributes" (.object members) (.object others) := by
  have same := restatedAttributes_eq members others alike
  constructor <;> simp [Value.members, same]

/-- Objects that describe alike do so in a slot. -/
theorem describesAlike_child (value other : Value)
    (alike : ObjectsAlike DescribesAlike value other) : DescribesAlike "childNode" value other := by
  obtain ⟨members, others, rfl, rfl, alike⟩ := alike
  have same := restated_ofMembers alike
  constructor <;> simp [stepOfSlot, slotRestated, same]

/-- Objects that describe alike describe branches that are the same in the one form. -/
theorem branchesAlike_of_objectsAlike (value other : Value)
    (alike : ObjectsAlike DescribesAlike value other) : BranchesAlike value other := by
  obtain ⟨members, others, rfl, rfl, alike⟩ := alike
  exact restated_branchOfMembers alike

/-- Items that describe alike do so in a list of branches. -/
theorem describesAlike_branches (items others : List Value)
    (alike : List.Forall₂ BranchesAlike items others) :
    DescribesAlike "conditionNodes" (.array items) (.array others) := by
  have same := restated_branchesOfItems items others alike
  constructor <;> simp [branchesOfList, same]

/-- What a record is replaced in is no null. -/
theorem isNull_of_replaced {record : Json.Record RecordName} {field : Json.RecordField RecordName}
    {part other whole image : Draft} (replaced : record.Replaced field part other whole image) :
    whole.isNull = false ∧ image.isNull = false := by
  cases replaced <;> exact ⟨rfl, rfl⟩

/-- What a code is replaced in is no null. -/
theorem isNull_of_recoded {code other whole image : Draft}
    (recoded : Step.Recoded code other whole image) :
    whole.isNull = false ∧ image.isNull = false := by
  cases recoded with
  | own _ _ _ _ _ step => exact isNull_of_replaced step
  | behind _ _ _ _ _ step => exact isNull_of_replaced step
  | branch _ _ _ _ _ _ _ _ _ _ _ _ step => exact isNull_of_replaced step

/-- A tree in which a code is replaced by one that says the same is read as one that describes the
same in the one form, or it is refused for the same reason. -/
theorem read_recoded {code other : Draft} (codes : Agree id CodesAlike code.keep other.keep)
    {whole image : Draft} (recoded : Step.Recoded code other whole image) :
    Agree id (ObjectsAlike DescribesAlike) (whole.read documentSchema (.record .step))
      (image.read documentSchema (.record .step)) := by
  induction recoded with
  | own members others whole image table step =>
    have kept : Agree id (EntriesAlike strategyKey) code.keep other.keep := by
      apply codes.imp
      intro value image same
      simp only [EntriesAlike, restatedEntry, if_true, restatedCode]
      rw [same]
    have same (key : String) (value : Value) : EntriesAlike key value value := rfl
    have tables := Json.readTable_replaced same documentSchema strategyKey members others table kept
      List.Forall₂.nil
    apply Json.read_record_replaced describesAlike_self documentSchema rfl rfl .step whole image
      step
    simp only [required, Draft.read]
    exact tables.map describesAlike_attributes
  | behind next nextImage whole image below step inductionHypothesis =>
    obtain ⟨filled, filledImage⟩ := isNull_of_recoded below
    exact Json.read_record_replaced describesAlike_self documentSchema filled filledImage .step
      whole image step (inductionHypothesis.imp describesAlike_child)
  | branch first firstImage branch branchImage position branches branchesImage whole image below
      begins listed step inductionHypothesis =>
    obtain ⟨filled, filledImage⟩ := isNull_of_recoded below
    have inBranch := Json.read_record_replaced describesAlike_self documentSchema filled filledImage
      .branch branch branchImage begins (inductionHypothesis.imp describesAlike_child)
    have same (value : Value) : BranchesAlike value value := rfl
    have inList := Json.read_items_replaced documentSchema same (.record .branch) position branches
      branchesImage listed (inBranch.imp branchesAlike_of_objectsAlike)
    apply Json.read_record_replaced describesAlike_self documentSchema rfl rfl .step whole image
      step
    simp only [required, Draft.read]
    exact inList.map describesAlike_branches

/-- A tree is refused if the code of a step is. -/
theorem read_recoded_refused {code other : Draft} (refused : Refused code.keep)
    {whole image : Draft} (recoded : Step.Recoded code other whole image) :
    Refused (whole.read documentSchema (.record .step)) := by
  induction recoded with
  | own members others whole image table step =>
    have inTable := Json.readTable_refused documentSchema strategyKey members others table refused
      []
    apply Json.read_record_refused documentSchema rfl ?_ .step whole image step
    simp only [required, Draft.read]
    exact inTable.bind _
  | behind next nextImage whole image below step inductionHypothesis =>
    exact Json.read_record_refused documentSchema (isNull_of_recoded below).1 inductionHypothesis
      .step whole image step
  | branch first firstImage branch branchImage position branches branchesImage whole image below
      begins listed step inductionHypothesis =>
    have inBranch := Json.read_record_refused documentSchema (isNull_of_recoded below).1
      inductionHypothesis .branch branch branchImage begins
    have inList := Json.read_items_refused documentSchema (.record .branch) position branches
      branchesImage listed inBranch
    apply Json.read_record_refused documentSchema rfl ?_ .step whole image step
    simp only [required, Draft.read]
    exact inList.bind _

/-- Two documents of trees that are the same but for the strategy code of one step, and for the
blanks between tokens and the spelling of texts. -/
structure Recodes (code other : Draft) (text image : String) : Prop where
  drafts : Step.Recoded code other (Json.scan text.toList).1 (Json.scan image.toList).1
  after : (Json.scan image.toList).2 = (Json.scan text.toList).2

/-- The net of a document, or why there is none: it is read as a tree, and the tree is compiled. -/
def compileText (text processId : String) (processName : Option String) :
    Except CompileError Net := do
  let root ← rootOfText text
  (compile root processId processName).mapError .defective

/-- A document that is read as a tree is compiled like the tree. -/
theorem compileText_of_read (text : String) (root : Step) (read : Step.ofText text = .ok root)
    (processId : String) (processName : Option String) :
    compileText text processId processName =
      (compile root processId processName).mapError .defective := by
  simp only [compileText, rootOfText, read]
  rfl

/-- A document that cannot be read is not compiled. -/
theorem compileText_of_unread (text : String) (fault : Json.ReadError)
    (unread : Step.ofText text = .error fault) (processId : String) (processName : Option String) :
    compileText text processId processName = .error (.unreadable fault) := by
  simp only [compileText, rootOfText, unread]
  rfl

section

variable {code other : Draft} {text image : String} (recodes : Recodes code other text image)
include recodes

/-- Documents with codes that say the same are read as trees that are the same in the one form, or
refused for the same reason. -/
theorem ofText_recoded (codes : Agree id CodesAlike code.keep other.keep) :
    Agree id (fun root changed => changed.restated = root.restated) (Step.ofText text)
      (Step.ofText image) := by
  have values : Agree id (ObjectsAlike DescribesAlike)
      (Json.readText documentSchema (.record .step) text)
      (Json.readText documentSchema (.record .step) image) := by
    simp only [Json.readText, recodes.after]
    apply (read_recoded codes recodes.drafts).bind
    intro value image alike
    split
    · exact alike
    · rfl
  apply values.map
  rintro _ _ ⟨members, others, rfl, rfl, alike⟩
  exact restated_ofMembers alike

/-- Documents with codes that say the same are compiled with the same result. -/
theorem compileText_recoded (codes : Agree id CodesAlike code.keep other.keep) (processId : String)
    (processName : Option String) :
    compileText image processId processName = compileText text processId processName := by
  have agree := ofText_recoded recodes codes
  cases read : Step.ofText text with
  | error fault =>
    rw [read] at agree
    rw [compileText_of_unread text fault read, compileText_of_unread image fault agree.error_left]
  | ok root =>
    rw [read] at agree
    obtain ⟨changed, readChanged, same⟩ := agree.ok_left
    have compiled : compile changed processId processName = compile root processId processName := by
      rw [← compile_restated changed, same, compile_restated]
    rw [compileText_of_read text root read, compileText_of_read image changed readChanged, compiled]

/-- A document is refused if the code is. -/
theorem compileText_refused (refused : Refused code.keep) (processId : String)
    (processName : Option String) : Refused (compileText text processId processName) := by
  obtain ⟨fault, whole⟩ := read_recoded_refused refused recodes.drafts
  simp only [compileText, rootOfText, Step.ofText, Json.readText, whole]
  exact ⟨_, rfl⟩

end

end Workflow
