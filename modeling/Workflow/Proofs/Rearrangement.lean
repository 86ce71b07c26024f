import Workflow.Proofs.Acceptance
import Workflow.Proofs.MemberOrder
import Workflow.Proofs.Recoding

/-!
# Documents laid out in another way

A designer is free to lay out a document: blanks may stand between tokens, the members of an object
may change places, and members that mean nothing to the reader may be put in. `Draft.Rearranged`
relates two drafts of which one arises from the other by a single such change, wherever it stands;
`Rearranges` two texts whose drafts are connected by any number of them, in either direction, and
that differ in blanks besides.

The results of reading two such drafts are settled alike: both are refused, or both describe the
same (`read_rearranged`). So a text that is read as a tree is read as the same tree however it is
laid out (`ofText_rearranged`).
-/

namespace Workflow

/-- Two results are values that are related, or both are refusals, whatever the causes. -/
def SettledAlike {ε ζ α β : Type} (related : α → β → Prop) : Except ε α → Except ζ β → Prop
  | .ok value, .ok other => related value other
  | .error _, .error _ => True
  | _, _ => False

section

variable {ε ζ α β γ δ : Type} {related : α → β → Prop} {further : γ → δ → Prop}

/-- Results are settled alike if each value of one has a related value of the other, and the other
has none besides. -/
theorem settledAlike_of_values {result : Except ε α} {other : Except ζ β}
    (there : ∀ value, result = .ok value → ∃ image, other = .ok image ∧ related value image)
    (back : ∀ image, other = .ok image → ∃ value, result = .ok value) :
    SettledAlike related result other := by
  cases result with
  | ok value =>
    obtain ⟨image, rfl, same⟩ := there value rfl
    exact same
  | error fault =>
    cases other with
    | error cause => exact trivial
    | ok image =>
      obtain ⟨value, found⟩ := back image rfl
      cases found

/-- Results that agree are settled alike. -/
theorem Agree.settledAlike {result : Except ε α} {other : Except ε β}
    (agree : Agree id related result other) : SettledAlike related result other := by
  cases result with
  | ok value =>
    obtain ⟨image, rfl, same⟩ := agree.ok_left
    exact same
  | error fault =>
    obtain rfl := agree.error_left
    exact trivial

/-- Results that are settled alike still are if their values are mapped to related ones. -/
theorem SettledAlike.map {result : Except ε α} {other : Except ζ β} {f : α → γ} {g : β → δ}
    (alike : SettledAlike related result other)
    (next : ∀ value image, related value image → further (f value) (g image)) :
    SettledAlike further (result.map f) (other.map g) := by
  cases result <;> cases other
  case ok.ok value image => exact next value image alike
  case error.error => exact trivial
  case ok.error => exact alike.elim
  case error.ok => exact alike.elim

/-- Results that are settled alike still are if their values are related in a weaker sense. -/
theorem SettledAlike.imp {weaker : α → β → Prop} {result : Except ε α} {other : Except ζ β}
    (alike : SettledAlike related result other)
    (next : ∀ value image, related value image → weaker value image) :
    SettledAlike weaker result other := by
  cases result <;> cases other
  case ok.ok value image => exact next value image alike
  case error.error => exact trivial
  case ok.error => exact alike.elim
  case error.ok => exact alike.elim

/-- Wholes are settled alike if their parts are, provided that wholes agree if the parts do, and a
whole is refused if its part is. -/
theorem SettledAlike.within {part : Except ε α} {other : Except ε β} {whole : Except ε γ}
    {image : Except ε δ} (alike : SettledAlike related part other)
    (agree : Agree id related part other → Agree id further whole image)
    (refused : Json.Refused part → Json.Refused whole)
    (refusedOther : Json.Refused other → Json.Refused image) :
    SettledAlike further whole image := by
  cases part <;> cases other
  case ok.ok => exact (agree alike).settledAlike
  case error.error fault cause =>
    obtain ⟨_, rfl⟩ := refused ⟨fault, rfl⟩
    obtain ⟨_, rfl⟩ := refusedOther ⟨cause, rfl⟩
    exact trivial
  case ok.error => exact alike.elim
  case error.ok => exact alike.elim

end

namespace Json

/-- A value that may stand in a document, because some text spells it. -/
def Draft.Spellable (draft : Draft) : Prop := ∃ text, SpellsValue draft text

variable {ρ : Type} (schema : Schema ρ)

/-- A draft of a shape and the same draft with one thing arranged in another way. The members of a
lenient record change places, or one of no field is put in; the members of a table change places;
or this happens to a part: the value of a field of a lenient record, an item of a list or a member
of a table. -/
inductive Draft.Rearranged : Shape ρ → Draft → Draft → Prop
  | fields (name : ρ) (members others : List (Spelling × Draft))
      (lenient : (schema name).lenient) (moved : members.Perm others) :
      Rearranged (.record name) (.object (.ofList members)) (.object (.ofList others))
  | foreign (name : ρ) (before after : List (Spelling × Draft)) (key : Spelling) (draft : Draft)
      (title : String) (lenient : (schema name).lenient) (named : key.string = .ok title)
      (unknown : (schema name).field? title = none) (spelled : draft.Spellable) :
      Rearranged (.record name) (.object (.ofList (before ++ after)))
        (.object (.ofList (before ++ (key, draft) :: after)))
  | entries (item : Shape ρ) (members others : List (Spelling × Draft))
      (moved : members.Perm others) (distinct : (members.map (·.1.string)).Nodup) :
      Rearranged (.table item) (.object (.ofList members)) (.object (.ofList others))
  | inField (name : ρ) (field : RecordField ρ) (part other whole image : Draft)
      (lenient : (schema name).lenient) (below : Rearranged field.shape part other)
      (place : (schema name).Replaced field part other whole image) :
      Rearranged (.record name) whole image
  | inItem (item : Shape ρ) (position : Nat) (part other : Draft) (items others : DraftItems)
      (below : Rearranged item part other)
      (place : DraftItems.Replaced part other position items others) :
      Rearranged (.list item) (.array items) (.array others)
  | inEntry (title : String) (part other : Draft) (members others : DraftMembers)
      (below : Rearranged .any part other)
      (place : DraftMembers.Replaced part other title members others) :
      Rearranged (.table .any) (.object members) (.object others)
  | anyList (draft other : Draft) (below : Rearranged (.list .any) draft other) :
      Rearranged .any draft other
  | anyTable (draft other : Draft) (below : Rearranged (.table .any) draft other) :
      Rearranged .any draft other

/-- What is rearranged is no null. -/
theorem Draft.Rearranged.filled {shape : Shape ρ} {draft other : Draft}
    (rearranged : Rearranged schema shape draft other) :
    draft.isNull = false ∧ other.isNull = false := by
  induction rearranged with
  | fields | foreign | entries | inItem | inEntry => exact ⟨rfl, rfl⟩
  | inField _ _ _ _ _ _ _ _ place => cases place <;> exact ⟨rfl, rfl⟩
  | anyList _ _ _ inductionHypothesis => exact inductionHypothesis
  | anyTable _ _ _ inductionHypothesis => exact inductionHypothesis

/-- Any array is kept like a list of anything. -/
theorem read_items_any (items : DraftItems) : items.read schema .any = items.keep := by
  induction items using DraftItems.chain with
  | closed | cut | noComma | commaAtEnd => rfl
  | cons item rest inductionHypothesis =>
    simp only [DraftItems.read, DraftItems.keep, Draft.read, inductionHypothesis]

/-- Any object is kept like a table of anything. -/
theorem read_members_any (members : DraftMembers) (before : List (String × Value)) :
    members.readTable schema .any before = members.keep before := by
  induction members using DraftMembers.chain generalizing before with
  | closed | cut | cutAfterComma | noComma | commaAtEnd | stray => rfl
  | cons key value rest inductionHypothesis =>
    simp only [DraftMembers.readTable, DraftMembers.keep, Draft.read, inductionHypothesis]

end Json

open Json (Value Shape Draft DraftItems DraftMembers MembersAlike ObjectsAlike)

/-- Values at a place of a tree that describe the same: the same step or branch where one is wanted,
lists item by item, and else only equal values. -/
def Describes : Shape RecordName → Value → Value → Prop
  | .record .step, value, other => stepOfSlot other = stepOfSlot value
  | .record .branch, value, other => branchOfValue other = branchOfValue value
  | .list item, .array items, .array others => List.Forall₂ (Describes item) items others
  | _, value, other => other = value

/-- A value describes what it describes. -/
theorem describes_self (shape : Shape RecordName) (value : Value) :
    Describes shape value value := by
  induction shape generalizing value with
  | list item inductionHypothesis =>
    cases value with
    | array items => exact List.forall₂_same.mpr fun item _ => inductionHypothesis item
    | null | bool | number | string | object => rfl
  | record name => cases name <;> rfl
  | any | text | flag | real | variant | table => rfl

/-- Items that describe the same branches, one by one, describe the same list of branches. -/
theorem branchesOfItems_eq {items others : List Value}
    (each : List.Forall₂ (Describes (.record .branch)) items others) :
    branchesOfItems others = branchesOfItems items := by
  induction each with
  | nil => rfl
  | cons first _ inductionHypothesis =>
    rw [branchesOfItems, branchesOfItems, inductionHypothesis]
    exact congrArg (· :: _) first

/-- Lists of the same branches are the same branches. -/
theorem branchesOfList_eq (value other : Value)
    (same : Describes (.list (.record .branch)) value other) :
    branchesOfList other = branchesOfList value := by
  cases value with
  | array items =>
    cases other with
    | array others => exact branchesOfItems_eq same
    | null | bool | number | string | object => cases same
  | null | bool | number | string | object =>
    cases same
    rfl

/-- Members of a record that give each field values that describe the same, or none. -/
def FieldsDescribe (name : RecordName) (members others : List (String × Value)) : Prop :=
  ∀ key field, (documentSchema name).field? key = some field →
    Option.Rel (Describes field.shape) (members.lookup key) (others.lookup key)

section

variable {shape : Shape RecordName} {found other : Option Value}

/-- What is read from the value of a field, or from none, is the same for values that describe the
same, if it is for each. -/
theorem read_of_rel {β : Type} (same : Option.Rel (Describes shape) found other)
    (read : Option Value → β)
    (alike : ∀ value image, Describes shape value image → read (some image) = read (some value)) :
    read other = read found := by
  cases same with
  | none => rfl
  | some values => exact alike _ _ values

/-- Values of a shape without another meaning that describe the same are equal. -/
theorem eq_of_rel (same : Option.Rel (Describes shape) found other)
    (plain : ∀ value image, Describes shape value image → image = value) : other = found :=
  read_of_rel same id fun value image values => congrArg some (plain value image values)

end

section

variable {name : RecordName} {members others : List (String × Value)}

/-- Members that give the fields of a step values that describe the same describe the same step. -/
theorem ofMembers_of_fieldsDescribe (alike : FieldsDescribe .step members others) :
    Step.ofMembers others = Step.ofMembers members := by
  have child := read_of_rel (alike "childNode" _ rfl) (·.bind stepOfSlot) fun _ _ same => same
  have branches := read_of_rel (alike "conditionNodes" _ rfl) (·.map branchesOfList)
    fun _ _ same => congrArg some (branchesOfList_eq _ _ same)
  rw [Step.ofMembers_eq, Step.ofMembers_eq, child, branches,
    eq_of_rel (alike "id" _ rfl) fun _ _ same => same,
    eq_of_rel (alike "type" _ rfl) fun _ _ same => same,
    eq_of_rel (alike "name" _ rfl) fun _ _ same => same,
    eq_of_rel (alike "attributes" _ rfl) fun _ _ same => same]

/-- Members that give the fields of a branch values that describe the same describe the same
branch. -/
theorem branchOfMembers_of_fieldsDescribe (alike : FieldsDescribe .branch members others) :
    branchOfMembers others = branchOfMembers members := by
  have child := read_of_rel (alike "childNode" _ rfl) (·.bind stepOfSlot) fun _ _ same => same
  rw [branchOfMembers_eq, branchOfMembers_eq, child,
    eq_of_rel (alike "id" _ rfl) fun _ _ same => same,
    eq_of_rel (alike "name" _ rfl) fun _ _ same => same,
    eq_of_rel (alike "attributes" _ rfl) fun _ _ same => same]

/-- Only steps and branches are lenient, and objects that give their fields values that describe the
same describe the same. -/
theorem describes_of_fieldsDescribe (lenient : (documentSchema name).lenient)
    (alike : FieldsDescribe name members others) :
    Describes (.record name) (.object members) (.object others) := by
  cases name with
  | step => exact congrArg some (ofMembers_of_fieldsDescribe alike)
  | branch => exact branchOfMembers_of_fieldsDescribe alike
  | net | element | extension | extensionAttribute | flow | diagram | bounds | point =>
    cases lenient

/-- Members found under the same keys give the fields values that describe the same. -/
theorem fieldsDescribe_of_lookups (same : ∀ key, others.lookup key = members.lookup key) :
    FieldsDescribe name members others := by
  intro key field _
  rw [same key]
  cases members.lookup key with
  | none => exact .none
  | some value => exact .some (describes_self field.shape value)

/-- Values of the field with a key that describe the same. -/
def FieldDescribes (name : RecordName) (key : String) (value other : Value) : Prop :=
  ∀ field, (documentSchema name).field? key = some field → Describes field.shape value other

/-- A value describes what it describes, whatever the field. -/
theorem fieldDescribes_self (name : RecordName) (key : String) (value : Value) :
    FieldDescribes name key value value :=
  fun field _ => describes_self field.shape value

/-- Values of a field that describe the same do so under its key. -/
theorem fieldDescribes_of_known {field : Json.RecordField RecordName}
    (known : (documentSchema name).field? field.key = some field) (value other : Value)
    (same : Describes field.shape value other) : FieldDescribes name field.key value other := by
  intro found again
  rw [known] at again
  cases again
  exact same

/-- Members that are alike but for values of fields that describe the same give the fields such
values. -/
theorem fieldsDescribe_of_membersAlike
    (alike : MembersAlike (FieldDescribes name) members others) :
    FieldsDescribe name members others := by
  intro key field known
  induction alike with
  | nil => exact .none
  | @cons member other _ _ first _ inductionHypothesis =>
    rw [List.lookup_cons, List.lookup_cons, first.1]
    by_cases found : key = member.1
    · rw [beq_iff_eq.mpr found]
      exact .some (first.2 field (found ▸ known))
    · rw [beq_false_of_ne found]
      exact inductionHypothesis

/-- Objects with members that are alike but for such values describe the same. -/
theorem describes_of_objectsAlike (lenient : (documentSchema name).lenient) (value other : Value)
    (alike : ObjectsAlike (FieldDescribes name) value other) :
    Describes (.record name) value other := by
  obtain ⟨members, others, rfl, rfl, alike⟩ := alike
  exact describes_of_fieldsDescribe lenient (fieldsDescribe_of_membersAlike alike)

/-- A field of a record is found under its key. -/
theorem field?_of_listed (position : Nat)
    (field : Json.RecordField RecordName)
    (listed : (documentSchema name).fields[position]? = some field) :
    (documentSchema name).field? field.key = some field := by
  have distinct : ((documentSchema name).fields.map (·.key)).Nodup := by
    cases name <;> decide
  exact Json.find?_key _ _ distinct field (List.mem_of_getElem? listed)

/-- A part of a record is the value of the field that is found under its key. -/
theorem known_of_replaced {field : Json.RecordField RecordName} {part other whole image : Draft}
    (place : (documentSchema name).Replaced field part other whole image) :
    (documentSchema name).field? field.key = some field := by
  cases place with
  | object _ _ known _ => exact known
  | array _ _ position listed _ => exact field?_of_listed position field listed

end

/-- Equal lists of anything are equal. -/
theorem eq_of_describes_list (value other : Value) (same : Describes (.list .any) value other) :
    other = value := by
  cases value with
  | array items =>
    cases other with
    | array others =>
      have each : List.Forall₂ (fun item other => other = item) items others := same
      rw [eq_of_forall₂ (fun _ _ same => same) items others each]
    | null | bool | number | string | object => cases same
  | null | bool | number | string | object => exact same

/-- A table with members that are equal one by one is equal. -/
theorem eq_of_membersAlike {members others : List (String × Value)}
    (alike : MembersAlike (fun _ => Describes .any) members others) : others = members := by
  induction alike with
  | nil => rfl
  | cons first _ inductionHypothesis =>
    rw [inductionHypothesis, Prod.ext first.1 first.2]

/-- A result is settled like itself. -/
theorem settledAlike_self {ε α : Type} {related : α → α → Prop} (result : Except ε α)
    (same : ∀ value, related value value) : SettledAlike related result result := by
  cases result with
  | ok value => exact same value
  | error fault => exact trivial

/-- Results of reading drafts of which one arises from the other by one rearrangement are settled
alike. -/
theorem read_rearranged {shape : Shape RecordName} {draft other : Draft}
    (rearranged : Draft.Rearranged documentSchema shape draft other) :
    SettledAlike (Describes shape) (draft.read documentSchema shape)
      (other.read documentSchema shape) := by
  induction rearranged with
  | fields name members others lenient moved =>
    simp only [Draft.read]
    apply SettledAlike.map (settledAlike_of_values
      (Json.readRecord_perm documentSchema (documentSchema name) lenient moved) ?back)
    case back =>
      intro image read
      obtain ⟨values, found, _⟩ :=
        Json.readRecord_perm documentSchema (documentSchema name) lenient moved.symm image read
      exact ⟨values, found⟩
    intro values image same
    exact describes_of_fieldsDescribe lenient (fieldsDescribe_of_lookups same)
  | foreign name before after key draft title lenient named unknown spelled =>
    obtain ⟨text, spelled⟩ := spelled
    simp only [Draft.read, Json.readRecord_foreign documentSchema (documentSchema name) before after
      key draft title named unknown spelled.pass]
    exact settledAlike_self _ fun value => describes_self _ value
  | entries item members others moved distinct =>
    have distinctOther := (moved.map (·.1.string)).nodup_iff.mp distinct
    simp only [Draft.read]
    have alike : SettledAlike (fun values image => image = values)
        ((DraftMembers.ofList members).readTable documentSchema item [])
        ((DraftMembers.ofList others).readTable documentSchema item []) := by
      apply settledAlike_of_values
      · intro values read
        exact ⟨values, Json.readTable_perm documentSchema item moved distinct [] values read, rfl⟩
      · intro image read
        exact ⟨image,
          Json.readTable_perm documentSchema item moved.symm distinctOther [] image read⟩
    exact alike.map fun values image same => congrArg Value.object same
  | inField name field part other whole image lenient below place inductionHypothesis =>
    obtain ⟨filled, filledOther⟩ := below.filled
    have known := known_of_replaced place
    have alike := inductionHypothesis.within
      (fun agree => Json.read_record_replaced (fieldDescribes_self name) documentSchema filled
        filledOther name whole image place (agree.imp (fieldDescribes_of_known known)))
      (fun refused => Json.read_record_refused documentSchema filled refused name whole image place)
      (fun refused => Json.read_record_refused documentSchema filledOther refused name image whole
        place.symm)
    exact alike.imp (describes_of_objectsAlike lenient)
  | inItem item position part other items others below place inductionHypothesis =>
    have alike := inductionHypothesis.within
      (fun agree => Json.read_items_replaced documentSchema (describes_self item) item position
        items others place agree)
      (fun refused => Json.read_items_refused documentSchema item position items others place
        refused)
      (fun refused => Json.read_items_refused documentSchema item position others items place.symm
        refused)
    simp only [Draft.read]
    exact alike.map fun values image same => same
  | inEntry title part other members others below place inductionHypothesis =>
    simp only [Draft.read] at inductionHypothesis ⊢
    have alike : SettledAlike (MembersAlike fun _ => Describes .any)
        (members.readTable documentSchema .any []) (others.readTable documentSchema .any []) :=
      inductionHypothesis.within
        (fun agree => Json.readTable_replaced (fun _ => describes_self .any) documentSchema title
          members others place agree .nil)
        (fun refused => Json.readTable_refused documentSchema title members others place refused [])
        (fun refused => Json.readTable_refused documentSchema title others members place.symm
          refused [])
    exact alike.map fun values image same => congrArg Value.object (eq_of_membersAlike same)
  | anyList draft other below inductionHypothesis =>
    cases below with
    | inItem _ _ _ _ items others _ _ =>
      simp only [Draft.read, Json.read_items_any, Draft.keep] at inductionHypothesis ⊢
      exact inductionHypothesis.imp eq_of_describes_list
  | anyTable draft other below inductionHypothesis =>
    cases below with
    | entries _ members others _ _ =>
      simp only [Draft.read, Json.read_members_any, Draft.keep] at inductionHypothesis ⊢
      exact inductionHypothesis
    | inEntry _ _ _ members others _ _ =>
      simp only [Draft.read, Json.read_members_any, Draft.keep] at inductionHypothesis ⊢
      exact inductionHypothesis

/-- The tree that a draft describes, unless it is refused. -/
def treeOfDraft (draft : Draft) : Option Step :=
  ((draft.read documentSchema (.record .step)).map Step.ofValue).toOption

/-- A step is what stands in a slot, and an empty step if nothing does. -/
theorem ofValue_eq_getD (value : Value) : Step.ofValue value = (stepOfSlot value).getD {} := by
  cases value <;> rfl

/-- Drafts that are settled alike describe the same tree. -/
theorem treeOfDraft_of_settledAlike {draft other : Draft}
    (alike : SettledAlike (Describes (.record .step)) (draft.read documentSchema (.record .step))
      (other.read documentSchema (.record .step))) : treeOfDraft other = treeOfDraft draft := by
  have trees : SettledAlike (fun tree image => image = tree)
      ((draft.read documentSchema (.record .step)).map Step.ofValue)
      ((other.read documentSchema (.record .step)).map Step.ofValue) := by
    apply alike.map
    intro value image same
    have slots : stepOfSlot image = stepOfSlot value := same
    rw [ofValue_eq_getD, ofValue_eq_getD, slots]
  unfold treeOfDraft
  generalize (draft.read documentSchema (.record .step)).map Step.ofValue = result at trees
  generalize (other.read documentSchema (.record .step)).map Step.ofValue = image at trees
  cases result <;> cases image
  case ok.ok => exact congrArg some trees
  case error.error => rfl
  case ok.error => exact trees.elim
  case error.ok => exact trees.elim

/-- However often a draft is rearranged, in either direction, it describes the same tree. -/
theorem treeOfDraft_rearranged {draft other : Draft}
    (rearranged : Relation.EqvGen (Draft.Rearranged documentSchema (.record .step)) draft other) :
    treeOfDraft other = treeOfDraft draft := by
  induction rearranged with
  | rel draft other once => exact treeOfDraft_of_settledAlike (read_rearranged once)
  | refl draft => rfl
  | symm draft other _ inductionHypothesis => exact inductionHypothesis.symm
  | trans draft between other _ _ first second => exact second.trans first

/-- The text of a draft is read as the tree that the draft describes. -/
theorem ofText_eq_ok_iff {draft : Draft} (text : String) (spelled : Json.Spells draft text.toList)
    (root : Step) : Step.ofText text = .ok root ↔ treeOfDraft draft = some root := by
  rw [Step.ofText, Json.readText_spelled documentSchema (.record .step) text spelled, treeOfDraft]
  cases (draft.read documentSchema (.record .step)).map Step.ofValue <;> simp [Except.toOption]

/-- Two texts of a document laid out in two ways: blanks aside, one arises from the other by any
number of rearrangements. -/
def Rearranges (text image : String) : Prop :=
  ∃ draft other, Json.Spells draft text.toList ∧ Json.Spells other image.toList ∧
    Relation.EqvGen (Draft.Rearranged documentSchema (.record .step)) draft other

/-- A text that is read as a tree is a document, and however it is laid out it is read as the same
tree and compiled with the same result. -/
theorem ofText_rearranged (text : String) (root : Step) (read : Step.ofText text = .ok root) :
    Rearranges text text ∧ ∀ image, Rearranges text image →
      Step.ofText image = .ok root ∧ ∀ processId processName,
        compileText image processId processName = compileText text processId processName := by
  constructor
  · obtain ⟨value, found, _⟩ := (InOrder.map_ok_iff _ _ _).mp read
    have spelled := Json.spells_of_readText documentSchema (.record .step) text value found
    exact ⟨_, _, spelled, spelled, .refl _⟩
  · rintro image ⟨draft, other, spelled, spelledOther, rearranged⟩
    have readImage : Step.ofText image = .ok root := by
      rw [ofText_eq_ok_iff image spelledOther, treeOfDraft_rearranged rearranged]
      exact (ofText_eq_ok_iff text spelled root).mp read
    refine ⟨readImage, fun processId processName => ?_⟩
    rw [compileText_of_read image root readImage, compileText_of_read text root read]

/-- A task with an object in a list among its attributes. -/
def annotatedTask : Step :=
  { id := some "t"
    typeName := "USER_TASK"
    attributes := [
      ("a", .array [.object [("x", .null), ("y", .bool false)]]),
      ("b", .bool true)] }

/-- The members of the object. -/
def pointMembers : List (Json.Spelling × Draft) :=
  [(Json.spell "x".toList, .null), (Json.spell "y".toList, .bool false)]

/-- The attributes of the task, with the object in the list. -/
def attributeMembers (point : Draft) : List (Json.Spelling × Draft) :=
  [(Json.spell "a".toList, .array (.cons point .closed)), (Json.spell "b".toList, .bool true)]

/-- The members of the task with its attributes. -/
def taskMembers (attributes : Draft) : List (Json.Spelling × Draft) :=
  [(Json.spell "id".toList, .string (Json.spell "t".toList)),
    (Json.spell "type".toList, .string (Json.spell "USER_TASK".toList)),
    (Json.spell "attributes".toList, attributes)]

/-- A member that no step has. -/
def note : Json.Spelling × Draft := (Json.spell "note".toList, .array (.cons .null .closed))

/-- An object with the given members. -/
def objectOf (members : List (Json.Spelling × Draft)) : Draft := .object (.ofList members)

/-- The task with its members in the opposite order everywhere, behind the member that no step
has. -/
def relaidTask : Value :=
  .object [
    ("note", .array [.null]),
    ("attributes", .object [
      ("b", .bool true),
      ("a", .array [.object [("y", .bool false), ("x", .null)]])]),
    ("type", .string "USER_TASK"),
    ("id", .string "t")]

/-- The draft of the task is made of its members. -/
theorem draft_annotatedTask : annotatedTask.toValue.draft =
    objectOf (taskMembers (objectOf (attributeMembers (objectOf pointMembers)))) := by
  rfl

/-- The draft of the other task has the members in the opposite order. -/
theorem draft_relaidTask : relaidTask.draft = objectOf (note :: (taskMembers (objectOf
    (attributeMembers (objectOf pointMembers.reverse)).reverse)).reverse) := by
  rfl

/-- The two texts are the same but for their layout: from the inside to the outside, the members of
the object, of the attributes and of the task change places, and the note is put in front. -/
theorem rearranges_annotatedTask : Rearranges annotatedTask.text relaidTask.indented := by
  have spelled : Json.Spells annotatedTask.toValue.draft annotatedTask.text.toList := by
    rw [Step.text, Value.compact, String.toList_ofList]
    exact Json.spells_text .compact _ (by decide)
  have spelledOther : Json.Spells relaidTask.draft relaidTask.indented.toList := by
    rw [Value.indented, String.toList_ofList]
    exact Json.spells_text .indented _ (by decide)
  refine ⟨_, _, spelled, spelledOther, ?_⟩
  rw [draft_annotatedTask, draft_relaidTask]
  have distinct (first second : String) (value other : Draft) (apart : first ≠ second) :
      ([(Json.spell first.toList, value), (Json.spell second.toList, other)].map
        (·.1.string)).Nodup := by
    simp [Json.string_spell, apart]
  have inAttributes (attributes image : Draft)
      (below : Draft.Rearranged documentSchema (.table .any) attributes image) :
      Relation.EqvGen (Draft.Rearranged documentSchema (.record .step))
        (objectOf (taskMembers attributes)) (objectOf (taskMembers image)) :=
    .rel _ _ (.inField .step (required "attributes" (.table .any)) attributes image _ _ rfl below
      (.object _ _ rfl (.later _ _ _ _ (.later _ _ _ _ (.here _ _ (Json.string_spell _))))))
  have point : Draft.Rearranged documentSchema (.table .any) (objectOf pointMembers)
      (objectOf pointMembers.reverse) :=
    .entries .any _ _ (List.reverse_perm _).symm (distinct "x" "y" _ _ (by decide))
  have inList : Draft.Rearranged documentSchema (.table .any)
      (objectOf (attributeMembers (objectOf pointMembers)))
      (objectOf (attributeMembers (objectOf pointMembers.reverse))) :=
    .inEntry "a" _ _ _ _ (.anyList _ _ (.inItem .any 0 _ _ _ _ (.anyTable _ _ point) (.here _)))
      (.here _ _ (Json.string_spell "a"))
  have attributes (point : Draft) : Draft.Rearranged documentSchema (.table .any)
      (objectOf (attributeMembers point)) (objectOf (attributeMembers point).reverse) :=
    .entries .any _ _ (List.reverse_perm _).symm (distinct "a" "b" _ _ (by decide))
  have fields (members : List (Json.Spelling × Draft)) :
      Draft.Rearranged documentSchema (.record .step) (objectOf members)
        (objectOf members.reverse) :=
    .fields RecordName.step _ _ rfl (List.reverse_perm members).symm
  have noted (members : List (Json.Spelling × Draft)) :
      Draft.Rearranged documentSchema (.record .step) (objectOf members)
        (objectOf (note :: members)) :=
    .foreign RecordName.step [] members _ _ "note" rfl (Json.string_spell "note") rfl
      ⟨_, .array [] .null _ .closed _ Json.blanks_nil .null (.closed [] Json.blanks_nil)⟩
  have inside := (inAttributes _ _ inList).trans _ _ _
    (inAttributes _ _ (attributes (objectOf pointMembers.reverse)))
  have outside := Relation.EqvGen.trans _ _ _ (.rel _ _ (fields (taskMembers
    (objectOf (attributeMembers (objectOf pointMembers.reverse)).reverse)))) (.rel _ _ (noted _))
  exact inside.trans _ _ _ outside

/-- The text of the task is read as the task, and so is the other text. -/
theorem ofText_rearranged_annotatedTask :
    Step.ofText annotatedTask.text = .ok annotatedTask ∧
      Step.ofText relaidTask.indented = .ok annotatedTask := by
  have read : Step.ofText annotatedTask.text = .ok annotatedTask := by
    obtain ⟨value, taken, described⟩ := readText_of_storable annotatedTask (by decide)
    rw [Step.ofText, taken]
    exact congrArg Except.ok described
  have laidOut := (ofText_rearranged annotatedTask.text annotatedTask read).2
  exact ⟨read, (laidOut _ rearranges_annotatedTask).1⟩

end Workflow
