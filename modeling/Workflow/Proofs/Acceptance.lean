import Workflow.Json.Read
import Workflow.Proofs.Form

/-!
# What is read is spelled by the grammar

Reading a draft goes through all of it, whatever shape is wanted: a value that is kept, the name of
a variant, a field that is taken and a member that is passed over are each looked at to their end.
So a draft that is read has no fault, and a text that is read is a document of the grammar
(`spells_of_readText`). A written value has none either, so its text is a document in both styles
(`spells_text`).
-/

namespace Workflow.Json

/-- A string that is decoded has no fault. -/
theorem Spelling.pass_of_decode : ∀ (spelling : Spelling) (characters : List Char),
    spelling.decode = .ok characters → spelling.pass = .ok ()
  | .closed, _, _ => rfl
  | .char _ rest, _, decoded => by
    obtain ⟨others, behind, _⟩ := (InOrder.map_ok_iff _ _ _).mp decoded
    exact rest.pass_of_decode others behind
  | .unit code rest, _, decoded => by
    unfold decode at decoded
    split at decoded
    case isTrue => cases decoded
    case isFalse =>
      split at decoded
      case isTrue =>
        -- The second unit of a pair is decoded together with the first.
        split at decoded
        case h_1 low rest =>
          split at decoded
          case isTrue =>
            obtain ⟨others, behind, _⟩ := (InOrder.map_ok_iff _ _ _).mp decoded
            exact rest.pass_of_decode others behind
          case isFalse => cases decoded
        all_goals cases decoded
      case isFalse =>
        obtain ⟨others, behind, _⟩ := (InOrder.map_ok_iff _ _ _).mp decoded
        exact rest.pass_of_decode others behind

/-- A string that is kept has no fault. -/
theorem Spelling.pass_of_string (spelling : Spelling) (text : String)
    (kept : spelling.string = .ok text) : spelling.pass = .ok () := by
  obtain ⟨characters, decoded, _⟩ := (InOrder.map_ok_iff _ _ _).mp kept
  exact spelling.pass_of_decode characters decoded

mutual

/-- A value that is kept has no fault. -/
theorem Draft.pass_of_keep : ∀ (draft : Draft) (value : Value), draft.keep = .ok value →
    draft.pass = .ok ()
  | .null, _, _ | .bool _, _, _ | .number _, _, _ => rfl
  | .string spelling, _, kept => by
    obtain ⟨text, read, _⟩ := (InOrder.map_ok_iff _ _ _).mp kept
    exact spelling.pass_of_string text read
  | .array items, _, kept => by
    obtain ⟨values, read, _⟩ := (InOrder.map_ok_iff _ _ _).mp kept
    exact items.pass_of_keep values read
  | .object members, _, kept => by
    obtain ⟨values, read, _⟩ := (InOrder.map_ok_iff _ _ _).mp kept
    exact members.pass_of_keep [] values read

/-- Items that are kept have no fault. -/
theorem DraftItems.pass_of_keep : ∀ (items : DraftItems) (values : List Value),
    items.keep = .ok values → items.pass = .ok ()
  | .closed, _, _ => rfl
  | .cons item rest, _, kept => by
    obtain ⟨value, first, kept⟩ := (InOrder.bind_ok_iff _ _ _).mp kept
    obtain ⟨others, behind, _⟩ := (InOrder.bind_ok_iff _ _ _).mp kept
    exact (pass_items_iff item rest).mpr ⟨item.pass_of_keep value first,
      rest.pass_of_keep others behind⟩

/-- Members that are kept have no fault. -/
theorem DraftMembers.pass_of_keep : ∀ (members : DraftMembers)
    (before values : List (String × Value)), members.keep before = .ok values →
      members.pass = .ok ()
  | .closed, _, _, _ => rfl
  | .cons key draft rest, before, _, kept => by
    obtain ⟨name, named, kept⟩ := (InOrder.bind_ok_iff _ _ _).mp kept
    obtain ⟨value, held, behind⟩ := (InOrder.bind_ok_iff _ _ _).mp kept
    exact (pass_members_iff key draft rest).mpr ⟨key.pass_of_string name named,
      draft.pass_of_keep value held, rest.pass_of_keep _ _ behind⟩

end

/-- The name of a variant has no fault. -/
theorem Draft.pass_of_variant (names : List String) (draft : Draft) (value : Value)
    (read : draft.variant names = .ok value) : draft.pass = .ok () := by
  have named (spelling : Spelling) (name : Value) (read : spelling.variant names = .ok name) :
      spelling.pass = .ok () := by
    obtain ⟨text, kept, _⟩ := (InOrder.bind_ok_iff _ _ _).mp read
    exact spelling.pass_of_string text kept
  unfold Draft.variant at read
  split at read
  case h_1 spelling => exact named spelling value read
  case h_2 members =>
    split at read
    case h_3 key held rest =>
      obtain ⟨name, keyRead, read⟩ := (InOrder.bind_ok_iff _ _ _).mp read
      dsimp only at read
      split at read
      case h_1 =>
        split at read
        case h_1 => exact (pass_members_iff key _ _).mpr ⟨named key name keyRead, rfl, rfl⟩
        all_goals cases read
      case h_2 => cases read
    all_goals cases read
  case h_3 => cases read
  case h_4 => cases read

/-- A null has no fault. -/
theorem Draft.pass_of_isNull (draft : Draft) (empty : draft.isNull) : draft.pass = .ok () := by
  cases draft with
  | null => rfl
  | bool | number | string | array | object | broken => cases empty

/-- A record in array form that ends has no fault behind its fields. -/
theorem DraftItems.pass_of_finish (given values : List (String × Value)) (items : DraftItems)
    (read : items.finish given = .ok values) : items.pass = .ok () := by
  unfold DraftItems.finish at read
  split at read
  case h_1 => rfl
  all_goals cases read

variable {ρ : Type} (schema : Schema ρ)

mutual

/-- A value that is read has no fault, whatever shape it has. -/
theorem Draft.pass_of_read : ∀ (draft : Draft) (shape : Shape ρ) (value : Value),
    draft.read schema shape = .ok value → draft.pass = .ok ()
  | .null, _, _, _ | .bool _, _, _, _ | .number _, _, _, _ => rfl
  | .string spelling, shape, value, read => by
    cases shape with
    | any => exact (Draft.string spelling).pass_of_keep value read
    | text =>
      obtain ⟨text, kept, _⟩ := (InOrder.map_ok_iff _ _ _).mp read
      exact spelling.pass_of_string text kept
    | variant names => exact (Draft.string spelling).pass_of_variant names value read
    | flag | real | list | table | record => cases read
  | .array items, shape, value, read => by
    cases shape with
    | any => exact (Draft.array items).pass_of_keep value read
    | list item =>
      obtain ⟨values, each, _⟩ := (InOrder.map_ok_iff _ _ _).mp read
      exact items.pass_of_read item values each
    | record name =>
      obtain ⟨values, each, _⟩ := (InOrder.map_ok_iff _ _ _).mp read
      exact items.pass_of_readRecord (schema name) _ [] values each
    | text | flag | real | variant | table => cases read
  | .object members, shape, value, read => by
    cases shape with
    | any => exact (Draft.object members).pass_of_keep value read
    | variant names => exact (Draft.object members).pass_of_variant names value read
    | table item =>
      obtain ⟨values, each, _⟩ := (InOrder.map_ok_iff _ _ _).mp read
      exact members.pass_of_readTable item [] values each
    | record name =>
      obtain ⟨values, each, _⟩ := (InOrder.map_ok_iff _ _ _).mp read
      exact members.pass_of_readRecord (schema name) [] values each
    | text | flag | real | list => cases read
  | .broken fault, shape, value, read => by cases shape <;> cases read

/-- Items that are read have no fault. -/
theorem DraftItems.pass_of_read : ∀ (items : DraftItems) (shape : Shape ρ) (values : List Value),
    items.read schema shape = .ok values → items.pass = .ok ()
  | .closed, _, _, _ => rfl
  | .cons item rest, shape, _, read => by
    obtain ⟨value, first, read⟩ := (InOrder.bind_ok_iff _ _ _).mp read
    obtain ⟨others, behind, _⟩ := (InOrder.bind_ok_iff _ _ _).mp read
    exact (pass_items_iff item rest).mpr ⟨item.pass_of_read shape value first,
      rest.pass_of_read shape others behind⟩

/-- The items of a record that is read have no fault. -/
theorem DraftItems.pass_of_readRecord : ∀ (items : DraftItems) (record : Record ρ)
    (fields : List (RecordField ρ)) (given values : List (String × Value)),
    items.readRecord schema record fields given = .ok values → items.pass = .ok ()
  | items, _, [], given, values, read => by
    rw [DraftItems.readRecord] at read
    exact items.pass_of_finish given values read
  | .closed, _, _ :: _, _, _, _ => rfl
  | .cons item rest, record, field :: fields, given, values, read => by
    obtain ⟨value, first, behind⟩ := (InOrder.bind_ok_iff _ _ _).mp read
    refine (pass_items_iff item rest).mpr ⟨?_, rest.pass_of_readRecord record fields _ _ behind⟩
    split at first
    case isTrue empty => exact item.pass_of_isNull (Bool.and_eq_true_iff.mp empty).2
    case isFalse => exact item.pass_of_read field.shape value first

/-- The members of a table that is read have no fault. -/
theorem DraftMembers.pass_of_readTable : ∀ (members : DraftMembers) (shape : Shape ρ)
    (before values : List (String × Value)), members.readTable schema shape before = .ok values →
      members.pass = .ok ()
  | .closed, _, _, _, _ => rfl
  | .cons key draft rest, shape, before, _, read => by
    obtain ⟨name, named, read⟩ := (InOrder.bind_ok_iff _ _ _).mp read
    obtain ⟨value, held, behind⟩ := (InOrder.bind_ok_iff _ _ _).mp read
    exact (pass_members_iff key draft rest).mpr ⟨key.pass_of_string name named,
      draft.pass_of_read shape value held, rest.pass_of_readTable shape _ _ behind⟩

/-- The members of a record that is read have no fault. -/
theorem DraftMembers.pass_of_readRecord : ∀ (members : DraftMembers) (record : Record ρ)
    (given values : List (String × Value)), members.readRecord schema record given = .ok values →
      members.pass = .ok ()
  | .closed, _, _, _, _ => rfl
  | .cons key draft rest, record, given, values, read => by
    obtain ⟨name, named, read⟩ := (InOrder.bind_ok_iff _ _ _).mp read
    have whole : draft.pass = .ok () ∧ rest.pass = .ok () := by
      split at read
      case h_1 =>
        obtain ⟨_, passed, behind⟩ := (InOrder.bind_ok_iff _ _ _).mp read
        exact ⟨passed, rest.pass_of_readRecord record _ _ behind⟩
      case h_2 field known =>
        split at read
        case isTrue => cases read
        case isFalse =>
          obtain ⟨value, held, behind⟩ := (InOrder.bind_ok_iff _ _ _).mp read
          refine ⟨?_, rest.pass_of_readRecord record _ _ behind⟩
          split at held
          case isTrue empty => exact draft.pass_of_isNull (Bool.and_eq_true_iff.mp empty).2
          case isFalse => exact draft.pass_of_read field.shape value held
    exact (pass_members_iff key draft rest).mpr ⟨key.pass_of_string name named, whole⟩

end

/-- A text that is read, whatever shape it has, is the document that its draft spells. -/
theorem spells_of_readText (shape : Shape ρ) (text : String) (value : Value)
    (read : readText schema shape text = .ok value) :
    Spells (scan text.toList).1 text.toList := by
  obtain ⟨value, drafted, read⟩ := (InOrder.bind_ok_iff _ _ _).mp read
  split at read
  case isTrue ends =>
    exact spells_of_scan text.toList _ _ rfl (Draft.pass_of_read schema _ shape value drafted) ends
  case isFalse => cases read

/-- Written items have no fault if none of them has. -/
theorem pass_itemsDraft (items : List Value) (each : ∀ item ∈ items, item.draft.pass = .ok ()) :
    (Value.itemsDraft items).pass = .ok () := by
  induction items with
  | nil => rfl
  | cons item rest inductionHypothesis =>
    obtain ⟨first, others⟩ := List.forall_mem_cons.mp each
    exact (pass_items_iff _ _).mpr ⟨first, inductionHypothesis others⟩

/-- Written members have no fault if none of their values has. -/
theorem pass_membersDraft (members : List (String × Value))
    (each : ∀ member ∈ members, member.2.draft.pass = .ok ()) :
    (Value.membersDraft members).pass = .ok () := by
  induction members with
  | nil => rfl
  | cons member rest inductionHypothesis =>
    obtain ⟨key, value⟩ := member
    obtain ⟨first, others⟩ := List.forall_mem_cons.mp each
    exact (pass_members_iff _ _ _).mpr
      ⟨Spelling.pass_of_string _ key (string_spell key), first, inductionHypothesis others⟩

/-- A written value has no fault. -/
theorem pass_draft (value : Value) (whole : value.isWhole) : value.draft.pass = .ok () := by
  induction value using Value.values_induction with
  | null => rfl
  | bool truth => rfl
  | number n =>
    cases n with
    | int n => rw [Value.draft_int]; rfl
    | float x => cases whole
  | string text => exact Spelling.pass_of_string _ text (string_spell text)
  | array items inductionHypothesis =>
    rw [Value.isWhole_array, List.all_eq_true] at whole
    exact pass_itemsDraft items fun item member =>
      inductionHypothesis item member (whole item member)
  | object members inductionHypothesis =>
    rw [Value.isWhole_object, List.all_eq_true] at whole
    exact pass_membersDraft members fun member listed =>
      inductionHypothesis member listed (whole member listed)

/-- A written value is a document in either style. -/
theorem spells_text (style : Style) (value : Value) (whole : value.isWhole) :
    Spells value.draft (value.text style) :=
  spells_of_scan _ [] _ (scan_text style value whole) (pass_draft value whole) rfl

end Workflow.Json
