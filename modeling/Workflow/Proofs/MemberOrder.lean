import Workflow.Proofs.Form
import Workflow.Proofs.Records
import Mathlib.Data.List.Nodup
import Mathlib.Data.List.Perm.Basic
import Mathlib.Data.List.ReduceOption
import Mathlib.Data.String.Basic

/-!
# Members in any order

An object is read from its first member to its last, so what comes out might depend on the order.
It does not. A record makes of each member the same whatever stands before it, nothing of a key that
is no field's and a value of a field's; only a field given twice is refused (`readRecord_iff`). So
the members of a record may change places: what they give is found under the same keys
(`readRecord_perm`), and a member of no field may be left out (`readRecord_foreign`). A table puts
its members in order of the keys, and those with different keys in any order of theirs
(`readTable_perm`).
-/

namespace Workflow.Json

/-- Members behind one another, up to the end of their object. -/
def DraftMembers.ofList : List (Spelling × Draft) → DraftMembers
  | [] => .closed
  | (key, value) :: rest => .cons key value (ofList rest)

/-- Two members put in in ascending order are put in in descending order. -/
theorem insertMember_of_lt {α : Type} (first second : String) (value other : α)
    (order : first < second) (members : List (String × α)) :
    insertMember first value (insertMember second other members) =
      insertMember second other (insertMember first value members) := by
  have notBefore : ¬ second < first := order.not_gt
  have apart : second ≠ first := order.ne'
  induction members with
  | nil => simp [insertMember, order, notBefore, apart]
  | cons member rest inductionHypothesis =>
    obtain ⟨key, held⟩ := member
    rcases lt_trichotomy second key with before | rfl | behind
    · have firstBefore := order.trans before
      simp [insertMember, order, notBefore, apart, before, firstBefore]
    · simp [insertMember, order, notBefore, apart]
    · have secondBehind : ¬ second < key ∧ second ≠ key := ⟨behind.not_gt, behind.ne'⟩
      rcases lt_trichotomy first key with firstBefore | rfl | firstBehind
      · simp [insertMember, notBefore, apart, secondBehind, firstBefore]
      · simp [insertMember, notBefore, apart]
      · have both : ¬ first < key ∧ first ≠ key := ⟨firstBehind.not_gt, firstBehind.ne'⟩
        simp [insertMember, secondBehind, both, inductionHypothesis]

/-- Members with different keys may be put in in either order. -/
theorem insertMember_comm {α : Type} (first second : String) (value other : α)
    (apart : first ≠ second) (members : List (String × α)) :
    insertMember first value (insertMember second other members) =
      insertMember second other (insertMember first value members) := by
  rcases lt_or_gt_of_ne apart with order | order
  · exact insertMember_of_lt first second value other order members
  · exact (insertMember_of_lt second first other value order members).symm

/-- Members with pairwise different keys may be put in in any order. -/
theorem foldl_insertMember_perm {α : Type} {entries others : List (String × α)}
    (moved : entries.Perm others) (distinct : (entries.map (·.1)).Nodup)
    (before : List (String × α)) :
    entries.foldl (fun table entry => insertMember entry.1 entry.2 table) before =
      others.foldl (fun table entry => insertMember entry.1 entry.2 table) before := by
  apply moved.foldl_eq'
  intro entry member other memberOther table
  by_cases same : entry.1 = other.1
  · rw [List.inj_on_of_nodup_map distinct member memberOther same]
  · exact insertMember_comm other.1 entry.1 other.2 entry.2 (Ne.symm same) table

/-- Members with pairwise different keys are found whatever their order. -/
theorem lookup_perm {α : Type} {members others : List (String × α)} (moved : members.Perm others)
    (distinct : (members.map (·.1)).Nodup) (key : String) :
    others.lookup key = members.lookup key := by
  induction moved with
  | nil => rfl
  | cons member _ inductionHypothesis =>
    rw [List.lookup_cons, List.lookup_cons, inductionHypothesis (List.nodup_cons.mp distinct).2]
  | swap first second rest =>
    obtain ⟨title, value⟩ := first
    obtain ⟨name, other⟩ := second
    have apart : name ≠ title := by
      rintro rfl
      exact (List.nodup_cons.mp distinct).1 List.mem_cons_self
    by_cases found : key = title
    · subst found
      simp [List.lookup_cons, beq_false_of_ne (Ne.symm apart)]
    · simp [List.lookup_cons, beq_false_of_ne found]
  | trans moved _ first second =>
    rw [second ((moved.map _).nodup_iff.mp distinct), first distinct]

/-- A key is found exactly if some member has it. -/
theorem isSome_lookup_iff {α : Type} (key : String) (members : List (String × α)) :
    (members.lookup key).isSome ↔ key ∈ members.map (·.1) := by
  rw [Option.isSome_iff_ne_none, ne_eq, List.lookup_eq_none_iff]
  simp

variable {ρ : Type} (schema : Schema ρ) (record : Record ρ)

/-- What a record makes of one member: nothing of a key that is no field's, and the value of a field
under its key. -/
inductive Record.Gives : Spelling × Draft → Option (String × Value) → Prop
  | foreign (key : Spelling) (draft : Draft) (title : String) (named : key.string = .ok title)
      (unknown : record.field? title = none) (whole : draft.pass = .ok ()) :
      Gives (key, draft) none
  | field (key : Spelling) (draft : Draft) (title : String) (field : RecordField ρ) (value : Value)
      (named : key.string = .ok title) (known : record.field? title = some field)
      (read : (if field.nullable && draft.isNull then .ok .null
        else draft.read schema field.shape) = .ok value) :
      Gives (key, draft) (some (title, value))

/-- A record is read exactly if it makes something of each member, without a field given twice, and
is then complete. The last member comes out first. -/
theorem readRecord_iff (members : List (Spelling × Draft)) (given values : List (String × Value))
    (distinct : (given.map (·.1)).Nodup) :
    (DraftMembers.ofList members).readRecord schema record given = .ok values ↔
      ∃ entries, List.Forall₂ (record.Gives schema) members entries ∧
        ((entries.reduceOption.reverse ++ given).map (·.1)).Nodup ∧
        record.complete (entries.reduceOption.reverse ++ given) = .ok values := by
  induction members generalizing given with
  | nil =>
    simp only [DraftMembers.ofList, DraftMembers.readRecord, List.forall₂_nil_left_iff]
    constructor
    · intro complete
      exact ⟨[], rfl, distinct, complete⟩
    · rintro ⟨_, rfl, _, complete⟩
      exact complete
  | cons member rest inductionHypothesis =>
    obtain ⟨key, draft⟩ := member
    simp only [DraftMembers.ofList, DraftMembers.readRecord]
    constructor
    · intro read
      obtain ⟨title, named, read⟩ := (InOrder.bind_ok_iff _ _ _).mp read
      split at read
      case h_1 unknown =>
        obtain ⟨_, whole, read⟩ := (InOrder.bind_ok_iff _ _ _).mp read
        obtain ⟨entries, each, apart, complete⟩ := (inductionHypothesis given distinct).mp read
        exact ⟨none :: entries, .cons (.foreign key draft title named unknown whole) each, apart,
          complete⟩
      case h_2 field known =>
        split at read
        case isTrue => cases read
        case isFalse fresh =>
          obtain ⟨value, held, read⟩ := (InOrder.bind_ok_iff _ _ _).mp read
          rw [isSome_lookup_iff] at fresh
          have both : (((title, value) :: given).map (·.1)).Nodup :=
            List.nodup_cons.mpr ⟨fresh, distinct⟩
          obtain ⟨entries, each, apart, complete⟩ := (inductionHypothesis _ both).mp read
          refine ⟨some (title, value) :: entries,
            .cons (.field key draft title field value named known held) each, ?_⟩
          rw [List.reduceOption_cons_of_some, List.reverse_cons, List.append_assoc]
          exact ⟨apart, complete⟩
    · rintro ⟨entries, each, apart, complete⟩
      cases each with
      | cons first each =>
        cases first with
        | foreign _ _ title named unknown whole =>
          have read := (inductionHypothesis given distinct).mpr ⟨_, each, apart, complete⟩
          simp only [named, unknown, whole, read, bind, Except.bind]
        | field _ _ title field value named known held =>
          rw [List.reduceOption_cons_of_some, List.reverse_cons, List.append_assoc]
            at apart complete
          have both : (((title, value) :: given).map (·.1)).Nodup := by
            rw [List.map_append] at apart
            exact apart.of_append_right
          have fresh : ¬ (given.lookup title).isSome := by
            rw [isSome_lookup_iff]
            exact (List.nodup_cons.mp both).1
          have read := (inductionHypothesis _ both).mpr ⟨_, each, apart, complete⟩
          simp only [named, known, if_neg fresh, held, read, bind, Except.bind]

/-- The members of a record that may leave out any field may change places: what they give is found
under the same keys. -/
theorem readRecord_perm (lenient : record.lenient) {members others : List (Spelling × Draft)}
    (moved : members.Perm others) (values : List (String × Value))
    (read : (DraftMembers.ofList members).readRecord schema record [] = .ok values) :
    ∃ image, (DraftMembers.ofList others).readRecord schema record [] = .ok image ∧
      ∀ key, image.lookup key = values.lookup key := by
  obtain ⟨entries, each, apart, complete⟩ :=
    (readRecord_iff schema record members [] values List.nodup_nil).mp read
  obtain ⟨images, eachOther, movedEntries⟩ := List.perm_comp_forall₂ moved.symm each
  have given : (images.reduceOption.reverse ++ []).Perm (entries.reduceOption.reverse ++ []) := by
    simp only [List.append_nil]
    exact (List.reverse_perm _).trans ((movedEntries.filterMap id).trans (List.reverse_perm _).symm)
  rw [complete_of_lenient record _ lenient] at complete
  cases complete
  refine ⟨images.reduceOption.reverse ++ [], ?read, lookup_perm given.symm apart⟩
  refine (readRecord_iff schema record others [] _ List.nodup_nil).mpr ⟨images, eachOther, ?_, ?_⟩
  · exact ((given.map _).nodup_iff).mpr apart
  · exact complete_of_lenient record _ lenient

/-- A member of no field may stand anywhere in a record, if its value has no fault. -/
theorem readRecord_foreign (before after : List (Spelling × Draft)) (key : Spelling) (draft : Draft)
    (title : String) (named : key.string = .ok title) (unknown : record.field? title = none)
    (whole : draft.pass = .ok ()) (given : List (String × Value)) :
    (DraftMembers.ofList (before ++ (key, draft) :: after)).readRecord schema record given =
      (DraftMembers.ofList (before ++ after)).readRecord schema record given := by
  induction before generalizing given with
  | nil =>
    simp only [List.nil_append, DraftMembers.ofList, DraftMembers.readRecord, named, unknown, whole,
      bind, Except.bind]
  | cons member rest inductionHypothesis =>
    obtain ⟨name, value⟩ := member
    simp only [List.cons_append, DraftMembers.ofList, DraftMembers.readRecord, inductionHypothesis]

variable (item : Shape ρ)

/-- What a table makes of one member: its value under its key. -/
def TableGives (member : Spelling × Draft) (entry : String × Value) : Prop :=
  member.1.string = .ok entry.1 ∧ member.2.read schema item = .ok entry.2

/-- A table is read exactly if it makes something of each member, which is put in behind the others
before it. -/
theorem readTable_iff (members : List (Spelling × Draft)) (before values : List (String × Value)) :
    (DraftMembers.ofList members).readTable schema item before = .ok values ↔
      ∃ entries, List.Forall₂ (TableGives schema item) members entries ∧
        entries.foldl (fun table entry => insertMember entry.1 entry.2 table) before = values := by
  induction members generalizing before with
  | nil => simp [DraftMembers.ofList, DraftMembers.readTable, List.forall₂_nil_left_iff]
  | cons member rest inductionHypothesis =>
    obtain ⟨key, draft⟩ := member
    simp only [DraftMembers.ofList, DraftMembers.readTable, InOrder.bind_ok_iff,
      inductionHypothesis]
    constructor
    · rintro ⟨title, named, value, held, entries, each, table⟩
      exact ⟨(title, value) :: entries, .cons ⟨named, held⟩ each, table⟩
    · rintro ⟨entries, each, table⟩
      cases each with
      | @cons _ entry _ entries first each =>
        exact ⟨entry.1, first.1, entry.2, first.2, entries, each, table⟩

/-- The members of a table stand under the keys that it finds. -/
theorem titles_of_entries {members : List (Spelling × Draft)} {entries : List (String × Value)}
    (each : List.Forall₂ (TableGives schema item) members entries) :
    members.map (·.1.string) = entries.map fun entry => .ok entry.1 := by
  induction each with
  | nil => rfl
  | cons first _ inductionHypothesis =>
    rw [List.map_cons, List.map_cons, first.1, inductionHypothesis]

/-- The members of a table with pairwise different keys may change places. -/
theorem readTable_perm {members others : List (Spelling × Draft)} (moved : members.Perm others)
    (distinct : (members.map (·.1.string)).Nodup) (before values : List (String × Value))
    (read : (DraftMembers.ofList members).readTable schema item before = .ok values) :
    (DraftMembers.ofList others).readTable schema item before = .ok values := by
  obtain ⟨entries, each, table⟩ := (readTable_iff schema item members before values).mp read
  obtain ⟨images, eachOther, movedEntries⟩ := List.perm_comp_forall₂ moved.symm each
  have apart : (entries.map (·.1)).Nodup := by
    rw [titles_of_entries schema item each] at distinct
    apply List.Nodup.of_map Except.ok
    rwa [List.map_map]
  refine (readTable_iff schema item others before values).mpr ⟨images, eachOther, ?_⟩
  rw [← table, foldl_insertMember_perm movedEntries.symm apart before]

end Workflow.Json
