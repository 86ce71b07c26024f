import Workflow.Json.Read
import Workflow.Proofs.Scanning

/-!
# Written values are read back

A value that is kept comes back as it was if its objects are in key order, since every
member then goes behind those before it. Where a record is wanted, each member of a written
object is taken by the field of its key, and what comes out are the taken members, the last
one first.
-/

namespace Workflow.Json

namespace Value

/-- True for members in strictly ascending order of their keys. -/
def ascending (members : List (String × Value)) : Bool :=
  decide ((members.map (·.1)).Pairwise (· < ·))

/-- True for an object in key order, and for every other value. -/
def keyOrdered : Value → Bool
  | .object members => ascending members
  | _ => true

/-- True if every object in a value is in key order. -/
def isOrdered (value : Value) : Bool := value.everywhere keyOrdered

/-- The objects in an array are those in its items. -/
theorem isOrdered_array (items : List Value) : (array items).isOrdered = items.all isOrdered := by
  rw [isOrdered, everywhere, everywhereItems_eq]
  rfl

/-- The objects in an object are itself and those in the values of its members. -/
theorem isOrdered_object (members : List (String × Value)) :
    (object members).isOrdered = (ascending members && members.all (·.2.isOrdered)) := by
  rw [isOrdered, everywhere, everywhereMembers_eq]
  rfl

end Value

/-- A member with a greater key than all others goes behind them. -/
theorem insertMember_greatest {α : Type} (key : String) (value : α) (members : List (String × α))
    (greatest : ∀ member ∈ members, member.1 < key) :
    insertMember key value members = members ++ [(key, value)] := by
  induction members with
  | nil => rfl
  | cons member rest inductionHypothesis =>
    obtain ⟨other, held⟩ := member
    have less : other < key := greatest (other, held) List.mem_cons_self
    have notBefore : ¬ key < other := String.lt_asymm less
    have apart : key ≠ other := by
      rintro rfl
      exact String.lt_irrefl key less
    have behind := inductionHypothesis fun member listed =>
      greatest member (List.mem_cons_of_mem _ listed)
    rw [insertMember, if_neg notBefore, if_neg apart, behind, List.cons_append]

/-- Items that are kept as they are make a list that is. -/
theorem keep_itemsDraft (items : List Value) (each : ∀ item ∈ items, item.draft.keep = .ok item) :
    (Value.itemsDraft items).keep = .ok items := by
  induction items with
  | nil => rfl
  | cons item rest inductionHypothesis =>
    have first := each item List.mem_cons_self
    have others := inductionHypothesis fun other member => each other (List.mem_cons_of_mem _ member)
    simp only [Value.itemsDraft, DraftItems.keep, first, others, bind, Except.bind, pure,
      Except.pure]

/-- Members in key order, with values that are kept as they are, go behind those before. -/
theorem keep_membersDraft (members before : List (String × Value))
    (each : ∀ member ∈ members, member.2.draft.keep = .ok member.2)
    (ordered : ((before ++ members).map (·.1)).Pairwise (· < ·)) :
    (Value.membersDraft members).keep before = .ok (before ++ members) := by
  induction members generalizing before with
  | nil => simp only [Value.membersDraft, DraftMembers.keep, List.append_nil]
  | cons member rest inductionHypothesis =>
    obtain ⟨key, value⟩ := member
    have first : value.draft.keep = .ok value := each (key, value) List.mem_cons_self
    have greatest : ∀ member ∈ before, member.1 < key := by
      intro member listed
      rw [List.map_append, List.pairwise_append] at ordered
      exact ordered.2.2 member.1 (List.mem_map_of_mem listed) key (by simp)
    have inserted := insertMember_greatest key value before greatest
    have others := inductionHypothesis (before ++ [(key, value)])
      (fun member listed => each member (List.mem_cons_of_mem _ listed))
      (by rwa [List.append_assoc])
    rw [List.append_assoc] at others
    simp only [Value.membersDraft, DraftMembers.keep, string_spell, first, inserted, bind,
      Except.bind]
    exact others

/-- A written value is kept as it is if its numbers are integers of 64 bits and its objects are
in key order. -/
theorem keep_draft (value : Value) (whole : value.isWhole) (ordered : value.isOrdered) :
    value.draft.keep = .ok value := by
  induction value using Value.values_induction with
  | null => rfl
  | bool truth => rfl
  | number n =>
    cases n with
    | int n =>
      have read := number?_intNumeral n whole
      simp only [Value.draft_int, Draft.keep, Numeral.value, read]
      rfl
    | float x => cases whole
  | string text =>
    simp only [Value.draft, Draft.keep, string_spell]
    rfl
  | array items inItems =>
    rw [Value.isWhole_array, List.all_eq_true] at whole
    rw [Value.isOrdered_array, List.all_eq_true] at ordered
    have kept := keep_itemsDraft items fun item member =>
      inItems item member (whole item member) (ordered item member)
    simp only [Value.draft, Draft.keep, kept]
    rfl
  | object members inMembers =>
    rw [Value.isWhole_object, List.all_eq_true] at whole
    rw [Value.isOrdered_object, Bool.and_eq_true, List.all_eq_true] at ordered
    have kept := keep_membersDraft members [] (fun member listed =>
      inMembers member listed (whole member listed) (ordered.2 member listed))
      (of_decide_eq_true ordered.1)
    simp only [Value.draft, Draft.keep, kept]
    rfl

variable {ρ : Type} (schema : Schema ρ)

/-- A table of values of any form keeps them. -/
theorem readTable_membersDraft (members before : List (String × Value)) :
    (Value.membersDraft members).readTable schema .any before =
      (Value.membersDraft members).keep before := by
  induction members generalizing before with
  | nil => rfl
  | cons member rest inductionHypothesis =>
    simp only [Value.membersDraft, DraftMembers.readTable, DraftMembers.keep, Draft.read,
      inductionHypothesis]

end Workflow.Json
