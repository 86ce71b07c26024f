import Workflow.Proofs.Tokens
import Mathlib.Data.List.DropRight

/-!
# Written values are scanned back

The draft that a value's text spells can be told from the value alone: it does not depend
on the style, the depth or what follows. `scan_text` says that the scan of a text in either
style gives this draft and leaves nothing.

The invariant behind it holds of every value whose numbers are integers that fit. Its text
begins with a mark that is neither a blank nor the end of a list, adds at least that mark to
what follows, and is scanned up to there as long as there is fuel for every character of it.
-/

namespace Workflow.Json

namespace Value

/-- Induction over a value and the values in it. -/
theorem values_induction {motive : Value → Prop} (null : motive .null)
    (bool : ∀ truth, motive (.bool truth)) (number : ∀ n, motive (.number n))
    (string : ∀ text, motive (.string text))
    (array : ∀ items, (∀ item ∈ items, motive item) → motive (.array items))
    (object : ∀ members, (∀ member ∈ members, motive member.2) → motive (.object members))
    (value : Value) : motive value := by
  refine @Value.rec motive (fun items => ∀ item ∈ items, motive item)
    (fun members => ∀ member ∈ members, motive member.2) (fun member => motive member.2)
    null bool number string array object ?noItem ?items ?noMember ?members ?member value
  case noItem => simp
  case items =>
    intro _ _ first others
    exact List.forall_mem_cons.mpr ⟨first, others⟩
  case noMember => simp
  case members =>
    intro _ _ first others
    exact List.forall_mem_cons.mpr ⟨first, others⟩
  case member =>
    intro _ _ held
    exact held

mutual

/-- True if a condition holds of a value and of every value in it. -/
def everywhere (holds : Value → Bool) : Value → Bool
  | .array items => holds (.array items) && everywhereItems holds items
  | .object members => holds (.object members) && everywhereMembers holds members
  | plain => holds plain
termination_by structural value => value

/-- True if a condition holds of every item and of every value in it. -/
def everywhereItems (holds : Value → Bool) : List Value → Bool
  | [] => true
  | item :: rest => item.everywhere holds && everywhereItems holds rest
termination_by structural items => items

/-- True if a condition holds of the value of every member and of every value in it. -/
def everywhereMembers (holds : Value → Bool) : List (String × Value) → Bool
  | [] => true
  | (_, value) :: rest => value.everywhere holds && everywhereMembers holds rest
termination_by structural members => members

end

/-- A condition holds everywhere in items if it does in each of them. -/
theorem everywhereItems_eq (holds : Value → Bool) (items : List Value) :
    everywhereItems holds items = items.all (everywhere holds) := by
  induction items with
  | nil => rfl
  | cons item rest inductionHypothesis =>
    rw [everywhereItems, inductionHypothesis, List.all_cons]

/-- A condition holds everywhere in members if it does in the value of each of them. -/
theorem everywhereMembers_eq (holds : Value → Bool) (members : List (String × Value)) :
    everywhereMembers holds members = members.all fun member => member.2.everywhere holds := by
  induction members with
  | nil => rfl
  | cons member rest inductionHypothesis =>
    rw [everywhereMembers, inductionHypothesis, List.all_cons]

/-- True for a number that is an integer of 64 bits, and for every other value. -/
def wordNumber : Value → Bool
  | .number n => n.isWord
  | _ => true

/-- True if every number in a value is an integer of 64 bits. -/
def isWhole (value : Value) : Bool := value.everywhere wordNumber

/-- The numbers in an array are those in its items. -/
theorem isWhole_array (items : List Value) : (array items).isWhole = items.all isWhole := by
  rw [isWhole, everywhere, everywhereItems_eq]
  rfl

/-- The numbers in an object are those in the values of its members. -/
theorem isWhole_object (members : List (String × Value)) :
    (object members).isWhole = members.all (·.2.isWhole) := by
  rw [isWhole, everywhere, everywhereMembers_eq]
  rfl

mutual

/-- What the text of a value spells. -/
def draft : Value → Draft
  | .null => .null
  | .bool truth => .bool truth
  | .number n => (scanNumber n.text).1
  | .string text => .string (spell text.toList)
  | .array items => .array (itemsDraft items)
  | .object members => .object (membersDraft members)
termination_by structural value => value

/-- What the texts of items spell. -/
def itemsDraft : List Value → DraftItems
  | [] => .closed
  | item :: rest => .cons item.draft (itemsDraft rest)
termination_by structural items => items

/-- What the texts of members spell. -/
def membersDraft : List (String × Value) → DraftMembers
  | [] => .closed
  | (key, value) :: rest => .cons (spell key.toList) value.draft (membersDraft rest)
termination_by structural members => members

end

/-- An integer spells its numeral. -/
theorem draft_int (n : Int) : (number (.int n)).draft = .number (intNumeral n) := by
  have scanned := scanNumeral_intText n [] endsNumber_nil
  rw [List.append_nil] at scanned
  simp only [draft, Number.text, scanNumber, scanned]

end Value

/-- A mark in front is not skipped. -/
theorem skipSpaces_mark (c : Char) (text : List Char) (mark : isSpace c = false) :
    skipSpaces (c :: text) = c :: text := by
  apply List.dropWhile_cons_of_neg
  simp [mark]

/-- The start of a line is skipped. -/
theorem skipSpaces_newLine (style : Style) (depth : Nat) (text : List Char) :
    skipSpaces (style.newLine depth text) = skipSpaces text := by
  have blanks : ∀ c ∈ List.replicate (2 * depth) ' ', isSpace c := by
    intro c member
    rw [List.eq_of_mem_replicate member]
    rfl
  cases style with
  | compact => rfl
  | indented =>
    exact List.dropWhile_append_of_pos blanks

/-- The start of a line does not make a text shorter. -/
theorem length_le_newLine (style : Style) (depth : Nat) (text : List Char) :
    text.length ≤ (style.newLine depth text).length := by
  cases style with
  | compact => exact Nat.le_refl _
  | indented =>
    simp only [Style.newLine, List.length_cons, List.length_append]
    omega

/-- A number ends at the start of a line if it does behind it. -/
theorem endsNumber_newLine (style : Style) (depth : Nat) (text : List Char)
    (ends : EndsNumber text) : EndsNumber (style.newLine depth text) := by
  cases style with
  | compact => exact ends
  | indented => exact endsNumber_cons _ _ (by decide)

/-- Blanks in front of a value do not change its scan. -/
theorem scanValue_skipSpaces (fuel : Nat) (text : List Char) :
    scanValue fuel (skipSpaces text) = scanValue fuel text := by
  cases fuel with
  | zero => rfl
  | succ fuel =>
    have idempotent : skipSpaces (skipSpaces text) = skipSpaces text :=
      List.dropWhile_idempotent isSpace text
    rw [scanValue, scanValue, idempotent]

/-- A list goes on with its first item unless it closes at once. -/
theorem scanValue_bracket (fuel : Nat) (text rest : List Char) (c : Char)
    (next : skipSpaces text = c :: rest) (goesOn : c ≠ ']') :
    scanValue (fuel + 1) ('[' :: text) =
      (.array (.cons (scanValue fuel text).1 (scanItems fuel (scanValue fuel text).2).1),
        (scanItems fuel (scanValue fuel text).2).2) := by
  rw [← scanValue_skipSpaces fuel text, scanValue, skipSpaces_mark '[' text (by decide)]
  simp only [next]
  split <;> simp_all

/-- A comma in a list is followed by an item. -/
theorem scanItems_comma (fuel : Nat) (text rest : List Char) (c : Char)
    (next : skipSpaces text = c :: rest) (goesOn : c ≠ ']') :
    scanItems (fuel + 1) (',' :: text) =
      (.cons (scanValue fuel text).1 (scanItems fuel (scanValue fuel text).2).1,
        (scanItems fuel (scanValue fuel text).2).2) := by
  rw [← scanValue_skipSpaces fuel text, scanItems, skipSpaces_mark ',' text (by decide)]
  simp only [next]
  split <;> simp_all

/-- An object goes on with its first key. -/
theorem scanValue_brace (style : Style) (fuel depth : Nat) (text : List Char) :
    scanValue (fuel + 1) ('{' :: style.newLine depth ('"' :: text)) =
      (.object (scanMember fuel text).1, (scanMember fuel text).2) := by
  rw [scanValue, skipSpaces_mark '{' _ (by decide)]
  simp only [skipSpaces_newLine, skipSpaces_mark '"' text (by decide)]

/-- A comma in an object is followed by a key. -/
theorem scanMembers_comma (style : Style) (fuel depth : Nat) (text : List Char) :
    scanMembers (fuel + 1) (',' :: style.newLine depth ('"' :: text)) = scanMember fuel text := by
  rw [scanMembers, skipSpaces_mark ',' _ (by decide)]
  simp only [skipSpaces_newLine, skipSpaces_mark '"' text (by decide)]

/-- A written key is followed by its value. -/
theorem scanMember_key (style : Style) (fuel : Nat) (key text : List Char) :
    scanMember (fuel + 1) (writeChars key (style.colon text)) =
      (.cons (spell key) (scanValue fuel text).1 (scanMembers fuel (scanValue fuel text).2).1,
        (scanMembers fuel (scanValue fuel text).2).2) := by
  have blank : scanValue fuel (' ' :: text) = scanValue fuel text := by
    rw [← scanValue_skipSpaces fuel text, ← scanValue_skipSpaces fuel (' ' :: text)]
    rfl
  rw [scanMember, scanString_writeChars]
  cases style with
  | compact => rfl
  | indented =>
    rw [← blank]
    rfl

/-- The first character of a number is no blank and closes no list. -/
theorem mark_of_numeric (c : Char) (numeric : c = '-' ∨ c.isDigit) :
    isSpace c = false ∧ c ≠ ']' := by
  rcases numeric with rfl | digit
  · exact ⟨rfl, by decide⟩
  · constructor
    · by_contra blank
      simp only [isSpace, Bool.not_eq_false, Bool.or_eq_true, beq_iff_eq] at blank
      rcases blank with ((rfl | rfl) | rfl) | rfl <;> revert digit <;> decide
    · rintro rfl
      revert digit
      decide

/-- A number is scanned as one. -/
theorem scanValue_number (fuel : Nat) (c : Char) (text : List Char)
    (numeric : c = '-' ∨ c.isDigit) : scanValue (fuel + 1) (c :: text) = scanNumber (c :: text) := by
  rw [scanValue, skipSpaces_mark c text (mark_of_numeric c numeric).1]
  split
  case h_8 same =>
    cases same
    exact if_pos numeric
  all_goals simp_all

/-- The text of a value, wherever it stands: it begins with a mark that closes no list, adds
that mark at least to what follows, and is scanned up to there with fuel for each character. -/
structure Scans (style : Style) (value : Value) : Prop where
  begins : ∀ depth after, ∃ c rest,
    value.write style depth after = c :: rest ∧ isSpace c = false ∧ c ≠ ']'
  longer : ∀ depth after, after.length < (value.write style depth after).length
  scanned : ∀ depth after fuel, EndsNumber after →
    (value.write style depth after).length ≤ fuel →
      scanValue fuel (value.write style depth after) = (value.draft, after)

variable (style : Style) (depth : Nat)

/-- Before further items and the end of a list a number ends. -/
theorem endsNumber_writeItems (items : List Value) (after : List Char) :
    EndsNumber (Value.writeItems style depth items after) := by
  cases items with
  | nil => exact endsNumber_newLine style depth _ (endsNumber_cons _ _ (by decide))
  | cons item rest => exact endsNumber_cons _ _ (by decide)

/-- Before further members and the end of an object a number ends. -/
theorem endsNumber_writeMembers (members : List (String × Value)) (after : List Char) :
    EndsNumber (Value.writeMembers style depth members after) := by
  cases members with
  | nil => exact endsNumber_newLine style depth _ (endsNumber_cons _ _ (by decide))
  | cons member rest => exact endsNumber_cons _ _ (by decide)

/-- The text of an item on a line of its own, and of the items after it. -/
def itemText (item : Value) (rest : List Value) (after : List Char) : List Char :=
  style.newLine (depth + 1)
    (item.write style (depth + 1) (Value.writeItems style depth rest after))

/-- A further item stands behind a comma. -/
theorem writeItems_cons (item : Value) (rest : List Value) (after : List Char) :
    Value.writeItems style depth (item :: rest) after =
      ',' :: itemText style depth item rest after := rfl

/-- An item begins with a mark that closes no list. -/
theorem itemText_next (item : Value) (rest : List Value) (after : List Char)
    (scans : Scans style item) :
    ∃ c text, skipSpaces (itemText style depth item rest after) = c :: text ∧ c ≠ ']' := by
  obtain ⟨c, text, begun, mark, goesOn⟩ :=
    scans.begins (depth + 1) (Value.writeItems style depth rest after)
  refine ⟨c, text, ?_, goesOn⟩
  rw [itemText, skipSpaces_newLine, begun, skipSpaces_mark c text mark]

/-- An item adds to the items after it. -/
theorem length_lt_itemText (item : Value) (rest : List Value) (after : List Char)
    (scans : Scans style item) :
    (Value.writeItems style depth rest after).length <
      (itemText style depth item rest after).length := by
  have held := scans.longer (depth + 1) (Value.writeItems style depth rest after)
  exact Nat.lt_of_lt_of_le held (length_le_newLine style (depth + 1) _)

/-- An item is scanned up to the items after it. -/
theorem scanValue_itemText (item : Value) (rest : List Value) (after : List Char) (fuel : Nat)
    (scans : Scans style item) (enough : (itemText style depth item rest after).length ≤ fuel) :
    scanValue fuel (itemText style depth item rest after) =
      (item.draft, Value.writeItems style depth rest after) := by
  rw [itemText, ← scanValue_skipSpaces, skipSpaces_newLine, scanValue_skipSpaces]
  apply scans.scanned (depth + 1)
  · exact endsNumber_writeItems style depth rest after
  · exact Nat.le_trans (length_le_newLine style (depth + 1) _) enough

/-- Further items and the end of a list add to what follows. -/
theorem length_lt_writeItems (items : List Value) (after : List Char)
    (each : ∀ item ∈ items, Scans style item) :
    after.length < (Value.writeItems style depth items after).length := by
  induction items with
  | nil => exact length_le_newLine style depth (']' :: after)
  | cons item rest inductionHypothesis =>
    have others := inductionHypothesis fun other member => each other (List.mem_cons_of_mem _ member)
    have first := length_lt_itemText style depth item rest after (each item List.mem_cons_self)
    exact Nat.lt_succ_of_lt (Nat.lt_trans others first)

/-- Items behind the first one are scanned up to the end of their list. -/
theorem scanItems_writeItems (items : List Value) (after : List Char) (fuel : Nat)
    (each : ∀ item ∈ items, Scans style item)
    (enough : (Value.writeItems style depth items after).length ≤ fuel) :
    scanItems fuel (Value.writeItems style depth items after) =
      (Value.itemsDraft items, after) := by
  induction items generalizing fuel with
  | nil =>
    have closing := length_lt_writeItems style depth [] after each
    obtain ⟨fuel, rfl⟩ := Nat.exists_eq_add_one_of_ne_zero (by omega : fuel ≠ 0)
    rw [Value.writeItems, scanItems, skipSpaces_newLine, skipSpaces_mark ']' after (by decide)]
    rfl
  | cons item rest inductionHypothesis =>
    have scans := each item List.mem_cons_self
    have later : ∀ other ∈ rest, Scans style other := fun other member =>
      each other (List.mem_cons_of_mem item member)
    rw [writeItems_cons, List.length_cons] at enough
    obtain ⟨fuel, rfl⟩ := Nat.exists_eq_add_one_of_ne_zero (Nat.ne_zero_of_lt enough)
    obtain ⟨c, text, next, goesOn⟩ := itemText_next style depth item rest after scans
    have shorter := length_lt_itemText style depth item rest after scans
    have first := scanValue_itemText style depth item rest after fuel scans (by omega)
    have others := inductionHypothesis fuel later (by omega)
    rw [writeItems_cons, scanItems_comma fuel _ text c next goesOn, first, others,
      Value.itemsDraft]

/-- The text of a member from behind the quote of its key, and of the members after it. -/
def memberText (key : String) (value : Value) (rest : List (String × Value))
    (after : List Char) : List Char :=
  writeChars key.toList
    (style.colon (value.write style (depth + 1) (Value.writeMembers style depth rest after)))

/-- A further member stands on a line of its own. -/
theorem writeMembers_cons (key : String) (value : Value) (rest : List (String × Value))
    (after : List Char) : Value.writeMembers style depth ((key, value) :: rest) after =
      ',' :: style.newLine (depth + 1) ('"' :: memberText style depth key value rest after) := rfl

/-- A value adds to the text behind it, and its key does so once more. -/
theorem length_lt_memberText (key : String) (value : Value) (rest : List (String × Value))
    (after : List Char) :
    (value.write style (depth + 1) (Value.writeMembers style depth rest after)).length + 1 <
      (memberText style depth key value rest after).length := by
  have colon (text : List Char) : text.length < (style.colon text).length := by
    cases style <;> simp only [Style.colon, List.length_cons] <;> omega
  have separated := colon (value.write style (depth + 1) (Value.writeMembers style depth rest after))
  have quoted := length_lt_writeChars key.toList
    (style.colon (value.write style (depth + 1) (Value.writeMembers style depth rest after)))
  exact Nat.lt_of_le_of_lt separated quoted

/-- The start of its line and its first quote add to a member. -/
theorem length_lt_memberLine (key : String) (value : Value) (rest : List (String × Value))
    (after : List Char) :
    (memberText style depth key value rest after).length <
      (style.newLine (depth + 1) ('"' :: memberText style depth key value rest after)).length :=
  length_le_newLine style (depth + 1) ('"' :: memberText style depth key value rest after)

/-- Further members and the end of an object add to what follows. -/
theorem length_lt_writeMembers (members : List (String × Value)) (after : List Char)
    (each : ∀ member ∈ members, Scans style member.2) :
    after.length < (Value.writeMembers style depth members after).length := by
  induction members with
  | nil => exact length_le_newLine style depth ('}' :: after)
  | cons member rest inductionHypothesis =>
    obtain ⟨key, value⟩ := member
    have others := inductionHypothesis fun other member => each other (List.mem_cons_of_mem _ member)
    have scans : Scans style value := each (key, value) List.mem_cons_self
    have held := scans.longer (depth + 1) (Value.writeMembers style depth rest after)
    have named := length_lt_memberText style depth key value rest after
    have line := length_lt_memberLine style depth key value rest after
    rw [writeMembers_cons, List.length_cons]
    omega

/-- A member is scanned from behind the quote of its key, with the members after it if these
are scanned. -/
theorem scanMember_memberText (key : String) (value : Value) (rest : List (String × Value))
    (after : List Char) (fuel : Nat) (scans : Scans style value)
    (others : ∀ fuel, (Value.writeMembers style depth rest after).length ≤ fuel →
      scanMembers fuel (Value.writeMembers style depth rest after) =
        (Value.membersDraft rest, after))
    (enough : (memberText style depth key value rest after).length ≤ fuel) :
    scanMember fuel (memberText style depth key value rest after) =
      (Value.membersDraft ((key, value) :: rest), after) := by
  have held := scans.longer (depth + 1) (Value.writeMembers style depth rest after)
  have named := length_lt_memberText style depth key value rest after
  obtain ⟨fuel, rfl⟩ := Nat.exists_eq_add_one_of_ne_zero (by omega : fuel ≠ 0)
  have first := scans.scanned (depth + 1) (Value.writeMembers style depth rest after) fuel
    (endsNumber_writeMembers style depth rest after) (by omega)
  rw [memberText, scanMember_key, first, others fuel (by omega), Value.membersDraft]

/-- Members behind the first one are scanned up to the end of their object. -/
theorem scanMembers_writeMembers (members : List (String × Value)) (after : List Char) (fuel : Nat)
    (each : ∀ member ∈ members, Scans style member.2)
    (enough : (Value.writeMembers style depth members after).length ≤ fuel) :
    scanMembers fuel (Value.writeMembers style depth members after) =
      (Value.membersDraft members, after) := by
  induction members generalizing fuel with
  | nil =>
    have closing := length_lt_writeMembers style depth [] after (by simp)
    obtain ⟨fuel, rfl⟩ := Nat.exists_eq_add_one_of_ne_zero (by omega : fuel ≠ 0)
    rw [Value.writeMembers, scanMembers, skipSpaces_newLine, skipSpaces_mark '}' after (by decide)]
    rfl
  | cons member rest inductionHypothesis =>
    obtain ⟨key, value⟩ := member
    have later : ∀ other ∈ rest, Scans style other.2 := fun other member =>
      each other (List.mem_cons_of_mem _ member)
    have line := length_lt_memberLine style depth key value rest after
    rw [writeMembers_cons, List.length_cons] at enough
    obtain ⟨fuel, rfl⟩ := Nat.exists_eq_add_one_of_ne_zero (by omega : fuel ≠ 0)
    rw [writeMembers_cons, scanMembers_comma]
    apply scanMember_memberText style depth key value rest after fuel
    · exact each (key, value) List.mem_cons_self
    · exact fun fuel enough => inductionHypothesis fuel later enough
    · omega

/-- A value whose text is the same everywhere is scanned back if it is where fuel is left. -/
theorem scans_word (value : Value) (c : Char) (word : List Char)
    (written : ∀ depth after, value.write style depth after = c :: (word ++ after))
    (mark : isSpace c = false) (goesOn : c ≠ ']')
    (read : ∀ depth after fuel, scanValue (fuel + 1) (value.write style depth after) =
      (value.draft, after)) : Scans style value := by
  constructor
  case begins => exact fun depth after => ⟨c, _, written depth after, mark, goesOn⟩
  case longer =>
    intro depth after
    rw [written, List.length_cons, List.length_append]
    omega
  case scanned =>
    intro depth after fuel ends enough
    rw [written, List.length_cons] at enough
    obtain ⟨fuel, rfl⟩ := Nat.exists_eq_add_one_of_ne_zero (Nat.ne_zero_of_lt enough)
    exact read depth after fuel

/-- A string is scanned back. -/
theorem scans_string (text : String) : Scans style (.string text) where
  begins depth after := ⟨'"', _, rfl, rfl, by decide⟩
  longer depth after := Nat.lt_succ_of_lt (length_lt_writeChars text.toList after)
  scanned depth after fuel ends enough := by
    obtain ⟨fuel, rfl⟩ := Nat.exists_eq_add_one_of_ne_zero (Nat.ne_zero_of_lt enough)
    change (Draft.string (scanString (writeChars text.toList after)).1,
      (scanString (writeChars text.toList after)).2) = _
    rw [scanString_writeChars, Value.draft]

/-- An integer is scanned back. -/
theorem scans_int (n : Int) : Scans style (.number (.int n)) := by
  obtain ⟨first, digits, written, numeric⟩ := intText_begins n
  have text (depth : Nat) (after : List Char) :
      Value.write style depth (.number (.int n)) after = first :: (digits ++ after) := by
    rw [Value.write, Number.text, written, List.cons_append]
  constructor
  case begins =>
    intro depth after
    exact ⟨first, _, text depth after, mark_of_numeric first numeric⟩
  case longer =>
    intro depth after
    rw [text, List.length_cons, List.length_append]
    omega
  case scanned =>
    intro depth after fuel ends enough
    rw [text, List.length_cons] at enough
    obtain ⟨fuel, rfl⟩ := Nat.exists_eq_add_one_of_ne_zero (Nat.ne_zero_of_lt enough)
    rw [text, scanValue_number fuel first _ numeric, ← List.cons_append, ← written, scanNumber,
      scanNumeral_intText n after ends, Value.draft_int]

/-- An array of values that are scanned back is scanned back. -/
theorem scans_array (items : List Value) (each : ∀ item ∈ items, Scans style item) :
    Scans style (.array items) := by
  cases items with
  | nil =>
    exact scans_word style (.array []) '[' [']'] (fun _ _ => rfl) rfl (by decide)
      fun _ _ _ => rfl
  | cons item rest =>
    have scans := each item List.mem_cons_self
    have later : ∀ other ∈ rest, Scans style other := fun other member =>
      each other (List.mem_cons_of_mem item member)
    have text (depth : Nat) (after : List Char) :
        Value.write style depth (.array (item :: rest)) after =
          '[' :: itemText style depth item rest after := rfl
    constructor
    case begins => exact fun depth after => ⟨'[', _, rfl, rfl, by decide⟩
    case longer =>
      intro depth after
      have others := length_lt_writeItems style depth rest after later
      have first := length_lt_itemText style depth item rest after scans
      exact Nat.lt_succ_of_lt (Nat.lt_trans others first)
    case scanned =>
      intro depth after fuel ends enough
      rw [text, List.length_cons] at enough
      obtain ⟨fuel, rfl⟩ := Nat.exists_eq_add_one_of_ne_zero (Nat.ne_zero_of_lt enough)
      obtain ⟨c, _, next, goesOn⟩ := itemText_next style depth item rest after scans
      have shorter := length_lt_itemText style depth item rest after scans
      have first := scanValue_itemText style depth item rest after fuel scans (by omega)
      have others := scanItems_writeItems style depth rest after fuel later (by omega)
      rw [text, scanValue_bracket fuel _ _ c next goesOn, first, others, Value.draft,
        Value.itemsDraft]

/-- An object of values that are scanned back is scanned back. -/
theorem scans_object (members : List (String × Value))
    (each : ∀ member ∈ members, Scans style member.2) : Scans style (.object members) := by
  cases members with
  | nil =>
    exact scans_word style (.object []) '{' ['}'] (fun _ _ => rfl) rfl (by decide)
      fun _ _ _ => rfl
  | cons member rest =>
    obtain ⟨key, value⟩ := member
    have scans : Scans style value := each (key, value) List.mem_cons_self
    have later : ∀ other ∈ rest, Scans style other.2 := fun other member =>
      each other (List.mem_cons_of_mem _ member)
    have text (depth : Nat) (after : List Char) :
        Value.write style depth (.object ((key, value) :: rest)) after =
          '{' :: style.newLine (depth + 1)
            ('"' :: memberText style depth key value rest after) := rfl
    constructor
    case begins => exact fun depth after => ⟨'{', _, rfl, rfl, by decide⟩
    case longer =>
      intro depth after
      have others := length_lt_writeMembers style depth rest after later
      have held := scans.longer (depth + 1) (Value.writeMembers style depth rest after)
      have named := length_lt_memberText style depth key value rest after
      have line := length_lt_memberLine style depth key value rest after
      rw [text, List.length_cons]
      omega
    case scanned =>
      intro depth after fuel ends enough
      have line := length_lt_memberLine style depth key value rest after
      rw [text, List.length_cons] at enough
      obtain ⟨fuel, rfl⟩ := Nat.exists_eq_add_one_of_ne_zero (Nat.ne_zero_of_lt enough)
      have read := scanMember_memberText style depth key value rest after fuel scans
        (fun fuel enough => scanMembers_writeMembers style depth rest after fuel later enough)
        (by omega)
      rw [text, scanValue_brace, read, Value.draft]

/-- Every value whose numbers are integers of 64 bits is scanned back. -/
theorem scans_of_isWhole (value : Value) (whole : value.isWhole) : Scans style value := by
  induction value using Value.values_induction with
  | null =>
    exact scans_word style .null 'n' ['u', 'l', 'l'] (fun _ _ => rfl) rfl (by decide)
      fun _ _ _ => rfl
  | bool truth =>
    cases truth with
    | true =>
      exact scans_word style (.bool true) 't' ['r', 'u', 'e'] (fun _ _ => rfl) rfl (by decide)
        fun _ _ _ => rfl
    | false =>
      exact scans_word style (.bool false) 'f' ['a', 'l', 's', 'e'] (fun _ _ => rfl) rfl
        (by decide) fun _ _ _ => rfl
  | number n =>
    cases n with
    | int n => exact scans_int style n
    | float x => cases whole
  | string text => exact scans_string style text
  | array items inItems =>
    rw [Value.isWhole_array, List.all_eq_true] at whole
    exact scans_array style items fun item member => inItems item member (whole item member)
  | object members inMembers =>
    rw [Value.isWhole_object, List.all_eq_true] at whole
    exact scans_object style members fun member listed =>
      inMembers member listed (whole member listed)

/-- The scan of a text is the draft of the value, and nothing is left. -/
theorem scan_text (value : Value) (whole : value.isWhole) :
    scan (value.text style) = (value.draft, []) :=
  (scans_of_isWhole style value whole).scanned 0 [] _ endsNumber_nil (Nat.le_refl _)

end Workflow.Json
