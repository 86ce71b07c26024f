import Workflow.Documents
import Workflow.Proofs.Acceptance

/-!
# Damaged texts

The text of a record stands between brackets, and its scan stops behind the bracket that closes it,
whatever follows. Of a text that is read only blanks are left there, so with anything else behind
it the text is refused (`readText_followed`).

This settles cut texts too, wherever the cut falls and whatever the part in front of it looks like.
If the front part of a text were read, the text itself would be that part with more behind it, and
among the rest the closing bracket, which is not blank; so the text would be refused.
-/

namespace Workflow

namespace Json

/-- The brackets around a list and around an object. -/
inductive Brackets : Draft → Char → Char → Prop
  | array (items : DraftItems) : Brackets (.array items) '[' ']'
  | object (members : DraftMembers) : Brackets (.object members) '{' '}'

/-- What a document begins with, up to the bracket that closes its value: blanks, the opening bracket
and all that the value holds. Behind the closing bracket are only blanks. -/
inductive Unclosed : List Char → List Char → Prop
  | document (draft : Draft) (opening closing : Char) (lead inner trail : List Char)
      (brackets : Brackets draft opening closing) (blanks : Blanks lead)
      (value : SpellsValue draft (opening :: (inner ++ [closing]))) (blanksBehind : Blanks trail) :
      Unclosed ((lead ++ opening :: inner) ++ closing :: trail) (lead ++ opening :: inner)

/-- What stands behind an item ends in the bracket that closes the list. -/
theorem SpellsItems.closes {items : DraftItems} {text : List Char}
    (spelled : SpellsItems items text) : ∃ inner, text = inner ++ [']'] := by
  cases spelled with
  | closed blank => exact ⟨blank, rfl⟩
  | cons blank between item text rest behind _ _ _ others =>
    obtain ⟨inner, rfl⟩ := others.closes
    exact ⟨blank ++ ',' :: (between ++ (text ++ inner)), by simp⟩

mutual

/-- A member and those behind it end in the bracket that closes the object. -/
theorem SpellsMember.closes : ∀ {members : DraftMembers} {text : List Char},
    SpellsMember members text → ∃ inner, text = inner ++ ['}']
  | _, _, .cons _ name blank between _ text _ _ _ _ _ _ others => by
    obtain ⟨inner, rfl⟩ := others.closes
    exact ⟨name ++ (blank ++ ':' :: (between ++ (text ++ inner))), by simp⟩

/-- What stands behind a member ends in the bracket that closes the object. -/
theorem SpellsMembers.closes : ∀ {members : DraftMembers} {text : List Char},
    SpellsMembers members text → ∃ inner, text = inner ++ ['}']
  | _, _, .closed blank _ => ⟨blank, rfl⟩
  | _, _, .more blank between _ _ _ _ listed => by
    obtain ⟨inner, rfl⟩ := listed.closes
    exact ⟨blank ++ ',' :: (between ++ '"' :: inner), by simp⟩

end

/-- The text of a list or an object begins and ends with its brackets. -/
theorem SpellsValue.enclosed {draft : Draft} {text : List Char} {opening closing : Char}
    (spelled : SpellsValue draft text) (brackets : Brackets draft opening closing) :
    ∃ inner, text = opening :: (inner ++ [closing]) := by
  cases brackets with
  | array items =>
    cases spelled with
    | noItems blank => exact ⟨blank, rfl⟩
    | array blank item text rest behind _ _ others =>
      obtain ⟨inner, rfl⟩ := others.closes
      exact ⟨blank ++ (text ++ inner), by simp⟩
  | object members =>
    cases spelled with
    | noMembers blank => exact ⟨blank, rfl⟩
    | object blank members text _ listed =>
      obtain ⟨inner, rfl⟩ := listed.closes
      exact ⟨blank ++ '"' :: inner, by simp⟩

/-- A document is what it begins with up to its closing bracket, the bracket and blanks. -/
theorem Unclosed.split {text opened : List Char} (closed : Unclosed text opened) :
    ∃ closing trail, text = opened ++ closing :: trail ∧ isSpace closing = false ∧
      Blanks trail := by
  cases closed with
  | document draft opening closing lead inner trail brackets _ _ blanksBehind =>
    refine ⟨closing, trail, rfl, ?_, blanksBehind⟩
    cases brackets <;> decide

/-- Read from its end, a text begins with blanks and a mark in one way only. -/
theorem skipSpaces_reverse (opened : List Char) {closing : Char} (mark : isSpace closing = false)
    {trail : List Char} (blanks : Blanks trail) :
    skipSpaces (opened ++ closing :: trail).reverse = closing :: opened.reverse := by
  have blanksReversed : Blanks trail.reverse :=
    fun c member => blanks c (List.mem_reverse.mp member)
  rw [List.reverse_append, List.reverse_cons, List.append_assoc,
    skipSpaces_blanks blanksReversed, List.singleton_append, skipSpaces_mark closing _ mark]

/-- The blanks are the space, the line feed, the carriage return and the tab. -/
theorem isSpace_iff (c : Char) : isSpace c ↔ c ∈ [' ', '\n', '\r', '\t'] := by
  simp [isSpace, or_assoc]

/-- The last mark of a document is its closing bracket. -/
theorem Unclosed.eq_of_split {text opened : List Char} (closed : Unclosed text opened)
    (other trail : List Char) (mark : Char) (solid : isSpace mark = false)
    (blanks : Blanks trail) (split : text = other ++ mark :: trail) : opened = other := by
  obtain ⟨closing, behind, whole, closes, blanksBehind⟩ := closed.split
  have reversed := skipSpaces_reverse opened closes blanksBehind
  rw [← whole, split, skipSpaces_reverse other solid blanks] at reversed
  exact List.reverse_injective (List.cons.inj reversed).2.symm

/-- A document has one closing bracket. -/
theorem Unclosed.unique {text opened other : List Char} (closed : Unclosed text opened)
    (closedOther : Unclosed text other) : opened = other := by
  obtain ⟨closing, trail, whole, mark, blanks⟩ := closedOther.split
  exact closed.eq_of_split other trail closing mark blanks whole

/-- A document whose value has brackets has a closing one. -/
theorem Spells.unclosed {draft : Draft} {text : List Char} {opening closing : Char}
    (document : Spells draft text) (brackets : Brackets draft opening closing) :
    ∃ opened, Unclosed text opened := by
  cases document with
  | document lead body trail blanks value blanksBehind =>
    obtain ⟨inner, rfl⟩ := value.enclosed brackets
    have whole : lead ++ (opening :: (inner ++ [closing]) ++ trail) =
        (lead ++ opening :: inner) ++ closing :: trail := by simp
    rw [whole]
    exact ⟨_, .document draft opening closing lead inner trail brackets blanks value blanksBehind⟩

/-- A document whose value has brackets is scanned up to the closing one, whatever follows. -/
theorem Spells.scan_followed {draft : Draft} {text : List Char} {opening closing : Char}
    (document : Spells draft text) (brackets : Brackets draft opening closing) :
    ∃ trail, Blanks trail ∧ ∀ more, scan (text ++ more) = (draft, trail ++ more) := by
  cases document with
  | document lead body trail blanks value blanksBehind =>
    refine ⟨trail, blanksBehind, fun more => ?_⟩
    rw [List.append_assoc, List.append_assoc]
    apply scan_value value blanks
    rintro numeral rfl
    cases brackets

/-- Nothing is left without the blanks in front exactly if there are only blanks. -/
theorem skipSpaces_eq_nil_iff (text : List Char) : skipSpaces text = [] ↔ Blanks text :=
  List.dropWhile_eq_nil_iff

variable {ρ : Type} (schema : Schema ρ) (name : ρ)

/-- Only a list or an object is read as a record. -/
theorem brackets_of_read (draft : Draft) (value : Value)
    (read : draft.read schema (.record name) = .ok value) :
    ∃ opening closing, Brackets draft opening closing := by
  cases draft with
  | array items => exact ⟨'[', ']', .array items⟩
  | object members => exact ⟨'{', '}', .object members⟩
  | null | bool | number | string | broken => cases read

variable (text : String) (value : Value)
  (taken : readText schema (.record name) text = .ok value)

include taken

/-- A text that is read as a record is a document whose value has brackets. -/
theorem document_of_readText : ∃ draft opening closing, Spells draft text.toList ∧
    Brackets draft opening closing ∧ draft.read schema (.record name) = .ok value := by
  have document := spells_of_readText schema (.record name) text value taken
  rw [readText_spelled schema (.record name) text document] at taken
  obtain ⟨opening, closing, brackets⟩ := brackets_of_read schema name _ value taken
  exact ⟨_, opening, closing, document, brackets, taken⟩

/-- A text that is read as a record is refused with anything but blanks behind it. -/
theorem readText_followed (more : String) (other : ¬ Blanks more.toList) :
    readText schema (.record name) (text ++ more) = .error .trailingText := by
  obtain ⟨draft, opening, closing, document, brackets, read⟩ :=
    document_of_readText schema name text value taken
  obtain ⟨trail, blanks, scanned⟩ := document.scan_followed brackets
  have left : skipSpaces (trail ++ more.toList) ≠ [] := by
    rwa [skipSpaces_blanks blanks, Ne, skipSpaces_eq_nil_iff]
  rw [readText, String.toList_append, scanned]
  simp only [read, bind, Except.bind, if_neg left]
  rfl

/-- A text that is read as a record is refused if it ends before its closing bracket. -/
theorem readText_cut (opened : List Char) (closed : Unclosed text.toList opened) (front : String)
    (cut : front.toList <+: opened) :
    ∃ cause, readText schema (.record name) front = .error cause := by
  obtain ⟨closing, trail, whole, mark, _⟩ := closed.split
  obtain ⟨rest, split⟩ := cut
  have parts : text = front ++ String.ofList (rest ++ closing :: trail) := by
    apply String.toList_inj.mp
    rw [whole, ← split, String.toList_append, String.toList_ofList, List.append_assoc]
  cases readFront : readText schema (.record name) front with
  | error cause => exact ⟨cause, rfl⟩
  | ok image =>
    have bracket : ¬ Blanks (String.ofList (rest ++ closing :: trail)).toList := by
      intro blanks
      have space := blanks closing (by simp)
      rw [mark] at space
      cases space
    have refused := readText_followed schema name front image readFront _ bracket
    rw [← parts, taken] at refused
    cases refused

end Json

/-- A text that is read as a tree is refused with anything behind it but spaces, line feeds,
carriage returns and tabs. It has one bracket that closes its value, and every text that stops
before this bracket is refused. -/
theorem ofText_damaged (text : String) (root : Step) (read : Step.ofText text = .ok root) :
    (∀ more : String, (∃ c ∈ more.toList, c ∉ [' ', '\n', '\r', '\t']) →
        Step.ofText (text ++ more) = .error .trailingText) ∧
      (∃! opened, Json.Unclosed text.toList opened) ∧
      ∀ opened, Json.Unclosed text.toList opened → ∀ front : String, front.toList <+: opened →
        ∃ cause, Step.ofText front = .error cause := by
  obtain ⟨value, taken, _⟩ := (InOrder.map_ok_iff _ _ _).mp read
  refine ⟨?followed, ?closed, ?cut⟩
  case followed =>
    rintro more ⟨c, member, other⟩
    have solid : ¬ Json.Blanks more.toList := by
      intro blanks
      exact other ((Json.isSpace_iff c).mp (blanks c member))
    rw [Step.ofText, Json.readText_followed documentSchema .step text value taken more solid]
    rfl
  case closed =>
    obtain ⟨draft, opening, closing, document, brackets, _⟩ :=
      Json.document_of_readText documentSchema .step text value taken
    obtain ⟨opened, closed⟩ := document.unclosed brackets
    exact ⟨opened, closed, fun other closedOther => closedOther.unique closed⟩
  case cut =>
    intro opened closed front cut
    obtain ⟨cause, refused⟩ :=
      Json.readText_cut documentSchema .step text value taken opened closed front cut
    rw [Step.ofText, refused]
    exact ⟨cause, rfl⟩

/-- A text with a member that no step has and a step behind the root, without its last bracket. -/
def openText : String := "\x7b\"note\":[1e5],\"id\":\"s\",\"childNode\":\x7b\"id\":\"t\"\x7d"

/-- The text with its last bracket, and blanks behind it. -/
def closedText : String := openText ++ "\x7d \n"

/-- The text with its last bracket is read. It is refused with one bracket more, and the text without
the bracket is refused. -/
theorem ofText_damaged_closedText :
    (∃ root child, Step.ofText closedText = .ok root ∧ root.id = some "s" ∧
        root.child = some child ∧ child.id = some "t") ∧
      Step.ofText (closedText ++ "\x7d") = .error .trailingText ∧
      ∃ cause, Step.ofText openText = .error cause := by
  have told : (Step.ofText closedText).toOption.map
      (fun root => (root.id, root.child.map (·.id))) = some (some "s", some (some "t")) := by
    decide +kernel
  cases read : Step.ofText closedText with
  | error cause =>
    rw [read] at told
    cases told
  | ok root =>
    rw [read] at told
    obtain ⟨id, childId⟩ := Prod.mk.inj (Option.some.inj told)
    obtain ⟨child, behind, childId⟩ := Option.map_eq_some_iff.mp childId
    obtain ⟨followed, ⟨opened, closed, _⟩, cut⟩ := ofText_damaged closedText root read
    have blanks : Json.Blanks [' ', '\n'] := by simp [Json.Blanks, Json.isSpace]
    obtain rfl : opened = openText.toList :=
      closed.eq_of_split openText.toList [' ', '\n'] '}' (by decide) blanks (by decide)
    refine ⟨⟨root, child, rfl, id, behind, childId⟩, ?_, ?_⟩
    · exact followed "\x7d" ⟨'}', by decide, by decide⟩
    · exact cut _ closed openText List.prefix_rfl

end Workflow
