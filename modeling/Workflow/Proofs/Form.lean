import Workflow.Proofs.Grammar
import Workflow.Proofs.InOrder

/-!
# What is scanned without a fault is spelled by the grammar

The scan stops at the first fault and records it in the draft. A draft without a fault, which is
one that may be passed over, is therefore spelled by the text up to where the scan stopped
(`spells_of_scan`). Conversely, whatever the grammar spells has no fault.

The induction is on the fuel of the scan. A value begins behind the blanks in front of it, so what
is said of a value is said of the text without them; items and members say it of the whole text
behind the one before.
-/

namespace Workflow.Json

/-- A string without a fault is spelled up to its closing quote. -/
theorem spellsString_of_scan (text after : List Char) (spelling : Spelling)
    (scanned : scanString text = (spelling, after)) (whole : spelling.pass = .ok ()) :
    ∃ body, SpellsString spelling body ∧ text = body ++ after := by
  fun_induction scanString text generalizing spelling with
  | case2 rest =>
    cases scanned
    exact ⟨['"'], .closed, rfl⟩
  | case4 a b c d rest code known behind left read inductionHypothesis =>
    cases scanned
    obtain ⟨body, spelled, rfl⟩ := inductionHypothesis behind read whole
    exact ⟨_, .numbered a b c d code behind body known spelled, rfl⟩
  | case7 letter rest _ _ c known behind left read inductionHypothesis =>
    cases scanned
    obtain ⟨body, spelled, rfl⟩ := inductionHypothesis behind read whole
    exact ⟨_, .escaped letter c behind body known spelled, rfl⟩
  | case10 c rest noQuote noCut _ _ noEscape visible behind left read inductionHypothesis =>
    cases scanned
    have plain : c ≠ '\\' := by
      rintro rfl
      cases rest with
      | nil => exact noCut rfl rfl
      | cons letter rest => exact noEscape letter rest rfl rfl
    obtain ⟨body, spelled, rfl⟩ := inductionHypothesis behind read whole
    exact ⟨_, .plain c behind body visible noQuote plain spelled, rfl⟩
  | case6 rest =>
    cases scanned
    unfold digitFault at whole
    split at whole <;> cases whole
  | case1 | case3 | case5 | case8 | case9 =>
    cases scanned
    cases whole

/-- Digits are scanned as they stand. -/
theorem isDigits_of_scan (text digits after : List Char)
    (scanned : scanDigits text = .ok (digits, after)) :
    IsDigits digits ∧ text = digits ++ after := by
  unfold scanDigits at scanned
  split at scanned
  case h_1 => cases scanned
  case h_2 c rest =>
    split at scanned
    case isTrue digit =>
      cases scanned
      refine ⟨⟨?_, fun _ member => List.mem_takeWhile_imp member⟩,
        List.takeWhile_append_dropWhile.symm⟩
      rw [List.takeWhile_cons_of_pos digit]
      exact List.cons_ne_nil _ _
    case isFalse => cases scanned

/-- Digits before a point are scanned as they stand, and have no superfluous zero. -/
theorem isDigits_of_scanWhole (text digits after : List Char)
    (scanned : scanWhole text = .ok (digits, after)) :
    IsDigits digits ∧ (∀ second rest, digits ≠ '0' :: second :: rest) ∧ text = digits ++ after := by
  unfold scanWhole at scanned
  split at scanned
  case h_1 => cases scanned
  case h_2 plain =>
    obtain ⟨each, split⟩ := isDigits_of_scan text digits after scanned
    refine ⟨each, ?_, split⟩
    rintro second rest rfl
    exact plain second rest after scanned

/-- A fraction is scanned as it stands. -/
theorem spellsFraction_of_scan (text after : List Char) (fraction : Option (List Char))
    (scanned : scanFraction text = .ok (fraction, after)) :
    ∃ point, SpellsFraction fraction point ∧ text = point ++ after := by
  unfold scanFraction at scanned
  split at scanned
  case h_1 rest =>
    obtain ⟨⟨digits, left⟩, read, same⟩ := (InOrder.map_ok_iff _ _ _).mp scanned
    cases same
    obtain ⟨each, split⟩ := isDigits_of_scan rest digits after read
    exact ⟨_, .present digits each, by rw [split]; rfl⟩
  case h_2 =>
    cases scanned
    exact ⟨[], .absent, rfl⟩

/-- A sign is scanned as it stands. -/
theorem spellsSign_of_scan (text : List Char) :
    ∃ sign, SpellsSign (scanSign text).1 sign ∧ text = sign ++ (scanSign text).2 := by
  unfold scanSign
  split
  case h_1 => exact ⟨['-'], .minus, rfl⟩
  case h_2 => exact ⟨['+'], .plus, rfl⟩
  case h_3 => exact ⟨[], .absent, rfl⟩

/-- An exponent is scanned as it stands. -/
theorem spellsExponent_of_scan (text after : List Char) (exponent : Option (Bool × List Char))
    (scanned : scanExponent text = .ok (exponent, after)) :
    ∃ power, SpellsExponent exponent power ∧ text = power ++ after := by
  unfold scanExponent at scanned
  split at scanned
  case h_1 c rest =>
    split at scanned
    case isTrue marked =>
      obtain ⟨sign, signed, split⟩ := spellsSign_of_scan rest
      generalize scanSign rest = pair at scanned signed split
      obtain ⟨negative, unsigned⟩ := pair
      obtain ⟨⟨digits, left⟩, read, same⟩ := (InOrder.map_ok_iff _ _ _).mp scanned
      cases same
      obtain ⟨each, behind⟩ := isDigits_of_scan unsigned digits after read
      refine ⟨_, .present c negative sign digits marked signed each, ?_⟩
      rw [List.cons_append, List.append_assoc, ← behind, ← split]
    case isFalse =>
      cases scanned
      exact ⟨[], .absent, rfl⟩
  case h_2 =>
    cases scanned
    exact ⟨[], .absent, rfl⟩

/-- A number is scanned as it stands. -/
theorem spellsNumeral_of_scan (text after : List Char) (numeral : Numeral)
    (scanned : scanNumeral text = .ok (numeral, after)) :
    ∃ body, SpellsNumeral numeral body ∧ text = body ++ after := by
  unfold scanNumeral at scanned
  split at scanned
  case h_1 negative unsigned signed =>
    have minus : text = (if negative then ['-'] else []) ++ unsigned := by
      split at signed <;> cases signed <;> rfl
    obtain ⟨⟨whole, behindWhole⟩, readWhole, scanned⟩ := (InOrder.bind_ok_iff _ _ _).mp scanned
    obtain ⟨⟨fraction, behindPoint⟩, readFraction, scanned⟩ :=
      (InOrder.bind_ok_iff _ _ _).mp scanned
    obtain ⟨⟨exponent, left⟩, readExponent, same⟩ := (InOrder.bind_ok_iff _ _ _).mp scanned
    cases same
    obtain ⟨each, plain, splitWhole⟩ := isDigits_of_scanWhole unsigned whole behindWhole readWhole
    obtain ⟨point, pointed, splitPoint⟩ :=
      spellsFraction_of_scan behindWhole behindPoint fraction readFraction
    obtain ⟨power, raised, splitPower⟩ :=
      spellsExponent_of_scan behindPoint after exponent readExponent
    refine ⟨_, .number negative whole fraction exponent point power each plain pointed raised, ?_⟩
    rw [minus, splitWhole, splitPoint, splitPower]
    simp only [List.append_assoc]

/-- A word without a fault is scanned as it stands. -/
theorem word_of_scan (value draft : Draft) (word text after : List Char)
    (scanned : scanWord value word text = (draft, after)) (whole : draft.pass = .ok ()) :
    draft = value ∧ text = word ++ after := by
  fun_induction scanWord value word text with
  | case1 text =>
    cases scanned
    exact ⟨rfl, rfl⟩
  | case3 letter word text inductionHypothesis =>
    obtain ⟨same, rfl⟩ := inductionHypothesis scanned
    exact ⟨same, rfl⟩
  | case2 | case4 =>
    cases scanned
    cases whole

/-- An item and those behind it have no fault exactly if neither has. -/
theorem pass_items_iff (item : Draft) (rest : DraftItems) :
    (DraftItems.cons item rest).pass = .ok () ↔ item.pass = .ok () ∧ rest.pass = .ok () := by
  simp only [DraftItems.pass, InOrder.bind_ok_iff]
  exact ⟨fun ⟨_, first, others⟩ => ⟨first, others⟩, fun ⟨first, others⟩ => ⟨(), first, others⟩⟩

/-- A member and those behind it have no fault exactly if its key, its value and the others have
none. -/
theorem pass_members_iff (key : Spelling) (value : Draft) (rest : DraftMembers) :
    (DraftMembers.cons key value rest).pass = .ok () ↔
      key.pass = .ok () ∧ value.pass = .ok () ∧ rest.pass = .ok () := by
  simp only [DraftMembers.pass, InOrder.bind_ok_iff]
  exact ⟨fun ⟨_, named, _, held, others⟩ => ⟨named, held, others⟩,
    fun ⟨named, held, others⟩ => ⟨(), named, (), held, others⟩⟩

/-- Blanks are skipped once and for all. -/
theorem skipSpaces_idempotent (text : List Char) :
    skipSpaces (skipSpaces text) = skipSpaces text :=
  List.dropWhile_idempotent isSpace text

-- The induction is on the fuel, each theorem for one of the four scans.
mutual

/-- A value without a fault is spelled by the text behind the blanks in front of it. -/
theorem spellsValue_of_scan : ∀ (fuel : Nat) (text after : List Char) (draft : Draft),
    scanValue fuel text = (draft, after) → draft.pass = .ok () →
      ∃ body, SpellsValue draft body ∧ skipSpaces text = body ++ after
  | 0, text, after, draft, scanned, whole => by
    cases scanned
    cases whole
  | fuel + 1, text, after, draft, scanned, whole => by
    unfold scanValue at scanned
    split at scanned
    case h_1 begins =>
      cases scanned
      cases whole
    case h_2 rest begins =>
      obtain ⟨rfl, split⟩ := word_of_scan _ draft _ rest after scanned whole
      exact ⟨_, .null, by rw [begins, split]; rfl⟩
    case h_3 rest begins =>
      obtain ⟨rfl, split⟩ := word_of_scan _ draft _ rest after scanned whole
      exact ⟨_, .isTrue, by rw [begins, split]; rfl⟩
    case h_4 rest begins =>
      obtain ⟨rfl, split⟩ := word_of_scan _ draft _ rest after scanned whole
      exact ⟨_, .isFalse, by rw [begins, split]; rfl⟩
    case h_5 rest begins =>
      split at scanned
      case h_1 spelling left read =>
        cases scanned
        obtain ⟨body, spelled, split⟩ := spellsString_of_scan rest after spelling read whole
        exact ⟨_, .string spelling body spelled, by rw [begins, split]; rfl⟩
    case h_6 rest begins =>
      obtain ⟨blank, blanks, split⟩ := exists_blanks rest
      split at scanned
      case h_1 =>
        cases scanned
        cases whole
      case h_2 left closes =>
        cases scanned
        refine ⟨_, .noItems blank blanks, ?_⟩
        rw [begins, split, closes]
        simp
      case h_3 first _ _ =>
        split at scanned
        case h_1 item behindItem readItem =>
          split at scanned
          case h_1 items left readItems =>
            cases scanned
            obtain ⟨wholeItem, wholeItems⟩ := (pass_items_iff item items).mp whole
            obtain ⟨body, spelled, splitItem⟩ :=
              spellsValue_of_scan fuel _ behindItem item readItem wholeItem
            obtain ⟨behind, others, splitItems⟩ :=
              spellsItems_of_scan fuel behindItem after items readItems wholeItems
            refine ⟨_, .array blank item body items behind blanks spelled others, ?_⟩
            rw [skipSpaces_idempotent] at splitItem
            rw [begins, split, splitItem, splitItems]
            simp only [List.append_assoc, List.cons_append]
    case h_7 rest begins =>
      obtain ⟨blank, blanks, split⟩ := exists_blanks rest
      split at scanned
      case h_1 =>
        cases scanned
        cases whole
      case h_2 left closes =>
        cases scanned
        refine ⟨_, .noMembers blank blanks, ?_⟩
        rw [begins, split, closes]
        simp
      case h_3 first opens =>
        split at scanned
        case h_1 members left read =>
          cases scanned
          obtain ⟨body, listed, splitMembers⟩ :=
            spellsMember_of_scan fuel first after members read whole
          refine ⟨_, .object blank members body blanks listed, ?_⟩
          rw [begins, split, opens, splitMembers]
          simp only [List.append_assoc, List.cons_append]
      case h_4 =>
        split at scanned
        cases scanned
        cases whole
    case h_8 c rest _ _ _ _ _ _ begins =>
      split at scanned
      case isTrue =>
        unfold scanNumber at scanned
        split at scanned
        case h_1 numeral left read =>
          cases scanned
          obtain ⟨body, spelled, split⟩ := spellsNumeral_of_scan (c :: rest) after numeral read
          exact ⟨body, .number numeral body spelled, by rw [begins, split]⟩
        case h_2 =>
          cases scanned
          cases whole
      case isFalse =>
        cases scanned
        cases whole

/-- Items without a fault are spelled up to the end of their list. -/
theorem spellsItems_of_scan : ∀ (fuel : Nat) (text after : List Char) (items : DraftItems),
    scanItems fuel text = (items, after) → items.pass = .ok () →
      ∃ body, SpellsItems items body ∧ text = body ++ after
  | 0, text, after, items, scanned, whole => by
    cases scanned
    cases whole
  | fuel + 1, text, after, items, scanned, whole => by
    obtain ⟨blank, blanks, split⟩ := exists_blanks text
    unfold scanItems at scanned
    split at scanned
    case h_1 =>
      cases scanned
      cases whole
    case h_2 left closes =>
      cases scanned
      refine ⟨_, .closed blank blanks, ?_⟩
      rw [split, closes]
      simp
    case h_3 rest goesOn =>
      obtain ⟨between, blanksBetween, splitRest⟩ := exists_blanks rest
      split at scanned
      case h_1 =>
        cases scanned
        cases whole
      case h_2 next _ =>
        split at scanned
        case h_1 item behindItem readItem =>
          split at scanned
          case h_1 others left readItems =>
            cases scanned
            obtain ⟨wholeItem, wholeItems⟩ := (pass_items_iff item others).mp whole
            obtain ⟨body, spelled, splitItem⟩ :=
              spellsValue_of_scan fuel _ behindItem item readItem wholeItem
            obtain ⟨behind, listed, splitItems⟩ :=
              spellsItems_of_scan fuel behindItem after others readItems wholeItems
            refine ⟨_, .cons blank between item body others behind blanks blanksBetween spelled
              listed, ?_⟩
            rw [skipSpaces_idempotent] at splitItem
            rw [split, goesOn, splitRest, splitItem, splitItems]
            simp only [List.append_assoc, List.cons_append]
    case h_4 =>
      cases scanned
      cases whole

/-- A member without a fault, and those behind it, are spelled up to the end of their object. -/
theorem spellsMember_of_scan : ∀ (fuel : Nat) (text after : List Char) (members : DraftMembers),
    scanMember fuel text = (members, after) → members.pass = .ok () →
      ∃ body, SpellsMember members body ∧ text = body ++ after
  | 0, text, after, members, scanned, whole => by
    cases scanned
    cases whole
  | fuel + 1, text, after, members, scanned, whole => by
    unfold scanMember at scanned
    split at scanned
    case h_1 key behindKey readKey =>
      obtain ⟨blank, blanks, split⟩ := exists_blanks behindKey
      split at scanned
      case h_1 =>
        cases scanned
        cases ((pass_members_iff key _ _).mp whole).2.1
      case h_2 rest colon =>
        split at scanned
        case h_1 value behindValue readValue =>
          split at scanned
          case h_1 others left readOthers =>
            cases scanned
            obtain ⟨wholeKey, wholeValue, wholeOthers⟩ :=
              (pass_members_iff key value others).mp whole
            obtain ⟨name, named, splitKey⟩ :=
              spellsString_of_scan text behindKey key readKey wholeKey
            obtain ⟨between, blanksBetween, splitRest⟩ := exists_blanks rest
            obtain ⟨body, held, splitValue⟩ :=
              spellsValue_of_scan fuel rest behindValue value readValue wholeValue
            obtain ⟨behind, listed, splitOthers⟩ :=
              spellsMembers_of_scan fuel behindValue after others readOthers wholeOthers
            refine ⟨_, .cons key name blank between value body others behind named blanks
              blanksBetween held listed, ?_⟩
            rw [splitKey, split, colon, splitRest, splitValue, splitOthers]
            simp only [List.append_assoc, List.cons_append]
      case h_3 =>
        cases scanned
        cases ((pass_members_iff key _ _).mp whole).2.1

/-- Members without a fault behind one that has been read are spelled up to the end of their
object. -/
theorem spellsMembers_of_scan : ∀ (fuel : Nat) (text after : List Char) (members : DraftMembers),
    scanMembers fuel text = (members, after) → members.pass = .ok () →
      ∃ body, SpellsMembers members body ∧ text = body ++ after
  | 0, text, after, members, scanned, whole => by
    cases scanned
    cases whole
  | fuel + 1, text, after, members, scanned, whole => by
    obtain ⟨blank, blanks, split⟩ := exists_blanks text
    unfold scanMembers at scanned
    split at scanned
    case h_1 =>
      cases scanned
      cases whole
    case h_2 left closes =>
      cases scanned
      refine ⟨_, .closed blank blanks, ?_⟩
      rw [split, closes]
      simp
    case h_3 rest goesOn =>
      obtain ⟨between, blanksBetween, splitRest⟩ := exists_blanks rest
      split at scanned
      case h_1 =>
        cases scanned
        cases whole
      case h_2 =>
        cases scanned
        cases whole
      case h_3 next opens =>
        obtain ⟨body, listed, splitMembers⟩ :=
          spellsMember_of_scan fuel next after members scanned whole
        refine ⟨_, .more blank between members body blanks blanksBetween listed, ?_⟩
        rw [split, goesOn, splitRest, opens, splitMembers]
        simp only [List.append_assoc, List.cons_append]
      case h_4 =>
        split at scanned
        cases scanned
        cases whole
    case h_4 =>
      cases scanned
      cases whole

end

/-- A string that is spelled has no fault. -/
theorem SpellsString.pass {spelling : Spelling} {text : List Char}
    (spelled : SpellsString spelling text) : spelling.pass = .ok () := by
  induction spelled with
  | closed => rfl
  | plain _ _ _ _ _ _ _ inductionHypothesis => exact inductionHypothesis
  | escaped _ _ _ _ _ _ inductionHypothesis => exact inductionHypothesis
  | numbered _ _ _ _ _ _ _ _ _ inductionHypothesis => exact inductionHypothesis

mutual

/-- A value that is spelled has no fault. -/
theorem SpellsValue.pass : ∀ {draft : Draft} {text : List Char}, SpellsValue draft text →
    draft.pass = .ok ()
  | _, _, .null | _, _, .isTrue | _, _, .isFalse | _, _, .number _ _ _ => rfl
  | _, _, .string _ _ spelled => spelled.pass
  | _, _, .noItems _ _ | _, _, .noMembers _ _ => rfl
  | _, _, .array _ item _ rest _ _ first others =>
    (pass_items_iff item rest).mpr ⟨first.pass, others.pass⟩
  | _, _, .object _ _ _ _ listed => listed.pass

/-- Items that are spelled have no fault. -/
theorem SpellsItems.pass : ∀ {items : DraftItems} {text : List Char}, SpellsItems items text →
    items.pass = .ok ()
  | _, _, .closed _ _ => rfl
  | _, _, .cons _ _ item _ rest _ _ _ next others =>
    (pass_items_iff item rest).mpr ⟨next.pass, others.pass⟩

/-- A member that is spelled has no fault, nor have those behind it. -/
theorem SpellsMember.pass : ∀ {members : DraftMembers} {text : List Char},
    SpellsMember members text → members.pass = .ok ()
  | _, _, .cons key _ _ _ value _ rest _ named _ _ held others =>
    (pass_members_iff key value rest).mpr ⟨named.pass, held.pass, others.pass⟩

/-- Members that are spelled behind another have no fault. -/
theorem SpellsMembers.pass : ∀ {members : DraftMembers} {text : List Char},
    SpellsMembers members text → members.pass = .ok ()
  | _, _, .closed _ _ => rfl
  | _, _, .more _ _ _ _ _ _ listed => listed.pass

end

/-- A text is the document that its draft spells if the draft has no fault and only blanks are
left. -/
theorem spells_of_scan (text after : List Char) (draft : Draft)
    (scanned : scan text = (draft, after)) (whole : draft.pass = .ok ())
    (ends : skipSpaces after = []) : Spells draft text := by
  obtain ⟨body, spelled, behind⟩ := spellsValue_of_scan text.length text after draft scanned whole
  obtain ⟨lead, blanks, split⟩ := exists_blanks text
  obtain ⟨trail, blanksBehind, left⟩ := exists_blanks after
  rw [ends, List.append_nil] at left
  rw [split, behind, left]
  exact .document lead body trail blanks spelled blanksBehind

/-- A document stays one with more blanks behind it. -/
theorem Spells.append {draft : Draft} {text : List Char} (document : Spells draft text)
    (trail : List Char) (blanks : Blanks trail) : Spells draft (text ++ trail) := by
  cases document with
  | document lead body last blanksLead spelled blanksLast =>
    rw [List.append_assoc, List.append_assoc]
    exact .document lead body (last ++ trail) blanksLead spelled (blanksLast.append blanks)

end Workflow.Json
