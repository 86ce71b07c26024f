import Workflow.Json.Read
import Workflow.Proofs.Scanning

/-!
# The grammar of documents

The grammar says which texts spell a draft: the tokens in their order, with any number of blanks
between them. It is written without the scan. A string is given by what stands for each of its
characters, and a number by its digits and marks.

A text of the grammar is scanned as the draft that it spells, up to its last character, whatever
follows it; only a number needs something behind it that does not belong to a number. The scan has
fuel for each character, and each token uses up at least one.
-/

namespace Workflow.Json

/-- Blanks only. -/
def Blanks (text : List Char) : Prop := ∀ c ∈ text, isSpace c

/-- What stands behind the opening quote of a string, its closing quote included. -/
inductive SpellsString : Spelling → List Char → Prop
  | closed : SpellsString .closed ['"']
  | plain (c : Char) (rest : Spelling) (text : List Char) (visible : ¬ c.toNat < 0x20)
      (noQuote : c ≠ '"') (noEscape : c ≠ '\\') (behind : SpellsString rest text) :
      SpellsString (.char c rest) (c :: text)
  | escaped (letter c : Char) (rest : Spelling) (text : List Char)
      (known : escaped? letter = some c) (behind : SpellsString rest text) :
      SpellsString (.char c rest) ('\\' :: letter :: text)
  | numbered (a b c d : Char) (code : Nat) (rest : Spelling) (text : List Char)
      (known : codeUnit? a b c d = some code) (behind : SpellsString rest text) :
      SpellsString (.unit code rest) ('\\' :: 'u' :: a :: b :: c :: d :: text)

/-- One digit or more. -/
def IsDigits (digits : List Char) : Prop := digits ≠ [] ∧ ∀ c ∈ digits, c.isDigit

/-- A point with digits behind it, or nothing. -/
inductive SpellsFraction : Option (List Char) → List Char → Prop
  | absent : SpellsFraction none []
  | present (digits : List Char) (each : IsDigits digits) :
      SpellsFraction (some digits) ('.' :: digits)

/-- The sign of an exponent. -/
inductive SpellsSign : Bool → List Char → Prop
  | absent : SpellsSign false []
  | plus : SpellsSign false ['+']
  | minus : SpellsSign true ['-']

/-- The mark of an exponent with a sign and digits behind it, or nothing. -/
inductive SpellsExponent : Option (Bool × List Char) → List Char → Prop
  | absent : SpellsExponent none []
  | present (mark : Char) (negative : Bool) (sign digits : List Char)
      (marked : mark = 'e' ∨ mark = 'E') (signed : SpellsSign negative sign)
      (each : IsDigits digits) :
      SpellsExponent (some (negative, digits)) (mark :: (sign ++ digits))

/-- A number: perhaps a minus sign, digits without a superfluous zero, a fraction, an exponent. -/
inductive SpellsNumeral : Numeral → List Char → Prop
  | number (negative : Bool) (whole : List Char) (fraction : Option (List Char))
      (exponent : Option (Bool × List Char)) (point power : List Char) (each : IsDigits whole)
      (plain : ∀ second rest, whole ≠ '0' :: second :: rest)
      (behindPoint : SpellsFraction fraction point) (behindMark : SpellsExponent exponent power) :
      SpellsNumeral ⟨negative, whole, fraction, exponent⟩
        ((if negative then ['-'] else []) ++ (whole ++ (point ++ power)))

mutual

/-- The text of a value, from its first character to its last. -/
inductive SpellsValue : Draft → List Char → Prop
  | null : SpellsValue .null ['n', 'u', 'l', 'l']
  | isTrue : SpellsValue (.bool true) ['t', 'r', 'u', 'e']
  | isFalse : SpellsValue (.bool false) ['f', 'a', 'l', 's', 'e']
  | number (numeral : Numeral) (text : List Char) (spelled : SpellsNumeral numeral text) :
      SpellsValue (.number numeral) text
  | string (spelling : Spelling) (text : List Char) (spelled : SpellsString spelling text) :
      SpellsValue (.string spelling) ('"' :: text)
  | noItems (blank : List Char) (blanks : Blanks blank) :
      SpellsValue (.array .closed) ('[' :: (blank ++ [']']))
  | array (blank : List Char) (item : Draft) (text : List Char) (rest : DraftItems)
      (behind : List Char) (blanks : Blanks blank) (first : SpellsValue item text)
      (others : SpellsItems rest behind) :
      SpellsValue (.array (.cons item rest)) ('[' :: (blank ++ (text ++ behind)))
  | noMembers (blank : List Char) (blanks : Blanks blank) :
      SpellsValue (.object .closed) ('{' :: (blank ++ ['}']))
  | object (blank : List Char) (members : DraftMembers) (text : List Char) (blanks : Blanks blank)
      (listed : SpellsMember members text) :
      SpellsValue (.object members) ('{' :: (blank ++ '"' :: text))

/-- What stands behind an item: the bracket that ends the list, or a comma and more items. -/
inductive SpellsItems : DraftItems → List Char → Prop
  | closed (blank : List Char) (blanks : Blanks blank) : SpellsItems .closed (blank ++ [']'])
  | cons (blank between : List Char) (item : Draft) (text : List Char) (rest : DraftItems)
      (behind : List Char) (blanks : Blanks blank) (blanksBetween : Blanks between)
      (next : SpellsValue item text) (others : SpellsItems rest behind) :
      SpellsItems (.cons item rest) (blank ++ ',' :: (between ++ (text ++ behind)))

/-- What stands behind the opening quote of a key: the key, its value, and more members. -/
inductive SpellsMember : DraftMembers → List Char → Prop
  | cons (key : Spelling) (name blank between : List Char) (value : Draft) (text : List Char)
      (rest : DraftMembers) (behind : List Char) (named : SpellsString key name)
      (blanks : Blanks blank) (blanksBetween : Blanks between) (held : SpellsValue value text)
      (others : SpellsMembers rest behind) :
      SpellsMember (.cons key value rest) (name ++ (blank ++ ':' :: (between ++ (text ++ behind))))

/-- What stands behind a member: the bracket that ends the object, or a comma and more members. -/
inductive SpellsMembers : DraftMembers → List Char → Prop
  | closed (blank : List Char) (blanks : Blanks blank) : SpellsMembers .closed (blank ++ ['}'])
  | more (blank between : List Char) (members : DraftMembers) (text : List Char)
      (blanks : Blanks blank) (blanksBetween : Blanks between)
      (listed : SpellsMember members text) :
      SpellsMembers members (blank ++ ',' :: (between ++ '"' :: text))

end

/-- The text of a document: one value, with blanks around it. -/
inductive Spells (draft : Draft) : List Char → Prop
  | document (lead text trail : List Char) (blanks : Blanks lead) (value : SpellsValue draft text)
      (blanksBehind : Blanks trail) : Spells draft (lead ++ (text ++ trail))

/-- No blanks are blanks. -/
theorem blanks_nil : Blanks [] := by simp [Blanks]

/-- Blanks with blanks behind them are blanks. -/
theorem Blanks.append {text more : List Char} (blanks : Blanks text) (others : Blanks more) :
    Blanks (text ++ more) := by
  intro c member
  exact (List.mem_append.mp member).elim (blanks c) (others c)

/-- Blanks in front are skipped. -/
theorem skipSpaces_blanks {blank : List Char} (blanks : Blanks blank) (text : List Char) :
    skipSpaces (blank ++ text) = skipSpaces text :=
  List.dropWhile_append_of_pos blanks

/-- Nothing is left of blanks. -/
theorem skipSpaces_of_blanks {blank : List Char} (blanks : Blanks blank) :
    skipSpaces blank = [] := by
  simpa [skipSpaces] using skipSpaces_blanks blanks []

/-- A text is what is skipped of it and what is not. -/
theorem exists_blanks (text : List Char) :
    ∃ blank, Blanks blank ∧ text = blank ++ skipSpaces text :=
  ⟨text.takeWhile isSpace, fun _ member => List.mem_takeWhile_imp member,
    List.takeWhile_append_dropWhile.symm⟩

/-- The text of a string is scanned up to its closing quote. -/
theorem scanString_spelled {spelling : Spelling} {text : List Char}
    (spelled : SpellsString spelling text) (after : List Char) :
    scanString (text ++ after) = (spelling, after) := by
  induction spelled with
  | closed => rfl
  | plain c rest text visible noQuote noEscape _ inductionHypothesis =>
    simp [scanString, visible, noEscape, inductionHypothesis]
  | escaped letter c rest text known _ inductionHypothesis =>
    have noNumber : letter ≠ 'u' := by
      rintro rfl
      cases known
    simp [scanString, noNumber, known, inductionHypothesis]
  | numbered a b c d code rest text known _ inductionHypothesis =>
    simp only [List.cons_append, scanString, known, inductionHypothesis]

/-- Digits with a text behind them that does not begin with one are scanned up to it. -/
theorem scanDigits_spelled {digits : List Char} (each : IsDigits digits) (after : List Char)
    (ends : ∀ c ∈ after.head?, c.isDigit = false) :
    scanDigits (digits ++ after) = .ok (digits, after) :=
  scanDigits_run digits after each.1 each.2 ends

/-- Digits without a superfluous zero are scanned up to where there are no more. -/
theorem scanWhole_spelled {digits : List Char} (each : IsDigits digits)
    (plain : ∀ second rest, digits ≠ '0' :: second :: rest) (after : List Char)
    (ends : ∀ c ∈ after.head?, c.isDigit = false) :
    scanWhole (digits ++ after) = .ok (digits, after) := by
  rw [scanWhole, scanDigits_spelled each after ends]
  split
  case h_1 second rest left scanned =>
    cases scanned
    exact False.elim (plain second rest rfl)
  case h_2 => rfl

/-- A fraction is scanned up to where no digit and no point follows. -/
theorem scanFraction_spelled {fraction : Option (List Char)} {point : List Char}
    (spelled : SpellsFraction fraction point) (after : List Char)
    (ends : ∀ c ∈ after.head?, c.isDigit = false ∧ c ≠ '.') :
    scanFraction (point ++ after) = .ok (fraction, after) := by
  cases spelled with
  | absent =>
    rw [List.nil_append]
    unfold scanFraction
    split
    case h_1 rest => exact False.elim ((ends '.' rfl).2 rfl)
    case h_2 => rfl
  | present digits each =>
    simp only [List.cons_append, scanFraction,
      scanDigits_spelled each after fun c member => (ends c member).1]
    rfl

/-- The sign of an exponent is scanned up to the digits behind it. -/
theorem scanSign_spelled {negative : Bool} {sign digits : List Char}
    (signed : SpellsSign negative sign) (each : IsDigits digits) (after : List Char) :
    scanSign (sign ++ (digits ++ after)) = (negative, digits ++ after) := by
  obtain ⟨first, rest, rfl⟩ := List.exists_cons_of_ne_nil each.1
  have digit : first.isDigit := each.2 first List.mem_cons_self
  cases signed with
  | plus => rfl
  | minus => rfl
  | absent =>
    simp only [List.nil_append, List.cons_append]
    unfold scanSign
    split
    case h_1 same =>
      cases same
      cases digit
    case h_2 same =>
      cases same
      cases digit
    case h_3 => rfl

/-- An exponent is scanned up to where a number ends. -/
theorem scanExponent_spelled {exponent : Option (Bool × List Char)} {power : List Char}
    (spelled : SpellsExponent exponent power) (after : List Char) (ends : EndsNumber after) :
    scanExponent (power ++ after) = .ok (exponent, after) := by
  cases spelled with
  | absent => exact scanExponent_ends after ends
  | present mark negative sign digits marked signed each =>
    have scanned := scanDigits_spelled each after fun c member => (ends c member).1
    simp only [List.cons_append, List.append_assoc, scanExponent, if_pos marked,
      scanSign_spelled signed each after, scanned]
    rfl

/-- Neither a digit nor a point begins an exponent, nor what follows a number. -/
theorem SpellsExponent.ends {exponent : Option (Bool × List Char)} {power : List Char}
    (spelled : SpellsExponent exponent power) (after : List Char) (ends : EndsNumber after) :
    ∀ c ∈ (power ++ after).head?, c.isDigit = false ∧ c ≠ '.' := by
  cases spelled with
  | absent => exact fun c member => ⟨(ends c member).1, (ends c member).2.1⟩
  | present mark negative sign digits marked =>
    rintro c ⟨⟩
    rcases marked with rfl | rfl <;> decide

/-- No digit begins a fraction, nor what follows it. -/
theorem SpellsFraction.ends {fraction : Option (List Char)} {point : List Char}
    (spelled : SpellsFraction fraction point) (after : List Char)
    (ends : ∀ c ∈ after.head?, c.isDigit = false) :
    ∀ c ∈ (point ++ after).head?, c.isDigit = false := by
  cases spelled with
  | absent => exact ends
  | present digits each =>
    rintro c ⟨⟩
    decide

/-- A number is scanned up to where it ends. -/
theorem scanNumeral_spelled {numeral : Numeral} {text : List Char}
    (spelled : SpellsNumeral numeral text) (after : List Char) (ends : EndsNumber after) :
    scanNumeral (text ++ after) = .ok (numeral, after) := by
  cases spelled with
  | number negative whole fraction exponent point power each plain behindPoint behindMark =>
    have endsPower := behindMark.ends after ends
    have endsPoint := behindPoint.ends _ fun c member => (endsPower c member).1
    have first := scanWhole_spelled each plain _ endsPoint
    have second := scanFraction_spelled behindPoint _ endsPower
    have third := scanExponent_spelled behindMark after ends
    cases negative with
    | true =>
      simp only [if_true, List.append_assoc, List.cons_append, List.nil_append, scanNumeral, first,
        second, third, bind, Except.bind, pure, Except.pure]
    | false =>
      obtain ⟨digit, rest, rfl⟩ := List.exists_cons_of_ne_nil each.1
      have isDigit : digit.isDigit := each.2 digit List.mem_cons_self
      simp only [Bool.false_eq_true, if_false, List.nil_append, List.append_assoc, List.cons_append]
        at first ⊢
      -- The scan looks for a minus sign, which no digit is.
      unfold scanNumeral
      split
      case h_1 _ _ _ signed =>
        split at signed
        case h_1 minus =>
          cases minus
          cases isDigit
        case h_2 =>
          cases signed
          simp only [first, second, third, bind, Except.bind, pure, Except.pure]

/-- The text of a number begins with a minus sign or a digit. -/
theorem SpellsNumeral.begins {numeral : Numeral} {text : List Char}
    (spelled : SpellsNumeral numeral text) :
    ∃ c rest, text = c :: rest ∧ (c = '-' ∨ c.isDigit) := by
  cases spelled with
  | number negative whole fraction exponent point power each =>
    cases negative with
    | true => exact ⟨'-', _, rfl, Or.inl rfl⟩
    | false =>
      obtain ⟨digit, rest, rfl⟩ := List.exists_cons_of_ne_nil each.1
      exact ⟨digit, _, rfl, Or.inr (each.2 digit List.mem_cons_self)⟩

/-- The text of a value begins with a mark that closes no list. -/
theorem SpellsValue.begins {draft : Draft} {text : List Char} (spelled : SpellsValue draft text) :
    ∃ c rest, text = c :: rest ∧ isSpace c = false ∧ c ≠ ']' := by
  cases spelled with
  | number numeral text spelled =>
    obtain ⟨c, rest, same, numeric⟩ := spelled.begins
    exact ⟨c, rest, same, mark_of_numeric c numeric⟩
  | null | isTrue | isFalse | string | noItems | array | noMembers | object =>
    exact ⟨_, _, rfl, by decide, by decide⟩

/-- A number ends before blanks and before what ends it. -/
theorem endsNumber_blanks {blank : List Char} (blanks : Blanks blank) (text : List Char)
    (ends : EndsNumber text) : EndsNumber (blank ++ text) := by
  cases blank with
  | nil => exact ends
  | cons c rest =>
    apply endsNumber_cons
    have space : isSpace c := blanks c List.mem_cons_self
    simp only [isSpace, Bool.or_eq_true, beq_iff_eq] at space
    rcases space with ((rfl | rfl) | rfl) | rfl <;> decide

/-- A number ends before what stands behind an item. -/
theorem SpellsItems.ends {items : DraftItems} {text : List Char} (spelled : SpellsItems items text)
    (after : List Char) : EndsNumber (text ++ after) := by
  cases spelled with
  | closed blank blanks =>
    rw [List.append_assoc]
    exact endsNumber_blanks blanks _ (endsNumber_cons _ _ (by decide))
  | cons blank between item text rest behind blanks =>
    rw [List.append_assoc]
    exact endsNumber_blanks blanks _ (endsNumber_cons _ _ (by decide))

/-- A number ends before what stands behind a member. -/
theorem SpellsMembers.ends {members : DraftMembers} {text : List Char}
    (spelled : SpellsMembers members text) (after : List Char) : EndsNumber (text ++ after) := by
  cases spelled with
  | closed blank blanks =>
    rw [List.append_assoc]
    exact endsNumber_blanks blanks _ (endsNumber_cons _ _ (by decide))
  | more blank between members text blanks =>
    rw [List.append_assoc]
    exact endsNumber_blanks blanks _ (endsNumber_cons _ _ (by decide))

/-- A list goes on with its first item, behind any blanks. -/
theorem scanValue_item (fuel : Nat) {blank text : List Char} (blanks : Blanks blank) {item : Draft}
    (spelled : SpellsValue item text) (behind : List Char) :
    scanValue (fuel + 1) ('[' :: (blank ++ (text ++ behind))) =
      (.array (.cons (scanValue fuel (text ++ behind)).1
          (scanItems fuel (scanValue fuel (text ++ behind)).2).1),
        (scanItems fuel (scanValue fuel (text ++ behind)).2).2) := by
  obtain ⟨c, rest, rfl, mark, goesOn⟩ := spelled.begins
  have next : skipSpaces (blank ++ (c :: rest ++ behind)) = c :: (rest ++ behind) := by
    rw [skipSpaces_blanks blanks, List.cons_append, skipSpaces_mark c _ mark]
  rw [scanValue_bracket fuel _ _ c next goesOn, ← scanValue_skipSpaces, next, List.cons_append]

/-- Behind an item blanks are skipped. -/
theorem scanItems_blanks (fuel : Nat) {blank : List Char} (blanks : Blanks blank)
    (text : List Char) : scanItems fuel (blank ++ text) = scanItems fuel text := by
  cases fuel with
  | zero => rfl
  | succ fuel => rw [scanItems, scanItems, skipSpaces_blanks blanks]

/-- Behind a member blanks are skipped. -/
theorem scanMembers_blanks (fuel : Nat) {blank : List Char} (blanks : Blanks blank)
    (text : List Char) : scanMembers fuel (blank ++ text) = scanMembers fuel text := by
  cases fuel with
  | zero => rfl
  | succ fuel => rw [scanMembers, scanMembers, skipSpaces_blanks blanks]

/-- In front of a value blanks are skipped. -/
theorem scanValue_blanks (fuel : Nat) {blank : List Char} (blanks : Blanks blank)
    (text : List Char) : scanValue fuel (blank ++ text) = scanValue fuel text := by
  rw [← scanValue_skipSpaces, skipSpaces_blanks blanks, scanValue_skipSpaces]

/-- A list goes on behind a comma with the next item, behind any blanks. -/
theorem scanItems_item (fuel : Nat) {between text : List Char} (blanks : Blanks between)
    {item : Draft} (spelled : SpellsValue item text) (behind : List Char) :
    scanItems (fuel + 1) (',' :: (between ++ (text ++ behind))) =
      (.cons (scanValue fuel (text ++ behind)).1
          (scanItems fuel (scanValue fuel (text ++ behind)).2).1,
        (scanItems fuel (scanValue fuel (text ++ behind)).2).2) := by
  obtain ⟨c, rest, rfl, mark, goesOn⟩ := spelled.begins
  have next : skipSpaces (between ++ (c :: rest ++ behind)) = c :: (rest ++ behind) := by
    rw [skipSpaces_blanks blanks, List.cons_append, skipSpaces_mark c _ mark]
  rw [scanItems_comma fuel _ _ c next goesOn, ← scanValue_skipSpaces, next, List.cons_append]

/-- An object goes on with its first key, behind any blanks. -/
theorem scanValue_key (fuel : Nat) {blank : List Char} (blanks : Blanks blank) (text : List Char) :
    scanValue (fuel + 1) ('{' :: (blank ++ '"' :: text)) =
      (.object (scanMember fuel text).1, (scanMember fuel text).2) := by
  rw [scanValue, skipSpaces_mark '{' _ (by decide)]
  simp only [skipSpaces_blanks blanks, skipSpaces_mark '"' text (by decide)]

/-- An object goes on behind a comma with the next key, behind any blanks. -/
theorem scanMembers_key (fuel : Nat) {between : List Char} (blanks : Blanks between)
    (text : List Char) :
    scanMembers (fuel + 1) (',' :: (between ++ '"' :: text)) = scanMember fuel text := by
  rw [scanMembers, skipSpaces_mark ',' _ (by decide)]
  simp only [skipSpaces_blanks blanks, skipSpaces_mark '"' text (by decide)]

/-- A key is scanned with the value behind its colon and the members behind that. -/
theorem scanMember_colon (fuel : Nat) {key : Spelling} {name blank between : List Char}
    (named : SpellsString key name) (blanks : Blanks blank) (blanksBetween : Blanks between)
    (text : List Char) :
    scanMember (fuel + 1) (name ++ (blank ++ ':' :: (between ++ text))) =
      (.cons key (scanValue fuel text).1 (scanMembers fuel (scanValue fuel text).2).1,
        (scanMembers fuel (scanValue fuel text).2).2) := by
  rw [scanMember, scanString_spelled named]
  simp only [skipSpaces_blanks blanks, skipSpaces_mark ':' _ (by decide),
    scanValue_blanks fuel blanksBetween]

-- The induction is on the text as the grammar builds it, each theorem for one kind of text.
mutual

/-- The text of a value is scanned as it up to its last character. Only behind a number it matters
what follows. -/
theorem scanValue_spelled {draft : Draft} {text : List Char} (spelled : SpellsValue draft text)
    (after : List Char) (ends : ∀ numeral, draft = .number numeral → EndsNumber after) (fuel : Nat)
    (enough : (text ++ after).length ≤ fuel) :
    scanValue fuel (text ++ after) = (draft, after) := by
  obtain ⟨fuel, rfl⟩ : ∃ less, fuel = less + 1 := by
    obtain ⟨c, rest, rfl, _⟩ := spelled.begins
    exact Nat.exists_eq_add_one_of_ne_zero (Nat.ne_zero_of_lt enough)
  cases spelled with
  | null => rfl
  | isTrue => rfl
  | isFalse => rfl
  | number numeral text spelled =>
    have scanned := scanNumeral_spelled spelled after (ends numeral rfl)
    obtain ⟨c, rest, rfl, numeric⟩ := spelled.begins
    rw [List.cons_append] at scanned ⊢
    rw [scanValue_number fuel c _ numeric, scanNumber, scanned]
  | string spelling text spelled =>
    rw [List.cons_append, scanValue, skipSpaces_mark '"' _ (by decide)]
    simp only [scanString_spelled spelled]
  | noItems blank blanks =>
    rw [List.cons_append, List.append_assoc, scanValue, skipSpaces_mark '[' _ (by decide)]
    simp only [skipSpaces_blanks blanks, List.singleton_append, skipSpaces_mark ']' _ (by decide)]
  | array blank item text rest behind blanks first others =>
    simp only [List.cons_append, List.append_assoc] at enough ⊢
    simp only [List.length_cons, List.length_append] at enough
    have read := scanValue_spelled first (behind ++ after) (fun _ _ => others.ends after) fuel
      (by simp only [List.length_append]; omega)
    have more := scanItems_spelled others after fuel (by simp only [List.length_append]; omega)
    rw [scanValue_item fuel blanks first, read, more]
  | noMembers blank blanks =>
    rw [List.cons_append, List.append_assoc, scanValue, skipSpaces_mark '{' _ (by decide)]
    simp only [skipSpaces_blanks blanks, List.singleton_append, skipSpaces_mark '}' _ (by decide)]
  | object blank members text blanks listed =>
    simp only [List.cons_append, List.append_assoc] at enough ⊢
    simp only [List.length_cons, List.length_append] at enough
    have read := scanMember_spelled listed after fuel (by simp only [List.length_append]; omega)
    rw [scanValue_key fuel blanks, read]

/-- What stands behind an item is scanned up to the end of the list. -/
theorem scanItems_spelled {items : DraftItems} {text : List Char} (spelled : SpellsItems items text)
    (after : List Char) (fuel : Nat) (enough : (text ++ after).length ≤ fuel) :
    scanItems fuel (text ++ after) = (items, after) := by
  cases spelled with
  | closed blank blanks =>
    simp only [List.length_append, List.length_singleton] at enough
    obtain ⟨fuel, rfl⟩ : ∃ less, fuel = less + 1 :=
      Nat.exists_eq_add_one_of_ne_zero (by omega)
    rw [List.append_assoc, scanItems_blanks _ blanks, scanItems, List.singleton_append,
      skipSpaces_mark ']' _ (by decide)]
    rfl
  | cons blank between item text rest behind blanks blanksBetween next others =>
    simp only [List.cons_append, List.append_assoc] at enough ⊢
    simp only [List.length_cons, List.length_append] at enough
    obtain ⟨fuel, rfl⟩ : ∃ less, fuel = less + 1 :=
      Nat.exists_eq_add_one_of_ne_zero (by omega)
    have read := scanValue_spelled next (behind ++ after) (fun _ _ => others.ends after) fuel
      (by simp only [List.length_append]; omega)
    have more := scanItems_spelled others after fuel (by simp only [List.length_append]; omega)
    rw [scanItems_blanks _ blanks, scanItems_item fuel blanksBetween next, read, more]

/-- A member behind the opening quote of its key is scanned up to the end of the object. -/
theorem scanMember_spelled {members : DraftMembers} {text : List Char}
    (spelled : SpellsMember members text) (after : List Char) (fuel : Nat)
    (enough : (text ++ after).length ≤ fuel) :
    scanMember fuel (text ++ after) = (members, after) := by
  cases spelled with
  | cons key name blank between value text rest behind named blanks blanksBetween held others =>
    simp only [List.cons_append, List.append_assoc] at enough ⊢
    simp only [List.length_cons, List.length_append] at enough
    obtain ⟨fuel, rfl⟩ : ∃ less, fuel = less + 1 :=
      Nat.exists_eq_add_one_of_ne_zero (by omega)
    have read := scanValue_spelled held (behind ++ after) (fun _ _ => others.ends after) fuel
      (by simp only [List.length_append]; omega)
    have more := scanMembers_spelled others after fuel (by simp only [List.length_append]; omega)
    rw [scanMember_colon fuel named blanks blanksBetween, read, more]

/-- What stands behind a member is scanned up to the end of the object. -/
theorem scanMembers_spelled {members : DraftMembers} {text : List Char}
    (spelled : SpellsMembers members text) (after : List Char) (fuel : Nat)
    (enough : (text ++ after).length ≤ fuel) :
    scanMembers fuel (text ++ after) = (members, after) := by
  cases spelled with
  | closed blank blanks =>
    simp only [List.length_append, List.length_singleton] at enough
    obtain ⟨fuel, rfl⟩ : ∃ less, fuel = less + 1 :=
      Nat.exists_eq_add_one_of_ne_zero (by omega)
    rw [List.append_assoc, scanMembers_blanks _ blanks, scanMembers, List.singleton_append,
      skipSpaces_mark '}' _ (by decide)]
    rfl
  | more blank between members text blanks blanksBetween listed =>
    simp only [List.cons_append, List.append_assoc] at enough ⊢
    simp only [List.length_cons, List.length_append] at enough
    obtain ⟨fuel, rfl⟩ : ∃ less, fuel = less + 1 :=
      Nat.exists_eq_add_one_of_ne_zero (by omega)
    have read := scanMember_spelled listed after fuel (by simp only [List.length_append]; omega)
    rw [scanMembers_blanks _ blanks, scanMembers_key fuel blanksBetween, read]

end

/-- The value at the start of a text is scanned up to its last character, and the rest is left. Only
behind a number it matters what follows. -/
theorem scan_value {draft : Draft} {text : List Char} (value : SpellsValue draft text)
    {lead : List Char} (blanks : Blanks lead) (after : List Char)
    (ends : ∀ numeral, draft = .number numeral → EndsNumber after) :
    scan (lead ++ (text ++ after)) = (draft, after) := by
  rw [scan, scanValue_blanks _ blanks]
  apply scanValue_spelled value after ends
  simp only [List.length_append]
  omega

/-- A document is scanned as the draft that it spells, and only blanks are left. -/
theorem scan_spelled {draft : Draft} {text : List Char} (spelled : Spells draft text) :
    ∃ trail, Blanks trail ∧ scan text = (draft, trail) := by
  cases spelled with
  | document lead text trail blanks value blanksBehind =>
    have ends : EndsNumber trail := by
      simpa using endsNumber_blanks blanksBehind [] endsNumber_nil
    exact ⟨trail, blanksBehind, scan_value value blanks trail fun _ _ => ends⟩

/-- A document is read as its draft is. -/
theorem readText_spelled {ρ : Type} (schema : Schema ρ) (shape : Shape ρ) {draft : Draft}
    (text : String) (spelled : Spells draft text.toList) :
    readText schema shape text = draft.read schema shape := by
  obtain ⟨trail, blanks, scanned⟩ := scan_spelled spelled
  rw [readText, scanned]
  simp only [skipSpaces_of_blanks blanks, if_true]
  cases draft.read schema shape <;> rfl

end Workflow.Json
