import Workflow.Json.Scan
import Workflow.Json.Writer
import Mathlib.Data.List.TakeDrop

/-!
# Written strings and numbers are scanned back

A quoted text shows where it ends, so its scan leaves exactly what was written behind it.
Some characters are written by a number; these come back as units, all others as
themselves, and decoding gives the same characters again.

A number shows its end only by what follows it: the text behind must not begin with a
character that could belong to the number. An integer that fits into a word of 64 bits,
with or without a sign, is then read as this integer.
-/

namespace Workflow.Json

/-- True for a character that is written by its number: one below the space without an
escape of one letter. -/
def isNumbered (c : Char) : Bool :=
  decide (c.toNat < 0x20 ∧ c ∉ ['\x08', '\x0c', '\n', '\r', '\t'])

/-- What a written character spells in front of a spelling. -/
def spellChar (c : Char) (rest : Spelling) : Spelling :=
  if isNumbered c then .unit c.toNat rest else .char c rest

/-- What a written string spells. -/
def spell (chars : List Char) : Spelling := chars.foldr spellChar .closed

/-- The four digits of a numbered character stand for its number. -/
theorem codeUnit?_numbered (n : Nat) (small : n < 0x20) :
    codeUnit? '0' '0' (hexDigit (n / 16)) (hexDigit n) = some n := by
  have all : ∀ n < 0x20, codeUnit? '0' '0' (hexDigit (n / 16)) (hexDigit n) = some n := by decide
  exact all n small

/-- A written character is scanned as what it spells, in front of what follows. -/
theorem scanString_escapeChar (c : Char) (text : List Char) :
    scanString (escapeChar c ++ text) =
      (spellChar c (scanString text).1, (scanString text).2) := by
  unfold escapeChar
  split
  -- The first seven cases are the escapes of one letter.
  case h_8 quote backslash backspace feed newline ret tab =>
    split
    case isTrue low =>
      have numbered : isNumbered c := by simp_all [isNumbered]
      simp only [List.cons_append, List.nil_append, scanString, codeUnit?_numbered c.toNat low,
        spellChar, if_pos numbered]
    case isFalse high =>
      have plain : ¬ isNumbered c := by simp_all [isNumbered]
      rw [List.singleton_append, scanString.eq_def, spellChar, if_neg plain]
      split <;> simp_all
  all_goals rfl

/-- A written string is scanned up to its closing quote. -/
theorem scanString_writeChars (chars after : List Char) :
    scanString (writeChars chars after) = (spell chars, after) := by
  induction chars with
  | nil => rfl
  | cons c rest inductionHypothesis =>
    rw [writeChars, scanString_escapeChar, inductionHypothesis]
    rfl

/-- A written string adds its closing quote at least to what follows. -/
theorem length_lt_writeChars (chars after : List Char) :
    after.length < (writeChars chars after).length := by
  induction chars with
  | nil => exact Nat.lt_succ_self _
  | cons c rest inductionHypothesis =>
    rw [writeChars, List.length_append]
    omega

/-- A written character is decoded to itself. -/
theorem decode_spellChar (c : Char) (rest : Spelling) :
    (spellChar c rest).decode = rest.decode.map (c :: ·) := by
  by_cases numbered : isNumbered c
  · have low : c.toNat < 0x20 := by simp_all [isNumbered]
    have notLow : ¬ isLowSurrogate c.toNat := by
      simp only [isLowSurrogate, Bool.and_eq_true, decide_eq_true_eq]
      omega
    have notHigh : ¬ isHighSurrogate c.toNat := by
      simp only [isHighSurrogate, Bool.and_eq_true, decide_eq_true_eq]
      omega
    rw [spellChar, if_pos numbered, Spelling.decode.eq_def]
    simp only [if_neg notLow, if_neg notHigh, Char.ofNat_toNat]
  · rw [spellChar, if_neg numbered, Spelling.decode]

/-- A written string is decoded to its characters. -/
theorem decode_spell (chars : List Char) : (spell chars).decode = .ok chars := by
  induction chars with
  | nil => rfl
  | cons c rest inductionHypothesis =>
    rw [spell, List.foldr_cons, decode_spellChar, ← spell, inductionHypothesis]
    rfl

/-- A written string is kept as it was. -/
theorem string_spell (text : String) : (spell text.toList).string = .ok text := by
  rw [Spelling.string, decode_spell]
  exact congrArg Except.ok String.ofList_toList

/-- The text does not begin with a character that could continue a number. -/
def EndsNumber (text : List Char) : Prop :=
  ∀ c ∈ text.head?, c.isDigit = false ∧ c ≠ '.' ∧ c ≠ 'e' ∧ c ≠ 'E'

/-- A number ends where the text does. -/
theorem endsNumber_nil : EndsNumber [] := by simp [EndsNumber]

/-- A number ends before a character that could not belong to it. -/
theorem endsNumber_cons (c : Char) (rest : List Char)
    (mark : c.isDigit = false ∧ c ≠ '.' ∧ c ≠ 'e' ∧ c ≠ 'E') : EndsNumber (c :: rest) := by
  intro first member
  cases member
  exact mark

/-- The digits and marks of a written integer. -/
def intNumeral (n : Int) : Numeral := ⟨decide (n < 0), Nat.toDigits 10 n.natAbs, none, none⟩

/-- A written number begins with a digit. -/
theorem toDigits_begins (n : Nat) :
    ∃ first rest, Nat.toDigits 10 n = first :: rest ∧ first.isDigit := by
  obtain ⟨first, rest, written⟩ := List.exists_cons_of_ne_nil
    (Nat.toDigits_ne_nil : Nat.toDigits 10 n ≠ [])
  have member : first ∈ Nat.toDigits 10 n := by
    rw [written]
    exact List.mem_cons_self
  exact ⟨first, rest, written, Nat.isDigit_of_mem_toDigits (by decide) (by decide) member⟩

/-- A written integer begins with a minus sign or a digit. -/
theorem intText_begins (n : Int) :
    ∃ first rest, intText n = first :: rest ∧ (first = '-' ∨ first.isDigit) := by
  obtain ⟨first, rest, written, digit⟩ := toDigits_begins n.natAbs
  by_cases negative : n < 0
  · exact ⟨'-', _, if_pos negative, Or.inl rfl⟩
  · exact ⟨first, rest, (if_neg negative).trans written, Or.inr digit⟩

/-- A positive number does not begin with a zero. -/
theorem head?_toDigits (n : Nat) (positive : 0 < n) : (Nat.toDigits 10 n).head? ≠ some '0' := by
  induction n using Nat.strongRecOn with
  | _ n inductionHypothesis =>
    by_cases small : n < 10
    · have nonzero : ∀ n < 10, 0 < n → Nat.digitChar n ≠ '0' := by decide
      rw [Nat.toDigits_of_lt_base small, List.head?_cons]
      intro zero
      exact nonzero n small positive (Option.some.inj zero)
    · have higher := inductionHypothesis (n / 10) (by omega) (by omega)
      obtain ⟨first, rest, written, _⟩ := toDigits_begins (n / 10)
      rw [Nat.toDigits_of_base_le (by decide) (by omega), written]
      rwa [written] at higher

/-- Digits with a text behind them that does not begin with one are scanned up to it. -/
theorem scanDigits_run (digits after : List Char) (filled : digits ≠ [])
    (each : ∀ c ∈ digits, c.isDigit) (ends : ∀ c ∈ after.head?, c.isDigit = false) :
    scanDigits (digits ++ after) = .ok (digits, after) := by
  have stop : after.takeWhile Char.isDigit = [] ∧ after.dropWhile Char.isDigit = after := by
    cases after with
    | nil => exact ⟨rfl, rfl⟩
    | cons c rest =>
      have mark : ¬ c.isDigit := by simp [ends c rfl]
      exact ⟨List.takeWhile_cons_of_neg mark, List.dropWhile_cons_of_neg mark⟩
  have run : (digits ++ after).takeWhile Char.isDigit = digits := by
    rw [List.takeWhile_append_of_pos each, stop.1, List.append_nil]
  have left : (digits ++ after).dropWhile Char.isDigit = after := by
    rw [List.dropWhile_append_of_pos each, stop.2]
  obtain ⟨first, rest, rfl⟩ := List.exists_cons_of_ne_nil filled
  have digit : first.isDigit := each first List.mem_cons_self
  rw [List.cons_append] at run left ⊢
  simp only [scanDigits, if_pos digit, run, left]

/-- The digits of a written number are scanned up to what follows. -/
theorem scanDigits_toDigits (n : Nat) (after : List Char) (ends : EndsNumber after) :
    scanDigits (Nat.toDigits 10 n ++ after) = .ok (Nat.toDigits 10 n, after) :=
  scanDigits_run _ after Nat.toDigits_ne_nil
    (fun _ member => Nat.isDigit_of_mem_toDigits (by decide) (by decide) member)
    fun c member => (ends c member).1

/-- A written number has no superfluous zero in front. -/
theorem scanWhole_toDigits (n : Nat) (after : List Char) (ends : EndsNumber after) :
    scanWhole (Nat.toDigits 10 n ++ after) = .ok (Nat.toDigits 10 n, after) := by
  rw [scanWhole, scanDigits_toDigits n after ends]
  split
  case h_1 second rest left scanned =>
    have digits : Nat.toDigits 10 n = '0' :: second :: rest := by
      injection scanned with pair
      exact congrArg Prod.fst pair
    by_cases zero : n = 0
    · subst zero
      simp at digits
    · exact False.elim (head?_toDigits n (by omega) (by rw [digits]; rfl))
  case h_2 => rfl

/-- Where a number ends there is no fraction. -/
theorem scanFraction_ends (after : List Char) (ends : EndsNumber after) :
    scanFraction after = .ok (none, after) := by
  unfold scanFraction
  split
  case h_1 rest => exact False.elim ((ends '.' rfl).2.1 rfl)
  case h_2 => rfl

/-- Where a number ends there is no exponent. -/
theorem scanExponent_ends (after : List Char) (ends : EndsNumber after) :
    scanExponent after = .ok (none, after) := by
  cases after with
  | nil => rfl
  | cons c rest =>
    obtain ⟨_, _, lower, upper⟩ := ends c rfl
    have unmarked : ¬ (c = 'e' ∨ c = 'E') := by simp [lower, upper]
    simp only [scanExponent, if_neg unmarked]

/-- A written integer is scanned as its digits and sign. -/
theorem scanNumeral_intText (n : Int) (after : List Char) (ends : EndsNumber after) :
    scanNumeral (intText n ++ after) = .ok (intNumeral n, after) := by
  have whole := scanWhole_toDigits n.natAbs after ends
  by_cases negative : n < 0
  · have sign : intText n ++ after = '-' :: (Nat.toDigits 10 n.natAbs ++ after) := by
      rw [intText, if_pos negative, List.cons_append]
    rw [sign]
    simp only [scanNumeral, whole, scanFraction_ends after ends, scanExponent_ends after ends,
      bind, Except.bind, pure, Except.pure, intNumeral, negative, decide_true]
  · have sign : intText n ++ after = Nat.toDigits 10 n.natAbs ++ after := by
      rw [intText, if_neg negative]
    obtain ⟨first, rest, written, digit⟩ := toDigits_begins n.natAbs
    rw [sign]
    rw [written, List.cons_append] at whole ⊢
    -- The scan looks for a minus sign, which no digit is.
    unfold scanNumeral
    split
    case h_1 _ _ _ signed =>
      split at signed
      case h_1 minus =>
        cases minus
        exact False.elim (by revert digit; decide)
      case h_2 =>
        cases signed
        simp only [whole, scanFraction_ends after ends, scanExponent_ends after ends, bind,
          Except.bind, pure, Except.pure, intNumeral, negative, decide_false, written]

/-- The integers that fit into a word of 64 bits, with or without a sign. -/
def Number.isWord : Number → Bool
  | .int n => Decimal.fitsSigned64 n || Decimal.fitsUnsigned64 n
  | .float _ => false

/-- The digits of an integer that fits stand for it. -/
theorem number?_intNumeral (n : Int) (fits : (Number.int n).isWord) :
    (intNumeral n).number? = some (.int n) := by
  have magnitude : Numeral.natural (Nat.toDigits 10 n.natAbs) = n.natAbs :=
    Nat.ofDigitChars_ten_toDigits
  have integer : (intNumeral n).integer? = some n := by
    simp only [Number.isWord, Decimal.fitsSigned64, Decimal.fitsUnsigned64, Bool.or_eq_true,
      decide_eq_true_eq] at fits
    simp only [intNumeral, Numeral.integer?, magnitude, Decimal.fitsSigned64,
      Decimal.fitsUnsigned64, decide_eq_true_eq]
    by_cases negative : n < 0
    · have same : -(n.natAbs : Int) = n := by omega
      rw [if_pos negative, same, if_pos ⟨by omega, by omega⟩]
    · have same : (n.natAbs : Int) = n := by omega
      rw [if_neg negative, same, if_pos (by omega)]
  rw [Numeral.number?, integer]

end Workflow.Json
