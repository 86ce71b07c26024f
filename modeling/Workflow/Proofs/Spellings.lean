import Workflow.Proofs.Recoding

/-!
# A strategy code as a number and as a text

An integer that a signed word holds may be given as a number, or as a text that spells it between
blanks, perhaps with a sign that it does not need or with zeros in front. Both are the same strategy
code, and `strategy_spellings` says that a document is compiled with the same result for either. The
element of the task has the decimal of the integer, and a document that has this decimal in place of
the code is compiled to the same net once more. An integer beyond the signed words is refused in
either form: the number may be above every double, or read as one, or as an integer that is no code;
the text spells an integer that is no code.
-/

namespace Workflow

open Json (Value Draft DraftMembers Spelling Refused intNumeral)

/-- A text that spells an integer between blanks. -/
def SpellsBetweenBlanks (text : String) (n : Int) : Prop :=
  ∃ lead body trail, text.toList = lead ++ body ++ trail ∧ (∀ c ∈ lead, Text.isBlank c) ∧
    (∀ c ∈ trail, Text.isBlank c) ∧ Decimal.Spells body n

/-- A task with an identifier and a strategy code is reached from a tree. -/
def Step.HasTask (root : Step) (id : String) (code : Value) : Prop :=
  ∃ task kind, root.Reaches task ∧ task.idText = id ∧ task.kind? = some kind ∧ kind.isTask ∧
    task.attributes.lookup strategyKey = some code

namespace Text

/-- Trimming takes blanks away at both ends of a text that has none. -/
theorem trim_between (lead body trail : List Char) (leading : ∀ c ∈ lead, isBlank c)
    (trailing : ∀ c ∈ trail, isBlank c) (solid : ∀ c ∈ body, isBlank c = false)
    (filled : body ≠ []) : trim (lead ++ body ++ trail) = body := by
  have front : (lead ++ body ++ trail).dropWhile isBlank = body ++ trail := by
    obtain ⟨c, rest, rfl⟩ := List.exists_cons_of_ne_nil filled
    have mark : ¬ isBlank c := by simp [solid c List.mem_cons_self]
    rw [List.append_assoc, List.dropWhile_append_of_pos leading, List.cons_append,
      List.dropWhile_cons_of_neg mark]
  have back : (body ++ trail).reverse.dropWhile isBlank = body.reverse.dropWhile isBlank := by
    rw [List.reverse_append]
    apply List.dropWhile_append_of_pos
    intro c member
    exact trailing c (List.mem_reverse.mp member)
  have kept : body.dropWhile isBlank = body := by
    obtain ⟨c, rest, rfl⟩ := List.exists_cons_of_ne_nil filled
    exact List.dropWhile_cons_of_neg (by simp [solid c List.mem_cons_self])
  rw [trim, front, trimEnd, back, ← trimEnd]
  have whole := trim_eq_self body solid
  rwa [trim, kept] at whole

/-- A digit is not blank. -/
theorem isBlank_of_isDigit (c : Char) (digit : c.isDigit) : isBlank c = false := by
  simp only [Char.isDigit, Bool.and_eq_true, decide_eq_true_eq] at digit
  have least : 48 ≤ c.toNat := UInt32.le_iff_toNat_le.mp digit.1
  have greatest : c.toNat ≤ 57 := UInt32.le_iff_toNat_le.mp digit.2
  simp [isBlank]
  omega

end Text

namespace Decimal

/-- A text that spells an integer is not empty and holds no blank. -/
theorem solid_of_spells (text : List Char) (n : Int) (spelled : Spells text n) :
    text ≠ [] ∧ ∀ c ∈ text, Text.isBlank c = false := by
  have digits (text : List Char) (decimal : text.all Char.isDigit) :
      ∀ c ∈ text, Text.isBlank c = false := by
    intro c member
    exact Text.isBlank_of_isDigit c (List.all_eq_true.mp decimal c member)
  cases spelled with
  | plain _ some_digit decimal => exact ⟨some_digit, digits text decimal⟩
  | plus rest _ decimal =>
    refine ⟨by simp, ?_⟩
    exact List.forall_mem_cons.mpr ⟨by decide, digits rest decimal⟩
  | minus rest _ decimal =>
    refine ⟨by simp, ?_⟩
    exact List.forall_mem_cons.mpr ⟨by decide, digits rest decimal⟩

/-- The decimal of an integer spells it. -/
theorem spells_intText (n : Int) : Spells (Json.intText n) n := by
  have some_digit : Nat.toDigits 10 n.natAbs ≠ [] := Nat.toDigits_ne_nil
  have decimal : (Nat.toDigits 10 n.natAbs).all Char.isDigit = true :=
    List.all_eq_true.mpr fun _ member => Nat.isDigit_of_mem_toDigits (by decide) (by decide) member
  have magnitude : Nat.ofDigitChars 10 (Nat.toDigits 10 n.natAbs) 0 = n.natAbs :=
    Nat.ofDigitChars_ten_toDigits
  by_cases negative : n < 0
  · have spelled := Spells.minus _ some_digit decimal
    have same : -(n.natAbs : Int) = n := by omega
    rw [magnitude, same] at spelled
    rwa [Json.intText, if_pos negative]
  · have spelled := Spells.plain _ some_digit decimal
    have same : (n.natAbs : Int) = n := by omega
    rw [magnitude, same] at spelled
    rwa [Json.intText, if_neg negative]

end Decimal

/-- The decimal of an integer spells it, without any blanks. -/
theorem spellsBetweenBlanks_intText (n : Int) :
    SpellsBetweenBlanks (String.ofList (Json.intText n)) n :=
  ⟨[], Json.intText n, [], by simp, by simp, by simp, Decimal.spells_intText n⟩

/-- The strategy code of a text is the integer that it spells. -/
theorem strategy_of_spells (text : String) (n : Int) (spelled : SpellsBetweenBlanks text n) :
    strategy (some (.string text)) = strategyCode n := by
  obtain ⟨lead, body, trail, written, leading, trailing, spells⟩ := spelled
  obtain ⟨filled, solid⟩ := Decimal.solid_of_spells body n spells
  have trimmed := Text.trim_between lead body trail leading trailing solid filled
  have read : Decimal.integer? (Text.trim text.toList) = some n := by
    rw [written, trimmed]
    exact (Decimal.integer?_eq_some_iff body n).mpr spells
  simp only [strategy, read]

/-- A number is kept as the integer that it is if a signed word holds it. -/
theorem keep_numeral (n : Int) (word : Decimal.Signed64 n) :
    (Draft.number (intNumeral n)).keep = .ok (.number (.int n)) := by
  have fits : (Json.Number.int n).isWord := by
    simp [Json.Number.isWord, (Decimal.fitsSigned64_iff n).mpr word]
  simp only [Draft.keep, Json.Numeral.value, Json.number?_intNumeral n fits]
  rfl

/-- An integer beyond the words of 64 bits is no integer of a document. -/
theorem integer?_intNumeral (n : Int) (beyond : ¬ (Json.Number.int n).isWord) :
    (intNumeral n).integer? = none := by
  have magnitude : Json.Numeral.natural (Nat.toDigits 10 n.natAbs) = n.natAbs :=
    Nat.ofDigitChars_ten_toDigits
  simp only [Json.Number.isWord, Decimal.fitsSigned64, Decimal.fitsUnsigned64, Bool.or_eq_true,
    decide_eq_true_eq] at beyond
  simp only [intNumeral, Json.Numeral.integer?, magnitude, Decimal.fitsSigned64,
    Decimal.fitsUnsigned64, decide_eq_true_eq]
  by_cases negative : n < 0
  · rw [if_pos negative, if_neg (by omega)]
  · rw [if_neg negative, if_neg (by omega)]

/-- A number beyond the signed words is no strategy code, whatever it is kept as. -/
theorem strategy_of_numeral (n : Int) (beyond : ¬ Decimal.Signed64 n) (value : Value)
    (kept : (Draft.number (intNumeral n)).keep = .ok value) :
    strategy (some value) = .error .integer := by
  by_cases fits : (Json.Number.int n).isWord
  · simp only [Draft.keep, Json.Numeral.value, Json.number?_intNumeral n fits] at kept
    cases kept
    exact (strategyCode_error_iff n .integer).mpr ⟨beyond, rfl⟩
  · simp only [Draft.keep, Json.Numeral.value, Json.Numeral.number?, integer?_intNumeral n fits]
      at kept
    cases double : (intNumeral n).double? with
    | none =>
      rw [double] at kept
      cases kept
    | some x =>
      rw [double] at kept
      cases kept
      rfl

/-- The element of a task that is reached from a compiled tree is found under the identifier of the
task, and has the text that the strategy code tells. -/
theorem code_of_compiled (root : Step) (processId : String) (processName : Option String)
    (net : Net) (accepted : compile root processId processName = .ok net) (id : String) (code : Value)
    (task : root.HasTask id code) :
    StrategyTells (some code) ((net.element? id).bind (·.extensionText? strategyKey)) := by
  obtain ⟨task, kind, reached, rfl, known, isTask, held⟩ := task
  have distinct := compile_elements_nodup root processId processName net accepted
  obtain ⟨_, elements, represented, rfl⟩ := compile_eq_ok root processId processName net accepted
  have member : task ∈ root.reached := (mem_reached_iff root task).mpr reached
  obtain ⟨element, listed, found, same, made⟩ := exists_of_forall₂ represented task member
  obtain rfl : kind = found := Option.some.inj (known.symm.trans same)
  have identifier : element.id = task.idText := (ofStep_ok task _ kind element made).1
  have told := code_of_task task _ kind isTask element made
  have there := Json.find?_key (·.id) (elements ++ [endEvent]) distinct element (by simp [listed])
  rw [identifier] at there
  rw [held] at told
  simpa [Net.element?, there] using told

/-- A document is refused if a task that is reached from its tree has an invalid strategy code. -/
theorem compileText_invalid (text processId : String) (processName : Option String) (id : String)
    (code : Value) (invalid : ¬ StrategyValid (some code))
    (task : ∀ root, Step.ofText text = .ok root → root.HasTask id code) :
    Refused (compileText text processId processName) := by
  cases read : Step.ofText text with
  | error fault => exact ⟨_, compileText_of_unread text fault read processId processName⟩
  | ok root =>
    obtain ⟨task, kind, reached, _, known, isTask, held⟩ := task root read
    rw [compileText_of_read text root read]
    cases compiled : compile root processId processName with
    | error defect => exact ⟨.defective defect, rfl⟩
    | ok net =>
      obtain ⟨valid, _⟩ := compile_eq_ok root processId processName net compiled
      have codeValid := (valid.attributes task kind reached known).code isTask
      rw [held] at codeValid
      exact False.elim (invalid codeValid)

/-- The net of a document is that of the tree that it is read as. -/
theorem compileText_eq_ok (text processId : String) (processName : Option String) (net : Net)
    (accepted : compileText text processId processName = .ok net) :
    ∃ root, Step.ofText text = .ok root ∧ compile root processId processName = .ok net := by
  cases read : Step.ofText text with
  | error fault =>
    rw [compileText_of_unread text fault read] at accepted
    cases accepted
  | ok root =>
    rw [compileText_of_read text root read] at accepted
    cases compiled : compile root processId processName with
    | error defect =>
      rw [compiled] at accepted
      cases accepted
    | ok found =>
      rw [compiled] at accepted
      cases accepted
      exact ⟨root, rfl, compiled⟩

/-- Codes that say the same are kept with values that do. -/
theorem codes_agree (code other : Draft) (value image : Value) (kept : code.keep = .ok value)
    (keptOther : other.keep = .ok image) (same : strategy (some image) = strategy (some value)) :
    Agree id CodesAlike code.keep other.keep := by
  rw [kept, keptOther]
  exact same

/-- A code that is a text is kept as it if it can be decoded. -/
theorem keep_spelling (spelling : Spelling) (text : String) (decoded : spelling.string = .ok text) :
    (Draft.string spelling).keep = .ok (.string text) := by
  simp only [Draft.keep, decoded]
  rfl

/-- A number and a text that spells it between blanks are the same strategy code. Let two documents
be the same but that one gives an integer as a number and the other a text that spells it, as the
code of a task that is reached from the tree, if there is one. If a signed word holds the integer,
both are codes that a task may have, and the documents are compiled with the same result: the same
net, in which the element of the task has the decimal of the integer, or the same failure. A
document that has the text of this element in place of either code is compiled to the same net. If
no signed word holds the integer, both documents are refused. -/
theorem strategy_spellings (n : Int) (code : String) (spelling : Spelling)
    (spelled : SpellsBetweenBlanks code n) (decoded : spelling.string = .ok code)
    (numbered texted : String)
    (recodes : Recodes (.number (intNumeral n)) (.string spelling) numbered texted)
    (id : String) (task : ∀ root, Step.ofText texted = .ok root → root.HasTask id (.string code))
    (processId : String) (processName : Option String) :
    (Decimal.Signed64 n →
      StrategyValid (some (.number (.int n))) ∧ StrategyValid (some (.string code)) ∧
      compileText texted processId processName = compileText numbered processId processName ∧
      ∀ net, compileText numbered processId processName = .ok net →
        ∃ emitted, emitted = String.ofList (Json.intText n) ∧
          (net.element? id).bind (·.extensionText? strategyKey) = some emitted ∧
          ∀ respelling again, respelling.string = .ok emitted →
            Recodes (.number (intNumeral n)) (.string respelling) numbered again ∨
              Recodes (.string spelling) (.string respelling) texted again →
            compileText again processId processName = .ok net) ∧
    (¬ Decimal.Signed64 n →
      Refused (compileText numbered processId processName) ∧
        Refused (compileText texted processId processName)) := by
  have said := strategy_of_spells code n spelled
  have kept := keep_spelling spelling code decoded
  constructor
  · intro word
    have keptNumber := keep_numeral n word
    have read : strategyCode n = .ok (some n) := (strategyCode_ok_iff n _).mpr ⟨word, rfl⟩
    have same : strategy (some (.string code)) = strategy (some (.number (.int n))) := said
    have result := compileText_recoded recodes (codes_agree _ _ _ _ keptNumber kept same) processId
      processName
    have valid : StrategyValid (some (.string code)) := by
      by_contra fault
      have refused := (strategy_error_iff _ .integer).mpr ⟨fault, rfl⟩
      rw [said, read] at refused
      cases refused
    refine ⟨StrategyValid.number n word, valid, result, ?_⟩
    intro net accepted
    refine ⟨_, rfl, ?_, ?_⟩
    · obtain ⟨root, readRoot, compiled⟩ :=
        compileText_eq_ok texted processId processName net (result.trans accepted)
      have tells := code_of_compiled root processId processName net compiled id _
        (task root readRoot)
      obtain ⟨found, readCode, told⟩ := (strategyTells_iff _ _).mp tells
      rw [said, read, Except.ok.injEq] at readCode
      rw [told, ← readCode, Option.map_some]
    · intro respelling again decodedAgain replaced
      have saidAgain := strategy_of_spells _ n (spellsBetweenBlanks_intText n)
      have keptAgain := keep_spelling respelling _ decodedAgain
      rcases replaced with ofNumber | ofText
      · rw [← accepted]
        exact compileText_recoded ofNumber (codes_agree _ _ _ _ keptNumber keptAgain saidAgain)
          processId processName
      · rw [← accepted, ← result]
        exact compileText_recoded ofText
          (codes_agree _ _ _ _ kept keptAgain (saidAgain.trans said.symm)) processId processName
  · intro beyond
    have invalid : strategy (some (.string code)) = .error .integer := by
      rw [said, strategyCode_error_iff]
      exact ⟨beyond, rfl⟩
    have refused : Refused (compileText texted processId processName) :=
      compileText_invalid texted processId processName id _
        ((strategy_error_iff _ .integer).mp invalid).1 task
    refine ⟨?_, refused⟩
    cases keptNumber : (Draft.number (intNumeral n)).keep with
    | error fault => exact compileText_refused recodes ⟨fault, keptNumber⟩ processId processName
    | ok value =>
      have same : strategy (some (.string code)) = strategy (some value) := by
        rw [invalid, strategy_of_numeral n beyond value keptNumber]
      rwa [← compileText_recoded recodes (codes_agree _ _ _ _ keptNumber kept same) processId
        processName]

/-- A copy task with a strategy code. -/
def codedTask (code : Value) : Step :=
  (Step.ofType "task" "COPY_TASK").withAttribute strategyKey code

/-- A fork with the copy task on its second branch. -/
def codedFork (code : Value) : Step :=
  ((Step.ofType "fork" "EXCLUSIVE_GATEWAY").withBranch {}).withBranch
    { child := some (codedTask code) }

/-- A tree with the fork. -/
def codedTree (code : Value) : Step := (Step.ofType "start" "START_EVENT").followedBy (codedFork code)

/-- The texts of the tree with different codes are the same but for these. -/
theorem recodes_codedTree (code other : Value) (whole : (codedTree code).toValue.isWhole)
    (wholeOther : (codedTree other).toValue.isWhole) :
    Recodes code.draft other.draft (codedTree code).text (codedTree other).text := by
  have scanned := Json.scan_text .compact _ whole
  have scannedOther := Json.scan_text .compact _ wholeOther
  have task : Step.Recoded code.draft other.draft (codedTask code).toValue.draft
      (codedTask other).toValue.draft := by
    apply Step.Recoded.own _ _ _ _ (.here _ _ (Json.string_spell strategyKey))
    exact .object _ _ rfl (.later _ _ _ _ (.later _ _ _ _ (.here _ _ (Json.string_spell _))))
  have fork : Step.Recoded code.draft other.draft (codedFork code).toValue.draft
      (codedFork other).toValue.draft := by
    apply Step.Recoded.branch _ _ _ _ 1 _ _ _ _ task
      (.object _ _ rfl (.here _ _ (Json.string_spell _)))
      (.later _ _ _ _ (.here _))
    exact .object _ _ rfl (.later _ _ _ _ (.later _ _ _ _ (.here _ _ (Json.string_spell _))))
  have tree : Step.Recoded code.draft other.draft (codedTree code).toValue.draft
      (codedTree other).toValue.draft := by
    apply Step.Recoded.behind _ _ _ _ fork
    exact .object _ _ rfl (.later _ _ _ _ (.later _ _ _ _ (.here _ _ (Json.string_spell _))))
  constructor
  · simpa [Step.text, Value.compact, scanned, scannedOther] using tree
  · simp [Step.text, Value.compact, scanned, scannedOther]

/-- The copy task is reached from the root of its tree. -/
theorem hasTask_codedTree (code : Value) : (codedTree code).HasTask "task" code := by
  have task : (codedTask code).Reaches (codedTask code) :=
    Step.Reaches.self _ (by simp [codedTask, Step.presentId?, Step.ofType, Step.withAttribute])
  have inFork : (codedFork code).Reaches (codedTask code) := by
    apply Step.Reaches.branch _ _ _ { child := some (codedTask code) } ?_ rfl ?_ rfl task
    · simp [codedFork, Step.presentId?, Step.ofType, Step.withBranch]
    · simp [codedFork, Step.withBranch]
  have behind : (codedTree code).Reaches (codedTask code) := by
    apply Step.Reaches.behind _ _ _ ?_ rfl inFork
    simp [codedTree, Step.presentId?, Step.ofType, Step.followedBy]
  exact ⟨codedTask code, .copyTask, behind, rfl, rfl, rfl, rfl⟩

/-- The tree is read from its text. -/
theorem ofText_codedTree (code : Value) (storable : (codedTree code).isStorable) :
    Step.ofText (codedTree code).text = .ok (codedTree code) := by
  obtain ⟨value, read, described⟩ := readText_of_storable (codedTree code) storable
  rw [Step.ofText, read]
  exact congrArg Except.ok described

/-- The net of the tree if the code is minus thirty. -/
def codedTreeNet : Net :=
  { id := "p"
    elements := [
      { id := "start", kind := .startEvent },
      { id := "fork", kind := .exclusiveGateway, defaultFlow := some "fork_SequenceFlow_2" },
      { id := "task", kind := .serviceTask, implementation := some copyTaskExpression
        extensions := [.ofText "candidateStrategy" "-30"] },
      endEvent]
    flows := [
      { source := "start", target := "fork" },
      { id := some "fork_SequenceFlow_1", source := "fork", target := "EndEvent" },
      { id := some "fork_SequenceFlow_2", source := "fork", target := "task", isDefault := true },
      { source := "task", target := "EndEvent" }] }

/-- The tree with a number is compiled to its net. -/
theorem compileText_codedTree :
    compileText (codedTree (.number (.int (-30)))).text "p" none = .ok codedTreeNet := by
  have elements : (codedTree (.number (.int (-30)))).elements =
      .ok codedTreeNet.elements.dropLast := by
    rw [elements_eq_examine _ (by decide) (by decide)]
    rfl
  have flows : (codedTree (.number (.int (-30)))).flows endEventId = .ok codedTreeNet.flows := by
    rw [flows_eq]
    rfl
  have read := ofText_codedTree (.number (.int (-30))) (by decide)
  have compiled : compile (codedTree (.number (.int (-30)))) "p" none = .ok codedTreeNet := by
    simp only [compile, elements, flows]
    rfl
  rw [compileText_of_read _ _ read, compiled]
  rfl

/-- Minus thirty as a number, and with a zero too many between blanks, gives one net. The integer
behind the greatest one of a signed word is refused in both forms. -/
theorem strategy_spellings_codedTree :
    SpellsBetweenBlanks "\t-030 " (-30) ∧ Decimal.Signed64 (-30) ∧
    compileText (codedTree (.string "\t-030 ")).text "p" none = .ok codedTreeNet ∧
    SpellsBetweenBlanks "+9223372036854775808" 9223372036854775808 ∧
    Refused (compileText (codedTree (.number (.int 9223372036854775808))).text "p" none) ∧
    Refused (compileText (codedTree (.string "+9223372036854775808")).text "p" none) := by
  have spelled : SpellsBetweenBlanks "\t-030 " (-30) :=
    ⟨['\t'], ['-', '0', '3', '0'], [' '], by decide, by simp [Text.isBlank], by simp [Text.isBlank],
      Decimal.Spells.minus ['0', '3', '0'] (by decide) (by decide)⟩
  have beyond : SpellsBetweenBlanks "+9223372036854775808" 9223372036854775808 :=
    ⟨[], "+9223372036854775808".toList, [], by simp, by simp, by simp,
      Decimal.Spells.plus "9223372036854775808".toList (by decide) (by decide)⟩
  have recodes (n : Int) (text : String) (whole : (codedTree (.number (.int n))).toValue.isWhole)
      (wholeText : (codedTree (.string text)).toValue.isWhole) :
      Recodes (.number (intNumeral n)) (.string (Json.spell text.toList))
        (codedTree (.number (.int n))).text (codedTree (.string text)).text := by
    rw [← Value.draft_int]
    exact recodes_codedTree _ _ whole wholeText
  have task (text : String) (storable : (codedTree (.string text)).isStorable) :
      ∀ root, Step.ofText (codedTree (.string text)).text = .ok root →
        root.HasTask "task" (.string text) := by
    intro root read
    rw [ofText_codedTree _ storable, Except.ok.injEq] at read
    exact read ▸ hasTask_codedTree (.string text)
  have word : Decimal.Signed64 (-30) := by simp [Decimal.Signed64]
  have within := (strategy_spellings (-30) "\t-030 " _ spelled (Json.string_spell _) _ _
    (recodes _ _ (by decide) (by decide)) "task" (task _ (by decide)) "p" none).1 word
  have outside := (strategy_spellings 9223372036854775808 "+9223372036854775808" _ beyond
    (Json.string_spell _) _ _ (recodes _ _ (by decide) (by decide)) "task" (task _ (by decide)) "p"
    none).2 (by simp [Decimal.Signed64])
  exact ⟨spelled, word, within.2.2.1.trans compileText_codedTree, beyond, outside⟩

end Workflow
