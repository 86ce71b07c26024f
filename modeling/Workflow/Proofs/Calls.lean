import Workflow.CommandLine
import Workflow.Proofs.Acceptance
import Workflow.Proofs.NetText
import Workflow.Proofs.Soundness
import Workflow.Proofs.StepText
import Workflow.Proofs.Storage

/-!
# Calls of the command line

A call goes through reading the document, compiling it, checking the net and showing it. What it
comes to can be said by the parts alone. A compiled net passes the check (`run_eq`), so being strict
makes no difference; the document decides with the format whether the call succeeds
(`exitCode_eq_zero_iff`); and what a successful call prints or writes is the net again when it is
read in the same format (`shows_of_compiles`). A call that fails has printed and written nothing.
-/

namespace Workflow

/-- The content of a document is text, the text is read as a tree, and the tree is compiled to the
net. -/
def Arguments.Compiles (arguments : Arguments) (content : ByteArray) (net : Net) : Prop :=
  ∃ text root, String.fromUTF8? content = some text ∧ Step.ofText text = .ok root ∧
    compile root arguments.processId arguments.processName = .ok net

/-- A text is what a call ends with: it is printed with a line break, or written as it is to the
path that was given. -/
def Arguments.Delivers (arguments : Arguments) (text : String) (ending : Ending) : Prop :=
  match arguments.output with
  | none => ending.printed = text ++ "\n" ∧ ending.file = none
  | some path => ending.printed = "" ∧ ending.file = some (path, text.toUTF8.data.toList)

/-- A net is what a call ends with, in the format that was asked for: as a text that is read as the
net, with or without a line break behind it; as its listing; or as a file that is decoded as the
artifact of the net. The bytes of the file can be counted in eight. -/
def Arguments.Shows (arguments : Arguments) (net : Net) (ending : Ending) : Prop :=
  match arguments.format with
  | .json => ∃ text, Net.ofText text = .ok net ∧ Net.ofText (text ++ "\n") = .ok net ∧
      arguments.Delivers text ending
  | .text => arguments.Delivers net.listing ending
  | .artifact => ∃ path bytes, arguments.output = some path ∧ ending.printed = "" ∧
      ending.file = some (path, bytes) ∧
      (bytes.length < Codec.countLimit → Artifact.ofBytes bytes = .ok (Artifact.ofNet net))

/-- The net of a call is the one that its document compiles to. -/
theorem net_eq_ok_iff (arguments : Arguments) (content : ByteArray) (net : Net) :
    arguments.net (.ok content) = .ok net ↔ arguments.Compiles content net := by
  unfold Arguments.net Arguments.Compiles
  simp only [Except.mapError, bind, Except.bind]
  cases decoded : String.fromUTF8? content with
  | none => simp [throw, throwThe, MonadExceptOf.throw]
  | some text =>
    cases read : Step.ofText text with
    | error fault => simp [rootOfText, read, Except.mapError, pure, Except.pure]
    | ok root =>
      cases compiled : compile root arguments.processId arguments.processName <;>
        simp [rootOfText, read, compiled, Except.mapError, pure, Except.pure]

/-- The check of the net never stops a call. -/
theorem run_eq (arguments : Arguments) (content : ByteArray) :
    arguments.run (.ok content) = arguments.net (.ok content) >>= arguments.delivery := by
  unfold Arguments.run
  cases found : arguments.net (.ok content) with
  | error failure => rfl
  | ok net =>
    obtain ⟨_, root, _, _, accepted⟩ := (net_eq_ok_iff arguments content net).mp found
    have sound := sound_of_compiled root arguments.processId arguments.processName net accepted
    have clean : net.issues = [] := (issues_eq_nil_iff net).mpr sound
    simp [clean, bind, Except.bind]

/-- A call ends as if it were strict or as if it were not. -/
theorem ending_strict (arguments : Arguments) (content : ByteArray) (answer : WriteAnswer)
    (strict : Bool) : { arguments with strict := strict }.ending (.ok content) answer =
      arguments.ending (.ok content) answer := by
  unfold Arguments.ending
  rw [run_eq, run_eq]
  rfl

/-- A delivery is refused only if an artifact has nowhere to go. -/
theorem exists_delivery_iff (arguments : Arguments) (net : Net) :
    (∃ delivery, arguments.delivery net = .ok delivery) ↔
      (arguments.format = .artifact → arguments.output.isSome) := by
  unfold Arguments.delivery
  cases arguments.format with
  | json => simp
  | text => simp
  | artifact => cases arguments.output <;> simp

/-- What is delivered is delivered if the writing does not fail. -/
theorem exitCode_written (delivery : Delivery) : (delivery.ending .written).exitCode = 0 := by
  cases delivery <;> rfl

/-- A call succeeds exactly if its document compiles, and an artifact has somewhere to go. -/
theorem exitCode_eq_zero_iff (arguments : Arguments) (content : ByteArray) :
    (arguments.ending (.ok content) .written).exitCode = 0 ↔
      (∃ net, arguments.Compiles content net) ∧
        (arguments.format = .artifact → arguments.output.isSome) := by
  simp only [← net_eq_ok_iff]
  unfold Arguments.ending
  rw [run_eq]
  cases arguments.net (.ok content) with
  | error failure => simp [bind, Except.bind, Ending.failed, Ending.exitCode]
  | ok net =>
    rw [← exists_delivery_iff arguments net]
    simp only [bind, Except.bind]
    cases arguments.delivery net with
    | error failure => simp [Ending.failed, Ending.exitCode]
    | ok delivery => simp [exitCode_written]

/-- A call that fails before it delivers anything prints and writes nothing. -/
theorem ending_of_failed (arguments : Arguments) (content : ByteArray)
    (failed : (arguments.ending (.ok content) .written).exitCode ≠ 0) :
    (arguments.ending (.ok content) .written).exitCode = 1 ∧
      (arguments.ending (.ok content) .written).printed = "" ∧
      (arguments.ending (.ok content) .written).file = none := by
  unfold Arguments.ending at failed ⊢
  cases ran : arguments.run (.ok content) with
  | error failure => exact ⟨rfl, rfl, rfl⟩
  | ok delivery =>
    rw [ran] at failed
    exact False.elim (failed (exitCode_written delivery))

/-- A text that is delivered is what the call ends with. -/
theorem delivers_deliver (arguments : Arguments) (text : String) (answer : WriteAnswer) :
    arguments.Delivers text ((arguments.deliver text).ending answer) := by
  unfold Arguments.Delivers Arguments.deliver
  cases arguments.output with
  | none => exact ⟨rfl, rfl⟩
  | some path => exact ⟨rfl, rfl⟩

/-- The text of a net is read as the net with a line break behind it as well. -/
theorem ofText_line (net : Net) : Net.ofText (net.toValue.indented ++ "\n") = .ok net := by
  have plain : Json.Spells net.toValue.draft net.toValue.indented.toList := by
    rw [Json.Value.indented, String.toList_ofList]
    exact Json.spells_text .indented net.toValue (isWhole_net net)
  have line : Json.Spells net.toValue.draft (net.toValue.indented ++ "\n").toList := by
    rw [String.toList_append]
    exact plain.append _ (by simp [Json.Blanks, Json.isSpace])
  have same := Json.readText_spelled documentSchema (.record .net) _ line
  rw [← Json.readText_spelled documentSchema (.record .net) _ plain] at same
  rw [Net.ofText, same]
  exact ofText_text .indented net

/-- An artifact that is saved is decoded from the bytes of the file. -/
theorem ofBytes_toBytes (net : Net)
    (counted : (Artifact.ofNet net).toBytes.length < Codec.countLimit) :
    Artifact.ofBytes (Artifact.ofNet net).toBytes = .ok (Artifact.ofNet net) := by
  have word : artifactVersion < 4294967296 := by decide
  have read := Codec.artifact_restores (Artifact.ofNet net) word counted []
  rw [List.append_nil] at read
  simp only [Artifact.ofBytes, Artifact.toBytes, read]
  exact if_pos rfl

/-- A call whose document compiles and that succeeds shows the net. -/
theorem shows_of_compiles (arguments : Arguments) (content : ByteArray) (net : Net)
    (compiles : arguments.Compiles content net)
    (succeeds : (arguments.ending (.ok content) .written).exitCode = 0) :
    arguments.Shows net (arguments.ending (.ok content) .written) := by
  have placed := ((exitCode_eq_zero_iff arguments content).mp succeeds).2
  have found := (net_eq_ok_iff arguments content net).mpr compiles
  unfold Arguments.ending Arguments.Shows
  rw [run_eq, found]
  simp only [bind, Except.bind, Arguments.delivery]
  cases format : arguments.format with
  | json => exact ⟨_, ofText_text .indented net, ofText_line net, delivers_deliver arguments _ _⟩
  | text => exact delivers_deliver arguments _ _
  | artifact =>
    obtain ⟨path, known⟩ := Option.isSome_iff_exists.mp (placed format)
    rw [known]
    exact ⟨path, _, rfl, rfl, rfl, ofBytes_toBytes net⟩

namespace PartialArguments

/-- The arguments with the flag. -/
def strictly (given : PartialArguments) : PartialArguments := { given with strict := true }

variable (given result : PartialArguments)

/-- An option is set beside the flag as it is without it. -/
theorem set_strictly (argument : String) (option : ValueOption) (value : String) :
    given.strictly.set argument option value = (given.set argument option value).map strictly := by
  cases option with
  | processId => cases held : given.processId <;> simp [set, strictly, fill, held, Except.map]
  | processName => cases held : given.processName <;> simp [set, strictly, fill, held, Except.map]
  | output => cases held : given.output <;> simp [set, strictly, fill, held, Except.map]
  | format =>
    cases named : OutputFormat.ofName? value with
    | none => simp [set, named, Except.map]
    | some format =>
      cases held : given.format <;> simp [set, named, strictly, fill, held, Except.map]

/-- The path of the model is set beside the flag as it is without it. -/
theorem setModel_strictly (path : String) :
    given.strictly.setModel path = (given.setModel path).map strictly := by
  cases held : given.model <;> simp [setModel, strictly, held, Except.map]

/-- Setting an option leaves the flag. -/
theorem strict_of_set (argument : String) (option : ValueOption) (value : String)
    (accepted : given.set argument option value = .ok result) : result.strict = given.strict := by
  unfold set at accepted
  split at accepted
  case h_4 =>
    split at accepted
    case h_1 => cases accepted
    case h_2 =>
      obtain ⟨_, _, rfl⟩ := (InOrder.map_ok_iff _ _ _).mp accepted
      rfl
  all_goals
    obtain ⟨_, _, rfl⟩ := (InOrder.map_ok_iff _ _ _).mp accepted
    rfl

/-- Setting the path of the model leaves the flag. -/
theorem strict_of_setModel (path : String) (accepted : given.setModel path = .ok result) :
    result.strict = given.strict := by
  unfold setModel at accepted
  split at accepted <;> cases accepted
  rfl

end PartialArguments

open PartialArguments

/-- Paths behind the end of options leave the flag. -/
theorem strict_of_parsePositionals (given result : PartialArguments) (paths : List String)
    (parsed : parsePositionals given paths = .ok result) : result.strict = given.strict := by
  induction paths generalizing given with
  | nil =>
    cases parsed
    rfl
  | cons path rest inductionHypothesis =>
    obtain ⟨next, accepted, parsed⟩ := (InOrder.bind_ok_iff _ _ _).mp parsed
    rw [inductionHypothesis next parsed, strict_of_setModel given next path accepted]

/-- Once the flag is set it stays. -/
theorem strict_of_parseArguments (given result : PartialArguments) (arguments : List String)
    (parsed : parseArguments given arguments = .ok result) (strict : given.strict) :
    result.strict := by
  fun_induction parseArguments given arguments with
  | case1 =>
    cases parsed
    exact strict
  | case2 given _ rest => rw [strict_of_parsePositionals given result rest parsed, strict]
  | case3 given _ rest _ inductionHypothesis =>
    obtain ⟨next, accepted, parsed⟩ := (InOrder.bind_ok_iff _ _ _).mp parsed
    simp [setStrict, strict] at accepted
  | case4 given path rest _ inductionHypothesis =>
    obtain ⟨next, accepted, parsed⟩ := (InOrder.bind_ok_iff _ _ _).mp parsed
    exact inductionHypothesis next parsed
      (by rw [strict_of_setModel given next path accepted, strict])
  | case6 given path _ _ _ _ inductionHypothesis | case7 given path _ _ _ _ inductionHypothesis
  | case9 given path _ _ _ _ _ inductionHypothesis
  | case12 given path _ _ _ _ _ inductionHypothesis =>
    obtain ⟨next, accepted, parsed⟩ := (InOrder.bind_ok_iff _ _ _).mp parsed
    exact inductionHypothesis next parsed (by rw [strict_of_set given next _ _ _ accepted, strict])
  | case5 | case8 | case10 | case11 | case13 => cases parsed

/-- If a step and what is behind it are accepted beside the flag as without it, so are both. -/
theorem bind_strictly {step flagged : Except Refusal PartialArguments}
    {next : PartialArguments → Except Refusal PartialArguments} {result : PartialArguments}
    (same : flagged = step.map strictly)
    (behind : ∀ given, next given = .ok result → next given.strictly = .ok result.strictly)
    (parsed : step >>= next = .ok result) : flagged >>= next = .ok result.strictly := by
  obtain ⟨given, rfl, parsed⟩ := (InOrder.bind_ok_iff _ _ _).mp parsed
  rw [same]
  exact behind given parsed

/-- Paths behind the end of options are accepted beside the flag as without it. -/
theorem parsePositionals_strictly (given result : PartialArguments) (paths : List String)
    (parsed : parsePositionals given paths = .ok result) :
    parsePositionals given.strictly paths = .ok result.strictly := by
  induction paths generalizing given with
  | nil =>
    cases parsed
    rfl
  | cons path rest inductionHypothesis =>
    exact bind_strictly (setModel_strictly given path) inductionHypothesis parsed

/-- Arguments without the flag are accepted beside it. -/
theorem parseArguments_strictly (given result : PartialArguments) (arguments : List String)
    (parsed : parseArguments given arguments = .ok result) (lax : result.strict = false) :
    parseArguments given.strictly arguments = .ok result.strictly := by
  fun_induction parseArguments given arguments with
  | case1 =>
    cases parsed
    rfl
  | case2 given _ rest form =>
    rw [parseArguments, form]
    exact parsePositionals_strictly given result rest parsed
  | case3 given _ rest _ inductionHypothesis =>
    obtain ⟨next, accepted, parsed⟩ := (InOrder.bind_ok_iff _ _ _).mp parsed
    unfold setStrict at accepted
    split at accepted <;> cases accepted
    have flagged := strict_of_parseArguments _ result rest parsed rfl
    rw [lax] at flagged
    cases flagged
  | case4 given path rest form inductionHypothesis =>
    rw [parseArguments, form]
    exact bind_strictly (setModel_strictly given path) inductionHypothesis parsed
  | case6 given _ _ _ _ form inductionHypothesis | case7 given _ _ _ _ form inductionHypothesis =>
    rw [parseArguments, form]
    exact bind_strictly (set_strictly given _ _ _) inductionHypothesis parsed
  | case9 given _ _ form _ _ value inductionHypothesis
  | case12 given _ _ form _ _ value inductionHypothesis =>
    rw [parseArguments, form]
    simp only [value, if_true]
    exact bind_strictly (set_strictly given _ _ _) inductionHypothesis parsed
  | case5 | case8 | case10 | case11 | case13 => cases parsed

/-- A call that is not strict is accepted with the flag in front, and asks for the same besides. -/
theorem parse_strict (given : List String) (arguments : Arguments)
    (parsed : Arguments.parse given = .ok arguments) (lax : arguments.strict = false) :
    Arguments.parse ("--strict" :: given) = .ok { arguments with strict := true } := by
  obtain ⟨result, read, complete⟩ := (InOrder.bind_ok_iff _ _ _).mp parsed
  unfold PartialArguments.complete at complete
  split at complete
  case h_1 => cases complete
  case h_2 model named =>
    cases complete
    have flagged := parseArguments_strictly {} result given read lax
    have form : ArgumentForm.of "--strict" = .strict := by rfl
    have first : parseArguments {} ("--strict" :: given) = .ok result.strictly := by
      rw [parseArguments, form]
      exact flagged
    rw [Arguments.parse, first]
    simp [bind, Except.bind, PartialArguments.complete, strictly, named]

/-- A call that is accepted succeeds exactly if its document is text that is read as a tree and
compiled to a net, and an artifact has a path to go to. If it succeeds it shows this net, and
otherwise it exits with one and has printed and written nothing. It comes to the same whether it is
strict or not. -/
theorem ending_agrees (given : List String) (arguments : Arguments)
    (parsed : Arguments.parse given = .ok arguments) (content : ByteArray) :
    let ending := arguments.ending (.ok content) .written
    (ending.exitCode = 0 ↔ (∃ net, arguments.Compiles content net) ∧
      (arguments.format = .artifact → arguments.output.isSome)) ∧
    (∀ net, arguments.Compiles content net → ending.exitCode = 0 → arguments.Shows net ending) ∧
    (ending.exitCode ≠ 0 → ending.exitCode = 1 ∧ ending.printed = "" ∧ ending.file = none) ∧
    (∀ strict, { arguments with strict := strict }.ending (.ok content) .written = ending) ∧
    (arguments.strict = false →
      Arguments.parse ("--strict" :: given) = .ok { arguments with strict := true }) :=
  ⟨exitCode_eq_zero_iff arguments content, shows_of_compiles arguments content,
    ending_of_failed arguments content, ending_strict arguments content .written,
    parse_strict given arguments parsed⟩

/-- The arguments of a call that asks for a text file. -/
def jsonCall : List String := ["model.json", "--process-id", "p", "--format=json", "-onet.json"]

/-- What the call asks for. -/
def jsonArguments : Arguments :=
  { model := "model.json", processId := "p", processName := none, format := .json,
    output := some "net.json", strict := false }

/-- The call with the nested forks as its document succeeds, writes their net, and does the same
with the flag. -/
theorem ending_agrees_nestedForks :
    let ending := jsonArguments.ending (.ok nestedForks.text.toUTF8) .written
    Arguments.parse jsonCall = .ok jsonArguments ∧ ending.exitCode = 0 ∧
      jsonArguments.Shows nestedForksNet ending ∧
      Arguments.parse ("--strict" :: jsonCall) = .ok { jsonArguments with strict := true } ∧
      { jsonArguments with strict := true }.ending (.ok nestedForks.text.toUTF8) .written =
        ending := by
  have parsed : Arguments.parse jsonCall = .ok jsonArguments := by rfl
  have compiles : jsonArguments.Compiles nestedForks.text.toUTF8 nestedForksNet := by
    refine ⟨nestedForks.text, nestedForks, Codec.fromUTF8?_toUTF8 _, ?_, compile_nestedForks⟩
    obtain ⟨value, read, described⟩ := readText_of_storable nestedForks (by decide)
    rw [Step.ofText, read]
    exact congrArg Except.ok described
  obtain ⟨succeeds, shows, _, same, flagged⟩ :=
    ending_agrees jsonCall jsonArguments parsed nestedForks.text.toUTF8
  have exit := succeeds.mpr ⟨⟨_, compiles⟩, fun artifact => by cases artifact⟩
  exact ⟨parsed, exit, shows _ compiles exit, flagged rfl, same true⟩

end Workflow
