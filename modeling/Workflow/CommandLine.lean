import Workflow.Artifact
import Workflow.Compile
import Workflow.Net.Issues
import Workflow.Net.Listing

/-!
# The command line

A call names a designer's document and says how to show the compiled net. The
arguments are parsed first; a call that is refused there does nothing. The rest is
a function from the arguments and the content of the document to what is printed
or written. Only the last step, writing to a path, has an outcome that the
function cannot know; it is told how the writing ended.

Nothing is printed or written unless every earlier step succeeds.
-/

namespace Workflow

/-- How a net is shown. -/
inductive OutputFormat where
  | json
  | text
  | artifact
deriving DecidableEq, Repr

/-- The format with a name. Case matters. -/
def OutputFormat.ofName? : String → Option OutputFormat
  | "json" => some json
  | "text" => some text
  | "artifact" => some artifact
  | _ => none

/-- The options that take a value. -/
inductive ValueOption where
  | processId
  | processName
  | format
  | output
deriving DecidableEq, Repr

/-- The option with a long name. -/
def ValueOption.ofLongName? : String → Option ValueOption
  | "process-id" => some processId
  | "process-name" => some processName
  | "format" => some format
  | "output" => some output
  | _ => none

/-- The option with a short name. -/
def ValueOption.ofLetter? : Char → Option ValueOption
  | 'f' => some format
  | 'o' => some output
  | _ => none

/-- Why a call is refused. -/
inductive Refusal where
  | unexpected (argument : String)
  | noValue (argument : String)
  | badFormat (name : String)
  | repeated (argument : String)
  | noModel
deriving DecidableEq, Repr

/-- The message of a refused call. -/
def Refusal.message : Refusal → String
  | unexpected argument => "unexpected argument '" ++ argument ++ "' found"
  | noValue argument => "a value is required for '" ++ argument ++ "' but none was supplied"
  | badFormat name => "invalid value '" ++ name ++ "' for '--format <FORMAT>'"
  | repeated argument => "the argument '" ++ argument ++ "' cannot be used multiple times"
  | noModel => "the following required arguments were not provided: <MODEL_PATH>"

/-- What the arguments read so far say. -/
structure PartialArguments where
  model : Option String := none
  processId : Option String := none
  processName : Option String := none
  format : Option OutputFormat := none
  output : Option String := none
  strict : Bool := false

/-- What a call asks for. -/
structure Arguments where
  model : String
  processId : String
  processName : Option String
  format : OutputFormat
  output : Option String
  strict : Bool
deriving Repr

namespace PartialArguments

/-- The arguments with a value for a place that must still be free. -/
def fill {α : Type} (argument : String) (held : Option α) (value : α) : Except Refusal (Option α) :=
  match held with
  | none => .ok (some value)
  | some _ => .error (.repeated argument)

/-- The arguments with the value of an option. -/
def set (given : PartialArguments) (argument : String) (option : ValueOption) (value : String) :
    Except Refusal PartialArguments :=
  match option with
  | .processId => (fill argument given.processId value).map fun id => { given with processId := id }
  | .processName =>
      (fill argument given.processName value).map fun name => { given with processName := name }
  | .output => (fill argument given.output value).map fun path => { given with output := path }
  | .format =>
      match OutputFormat.ofName? value with
      | none => .error (.badFormat value)
      | some format =>
          (fill argument given.format format).map fun format => { given with format := format }

/-- The arguments with the path of the model. There is only one. -/
def setModel (given : PartialArguments) (path : String) : Except Refusal PartialArguments :=
  match given.model with
  | none => .ok { given with model := some path }
  | some _ => .error (.unexpected path)

/-- The arguments with the flag. -/
def setStrict (given : PartialArguments) : Except Refusal PartialArguments :=
  if given.strict then .error (.repeated "--strict") else .ok { given with strict := true }

/-- The call, with defaults for what it leaves out. -/
def complete (given : PartialArguments) : Except Refusal Arguments :=
  match given.model with
  | none => .error .noModel
  | some model =>
      .ok { model := model, processId := given.processId.getD defaultProcessId,
            processName := given.processName, format := given.format.getD .text,
            output := given.output, strict := given.strict }

end PartialArguments

/-- The form of an argument in front of which no option waits for a value. -/
inductive ArgumentForm where
  | endOfOptions
  | strict
  | long (option : ValueOption) (value : Option String)
  | short (option : ValueOption) (value : Option String)
  | positional
  | unknown

/-- The value attached to a short option, which an equals sign may introduce. -/
def attachedValue : List Char → Option String
  | [] => none
  | '=' :: value => some (String.ofList value)
  | value => some (String.ofList value)

/-- The form of a long option: a name, and a value after an equals sign. -/
def longForm (text : List Char) : ArgumentForm :=
  let name := text.takeWhile (· ≠ '=')
  let value := match text.dropWhile (· ≠ '=') with
    | [] => none
    | _ :: value => some (String.ofList value)
  match ValueOption.ofLongName? (String.ofList name) with
  | some option => .long option value
  | none => if text = ['s', 't', 'r', 'i', 'c', 't'] then .strict else .unknown

/-- The form of an argument. A lone dash is an ordinary text. -/
def ArgumentForm.of (argument : String) : ArgumentForm :=
  match argument.toList with
  | ['-', '-'] => .endOfOptions
  | '-' :: '-' :: text => longForm text
  | '-' :: letter :: value =>
      match ValueOption.ofLetter? letter with
      | some option => .short option (attachedValue value)
      | none => .unknown
  | _ => .positional

/-- True for an argument that can be the value of the option before it: anything
that does not look like an option itself. -/
def canBeValue (argument : String) : Bool :=
  match ArgumentForm.of argument with
  | .positional => true
  | _ => false

/-- The arguments behind the end of options, all of them positional. -/
def parsePositionals (given : PartialArguments) :
    List String → Except Refusal PartialArguments
  | [] => .ok given
  | path :: rest => do
      let given ← given.setModel path
      parsePositionals given rest

/-- The arguments of a call from left to right. -/
def parseArguments (given : PartialArguments) : List String → Except Refusal PartialArguments
  | [] => .ok given
  | argument :: rest =>
      match ArgumentForm.of argument with
      | .endOfOptions => parsePositionals given rest
      | .strict => do
          let given ← given.setStrict
          parseArguments given rest
      | .positional => do
          let given ← given.setModel argument
          parseArguments given rest
      | .unknown => .error (.unexpected argument)
      | .long option (some value) | .short option (some value) => do
          let given ← given.set argument option value
          parseArguments given rest
      | .long option none | .short option none =>
          match rest with
          | [] => .error (.noValue argument)
          | value :: rest =>
              if canBeValue value then do
                let given ← given.set argument option value
                parseArguments given rest
              else .error (.noValue argument)

/-- What a call asks for, unless it is refused. -/
def Arguments.parse (arguments : List String) : Except Refusal Arguments := do
  let given ← parseArguments {} arguments
  given.complete

/-- Why a call fails after its arguments were parsed. -/
inductive CallError where
  | unreadableModel (path reason : String)
  | badModel (cause : CompileError)
  | badTree (defect : Defect)
  | issues (count : Nat)
  | noOutput
  | unwritable (path reason : String)
  | artifact (cause : ArtifactError)

/-- The message of a failed call. -/
def CallError.message : CallError → String
  | unreadableModel path reason => "Failed to read model file '" ++ path ++ "': " ++ reason
  | badModel cause => cause.message
  | badTree defect => "Compilation failed: " ++ defect.message
  | issues count => toString count ++ " integrity issue(s) found"
  | noOutput => "The artifact format requires --output."
  | unwritable path reason => "Failed to write '" ++ path ++ "': " ++ reason
  | artifact cause => cause.message

/-- What a successful call still has to do: print a text, or write bytes to a
path. -/
inductive Delivery where
  | print (content : String)
  | write (path : String) (content : String)
  | save (path : String) (artifact : Artifact)

namespace Arguments

/-- The net that a document compiles to. -/
def net (arguments : Arguments) (model : Except String ByteArray) : Except CallError Net := do
  let content ← model.mapError (.unreadableModel arguments.model)
  let text ← match String.fromUTF8? content with
    | some text => pure text
    | none =>
        throw (.unreadableModel arguments.model "stream did not contain valid UTF-8")
  let root ← (rootOfText text).mapError .badModel
  (compile root arguments.processId arguments.processName).mapError .badTree

/-- A text for the output that was asked for. -/
def deliver (arguments : Arguments) (content : String) : Delivery :=
  match arguments.output with
  | none => .print content
  | some path => .write path content

/-- What is to be printed or written for a net. -/
def delivery (arguments : Arguments) (net : Net) : Except CallError Delivery :=
  match arguments.format with
  | .json => .ok (arguments.deliver net.toValue.indented)
  | .text => .ok (arguments.deliver net.listing)
  | .artifact =>
      match arguments.output with
      | none => .error .noOutput
      | some path => .ok (.save path (Artifact.ofNet net))

/-- Everything a call does before it prints or writes. -/
def run (arguments : Arguments) (model : Except String ByteArray) : Except CallError Delivery := do
  let net ← arguments.net model
  if arguments.strict ∧ net.issues ≠ [] then throw (.issues net.issues.length)
  arguments.delivery net

end Arguments

namespace Delivery

/-- The path that is written to, if one is. -/
def path? : Delivery → Option String
  | print _ => none
  | write path _ => some path
  | save path _ => some path

/-- What goes to standard output. A printed text is followed by a line break. -/
def printed : Delivery → String
  | print content => content ++ "\n"
  | _ => ""

/-- What goes into the file. -/
def bytes : Delivery → List UInt8
  | print _ => []
  | write _ content => content.toUTF8.data.toList
  | save _ artifact => artifact.toBytes

/-- The outcome of writing to the path, given how it ended. -/
def written (delivery : Delivery) (answer : WriteAnswer) : Except CallError Unit :=
  match delivery, answer with
  | print _, _ => .ok ()
  | write _ _, .written => .ok ()
  | write path _, .notCreated reason | write path _, .notWritten reason =>
      .error (.unwritable path reason)
  | save path _, answer => (Artifact.saved path answer).mapError .artifact

end Delivery

/-- How a call ends: what it prints, what it writes to which path, and whether it fails. -/
structure Ending where
  printed : String
  file : Option (String × List UInt8)
  outcome : Except CallError Unit

namespace Ending

/-- A call that fails before it prints or writes anything. -/
def failed (failure : CallError) : Ending := ⟨"", none, .error failure⟩

/-- The exit code. A failed call exits with one. -/
def exitCode (ending : Ending) : UInt32 :=
  match ending.outcome with
  | .ok _ => 0
  | .error _ => 1

end Ending

/-- How a call ends that delivers something, given how the writing ended if there is any. -/
def Delivery.ending (delivery : Delivery) (answer : WriteAnswer) : Ending where
  printed := delivery.printed
  file := delivery.path?.map fun path => (path, delivery.bytes)
  outcome := delivery.written answer

/-- How a call ends, given the content of the document and how the writing ended if there is any. -/
def Arguments.ending (arguments : Arguments) (model : Except String ByteArray)
    (answer : WriteAnswer) : Ending :=
  match arguments.run model with
  | .error failure => .failed failure
  | .ok delivery => delivery.ending answer

end Workflow
