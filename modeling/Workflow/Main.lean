import Workflow.CommandLine

/-!
# The program

The outer layer of the command line: it reads the document, prints, writes, and
turns failures into exit codes. A refused call exits with two, a failed one with
one.
-/

namespace Workflow

/-- The content of a file, or why it cannot be read. -/
def readModel (path : String) : IO (Except String ByteArray) := do
  try
    return .ok (← IO.FS.readBinFile path)
  catch failure =>
    return .error (toString failure)

/-- Writes bytes to a path and says how that ended. -/
def writeOutput (path : String) (content : List UInt8) : IO WriteAnswer := do
  let handle ← try
    IO.FS.Handle.mk path .write
  catch failure =>
    return .notCreated (toString failure)
  try
    handle.write ⟨content.toArray⟩
    handle.flush
    return .written
  catch failure =>
    return .notWritten (toString failure)

/-- Prints or writes what a call delivers. -/
def carryOut (delivery : Delivery) : IO Ending := do
  IO.print delivery.printed
  match delivery.path? with
  | none => return delivery.ending .written
  | some path => return delivery.ending (← writeOutput path delivery.bytes)

/-- Reports a failure, and gives the exit code. -/
def finish (ending : Ending) : IO UInt32 := do
  match ending.outcome with
  | .ok _ => pure ()
  | .error failure => IO.eprintln ("\nError: " ++ failure.message)
  return ending.exitCode

end Workflow

/-- Runs a call. -/
def main (arguments : List String) : IO UInt32 := do
  match Workflow.Arguments.parse arguments with
  | .error refusal =>
      IO.eprintln ("error: " ++ refusal.message)
      return 2
  | .ok arguments =>
      match arguments.run (← Workflow.readModel arguments.model) with
      | .error failure => Workflow.finish (.failed failure)
      | .ok delivery => Workflow.finish (← Workflow.carryOut delivery)
