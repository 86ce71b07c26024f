import Workflow.Compile.Flows
import Workflow.Documents

/-!
# Compiling a tree to a net

A tree is compiled completely or not at all. The elements come first, in pre-order
of the steps; the end event closes them; the flows connect them, and every path
that ends in the tree leads to the end event.

A tree may come from a designer's document, from another format that knows how to
become a tree, or be built by hand. A layout engine sees the finished net and
only adds a diagram to it.
-/

namespace Workflow

/-- The identifier of a process that is not given one. -/
def defaultProcessId : String := "process"

/-- Compiles a tree to the net of a process with an identifier and perhaps a name. -/
def compile (root : Step) (processId : String) (processName : Option String) :
    Except Defect Net := do
  let elements ← root.elements
  let flows ← root.flows endEventId
  pure { id := processId, name := processName, executable := true,
         elements := elements ++ [endEvent], flows := flows }

/-- Why there is no net with a diagram. -/
inductive CompileError where
  | unreadable (cause : Json.ReadError)
  | defective (defect : Defect)
  | unconvertible (reason : String)
  | withoutLayout (cause : LayoutError)

/-- The message of a failed compilation. -/
def CompileError.message : CompileError → String
  | unreadable cause => "Failed to parse simple model JSON: " ++ cause.message
  | defective defect => "Invalid simple model: " ++ defect.message
  | unconvertible reason => "Failed to convert custom model: Invalid custom model: " ++ reason
  | withoutLayout cause => "Layout failed: " ++ cause.message

/-- A format of its own that can become a tree of steps, or say why it cannot. -/
class Convertible (μ : Type) where
  toStep : μ → Except String Step

instance : Convertible Step where
  toStep step := .ok step

/-- The tree behind a designer's document. -/
def rootOfText (text : String) : Except CompileError Step :=
  (Step.ofText text).mapError .unreadable

/-- The tree behind a model of another format. -/
def rootOfModel {μ : Type} [Convertible μ] (model : μ) : Except CompileError Step :=
  (Convertible.toStep model).mapError .unconvertible

/-- A layout engine. -/
abbrev LayoutEngine := Net → Except LayoutError Diagram

/-- A net with its diagram. -/
structure DrawnNet where
  net : Net
  diagram : Diagram

/-- Compiles a tree and has the net drawn. A diagram is accepted only if every
key in it is known in the net. -/
def compileWithLayout (root : Step) (processId : String) (processName : Option String)
    (engine : LayoutEngine) : Except CompileError DrawnNet := do
  let net ← (compile root processId processName).mapError .defective
  let diagram ← (engine net).mapError .withoutLayout
  (diagram.verify net).mapError .withoutLayout
  pure ⟨net, diagram⟩

end Workflow
