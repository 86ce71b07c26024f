import Workflow.Net.Basic
import Workflow.Text.Blank

/-!
# Listings

A listing shows a net to people: a line for every element, with its
extensions below it, then the flows grouped by their source, then the counts.
The groups are collected in one pass over the flows, in a table whose order means
nothing. A second pass takes the sources in the order in which they first occur
and looks each of them up in the table.
-/

namespace Workflow.Net

/-- The sources of flows, each once, in the order of first occurrence. -/
def sources (flows : List Flow) : List String :=
  (flows.map (·.source)).foldl
    (fun before id => if before.contains id then before else before ++ [id]) []

/-- The groups with one more flow, behind the others of its source. A source
without a group gets one. -/
def addToGroup (entry : Nat × Flow) :
    List (String × List (Nat × Flow)) → List (String × List (Nat × Flow))
  | [] => [(entry.2.source, [entry])]
  | (source, group) :: rest =>
      if source = entry.2.source then (source, group ++ [entry]) :: rest
      else (source, group) :: addToGroup entry rest

/-- The flows, each with its position, in a table by source. -/
def flowTable (net : Net) : List (String × List (Nat × Flow)) :=
  (net.flows.mapIdx fun position flow => (position, flow)).foldl
    (fun groups entry => addToGroup entry groups) []

/-- The flows grouped by source, in the order of the sources. -/
def flowGroups (net : Net) : List (String × List (Nat × Flow)) :=
  let table := net.flowTable
  (sources net.flows).map fun source => (source, (table.lookup source).getD [])

/-- A text filled with spaces on the right up to a width in characters. -/
def padded (width : Nat) (text : String) : String :=
  text ++ String.ofList (List.replicate (width - text.length) ' ')

/-- A labelled part of a line that only some elements have. -/
def labelled (before after : String) : Option String → String
  | none => ""
  | some text => before ++ text ++ after

/-- The line of an element. -/
def elementLine (element : Element) : String :=
  let line := padded 24 element.id ++ " " ++ padded 18 element.kind.label ++
    labelled " \"" "\"" element.name ++ labelled " impl=" "" element.implementation ++
    labelled " default=" "" element.defaultFlow
  String.ofList (Text.trimEnd line.toList)

/-- What an extension says: its text, or else its attributes. -/
def extensionBody (extension : Extension) : String :=
  match extension.text with
  | some text => text
  | none =>
      String.intercalate ", "
        (extension.attributes.map fun entry => entry.name ++ "=" ++ entry.value)

/-- The line of an extension. -/
def extensionLine (extension : Extension) : String :=
  "    " ++ extension.qualifier ++ ":" ++ extension.name ++ " [" ++ extensionBody extension ++ "]"

/-- The lines of an element. -/
def elementLines (element : Element) : List String :=
  elementLine element :: element.extensions.map extensionLine

/-- A flow inside its group. -/
def flowEntry (net : Net) (position : Nat) (flow : Flow) : String :=
  (net.flowKey? position).getD "" ++ " -> " ++ flow.target ++
    (if flow.isDefault then " (default)" else "")

/-- The lines of a group of flows. -/
def groupLines (net : Net) (group : String × List (Nat × Flow)) : List String :=
  group.1 :: group.2.map fun (position, flow) => "    " ++ net.flowEntry position flow

/-- The lines of a listing. -/
def listingLines (net : Net) : List String :=
  ["======== PROCESS: " ++ net.id ++ " (" ++ net.name.getD "unnamed" ++ ") ========", "",
    "--- NODES ---"] ++
    net.elements.flatMap elementLines ++ ["", "--- FLOWS ---"] ++
    net.flowGroups.flatMap net.groupLines ++
    ["", "================ " ++ toString net.elements.length ++ " nodes, " ++
      toString net.flows.length ++ " flows ================"]

/-- The listing of a net. Every line ends with a line break. -/
def listing (net : Net) : String :=
  String.join (net.listingLines.map fun line => line ++ "\n")

end Workflow.Net
