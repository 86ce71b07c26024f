import Workflow.Compile
import Workflow.Proofs.FlowKeys

/-!
# Compiling with a layout

A compilation with a layout has three stages: the tree is compiled, an engine draws the net, and
the drawing is checked. What a later stage would say does not matter once an earlier one has
failed. The check looks for a key that the net does not know, among the shapes first, and its
outcome is told without the search: nothing is found exactly if the diagram fits the net
(`unknownKey?_eq_none_iff`), and what is found is foreign to the net (`foreign_of_unknownKey?`).

Which of several foreign keys is found depends on the order of the tables of a diagram. Nothing
here does, so a table may stand in any order.
-/

namespace Workflow

namespace Diagram

/-- The diagram draws nothing but elements and flows of the net. -/
structure Fits (diagram : Diagram) (net : Net) : Prop where
  shapes : ∀ id ∈ diagram.shapes.map (·.1), id ∈ net.elements.map (·.id)
  edges : ∀ key ∈ diagram.edges.map (·.1), ∃ position, net.flowKey? position = some key

/-- A key that the diagram may be refused for: a shape of no element, or an edge of no flow if
all shapes are those of elements. -/
inductive Foreign (diagram : Diagram) (net : Net) (key : String) : Prop
  | shape (drawn : key ∈ diagram.shapes.map (·.1)) (unknown : key ∉ net.elements.map (·.id))
  | edge (shapes : ∀ id ∈ diagram.shapes.map (·.1), id ∈ net.elements.map (·.id))
      (drawn : key ∈ diagram.edges.map (·.1))
      (unknown : ∀ position, net.flowKey? position ≠ some key)

variable (diagram : Diagram) (net : Net)

/-- No shape is found to be unknown exactly if all of them are those of elements. -/
theorem find?_shapes_eq_none_iff :
    (diagram.shapes.map (·.1)).find? (fun id => !net.hasElement id) = none ↔
      ∀ id ∈ diagram.shapes.map (·.1), id ∈ net.elements.map (·.id) := by
  rw [List.find?_eq_none]
  apply forall₂_congr
  intro id _
  rw [Bool.not_eq_true', Bool.not_eq_false, net.hasElement_iff]

/-- No edge is found to be unknown exactly if all of them are those of flows. -/
theorem find?_edges_eq_none_iff :
    (diagram.edges.map (·.1)).find? (fun key => !net.flowKeys.contains key) = none ↔
      ∀ key ∈ diagram.edges.map (·.1), ∃ position, net.flowKey? position = some key := by
  rw [List.find?_eq_none]
  apply forall₂_congr
  intro key _
  rw [Bool.not_eq_true', Bool.not_eq_false, List.contains_iff_mem, mem_flowKeys_iff]

/-- The check finds nothing exactly if the diagram fits. -/
theorem unknownKey?_eq_none_iff : diagram.unknownKey? net = none ↔ diagram.Fits net := by
  rw [unknownKey?, Option.or_eq_none_iff, find?_shapes_eq_none_iff, find?_edges_eq_none_iff]
  constructor
  · rintro ⟨shapes, edges⟩
    exact ⟨shapes, edges⟩
  · intro fits
    exact ⟨fits.shapes, fits.edges⟩

/-- What the check finds is foreign to the net. -/
theorem foreign_of_unknownKey? (key : String) (found : diagram.unknownKey? net = some key) :
    diagram.Foreign net key := by
  rw [unknownKey?, Option.or_eq_some_iff] at found
  rcases found with shape | ⟨shapes, edge⟩
  · have unknown := List.find?_some shape
    rw [Bool.not_eq_true', ← Bool.not_eq_true, net.hasElement_iff] at unknown
    exact .shape (List.mem_of_find?_eq_some shape) unknown
  · have unknown := List.find?_some edge
    rw [Bool.not_eq_true', ← Bool.not_eq_true, List.contains_iff_mem, mem_flowKeys_iff] at unknown
    exact .edge ((diagram.find?_shapes_eq_none_iff net).mp shapes) (List.mem_of_find?_eq_some edge)
      (not_exists.mp unknown)

/-- A diagram is accepted exactly if it fits. -/
theorem verify_eq_ok_iff : diagram.verify net = .ok () ↔ diagram.Fits net := by
  rw [← unknownKey?_eq_none_iff, verify]
  split <;> simp_all

/-- A diagram that does not fit is refused for a foreign key. -/
theorem verify_of_not_fits (unfit : ¬ diagram.Fits net) :
    ∃ key, diagram.Foreign net key ∧ diagram.verify net = .error (.unknownElement key) := by
  rw [← unknownKey?_eq_none_iff] at unfit
  obtain ⟨key, found⟩ := Option.ne_none_iff_exists'.mp unfit
  refine ⟨key, diagram.foreign_of_unknownKey? net key found, ?_⟩
  rw [verify, found]

end Diagram

section

variable (root : Step) (processId : String) (processName : Option String) (engine : LayoutEngine)

/-- Once the tree is compiled the engine draws the net, and then the drawing is checked. -/
theorem compileWithLayout_of_compiled (net : Net)
    (accepted : compile root processId processName = .ok net) :
    compileWithLayout root processId processName engine =
      ((engine net).mapError .withoutLayout).bind fun diagram =>
        ((diagram.verify net).mapError .withoutLayout).bind fun _ => .ok ⟨net, diagram⟩ := by
  rw [compileWithLayout, accepted]
  rfl

/-- A compilation with a layout fails for the defect of the tree, whatever the engine does. If
there is none it fails as the engine does. Otherwise it gives the compiled net unchanged together
with the engine's diagram exactly if the diagram fits the net, and it is refused for a foreign key
of the diagram if it does not. -/
theorem compileWithLayout_stages :
    (∀ defect, compile root processId processName = .error defect →
      compileWithLayout root processId processName engine = .error (.defective defect)) ∧
    ∀ net, compile root processId processName = .ok net →
      (∀ cause, engine net = .error cause →
        compileWithLayout root processId processName engine = .error (.withoutLayout cause)) ∧
      ∀ diagram, engine net = .ok diagram →
        (compileWithLayout root processId processName engine = .ok ⟨net, diagram⟩ ↔
          diagram.Fits net) ∧
        (¬ diagram.Fits net → ∃ key, diagram.Foreign net key ∧
          compileWithLayout root processId processName engine =
            .error (.withoutLayout (.unknownElement key))) := by
  refine ⟨?defect, fun net accepted => ⟨?cause, fun diagram drawn => ?drawing⟩⟩
  case defect =>
    intro defect refused
    rw [compileWithLayout, refused]
    rfl
  case cause =>
    intro cause undrawn
    rw [compileWithLayout_of_compiled root processId processName engine net accepted, undrawn]
    rfl
  case drawing =>
    have checked : compileWithLayout root processId processName engine =
        ((diagram.verify net).mapError .withoutLayout).bind fun _ => .ok ⟨net, diagram⟩ := by
      rw [compileWithLayout_of_compiled root processId processName engine net accepted, drawn]
      rfl
    rw [checked]
    by_cases fits : diagram.Fits net
    · rw [(diagram.verify_eq_ok_iff net).mpr fits]
      exact ⟨⟨fun _ => fits, fun _ => rfl⟩, fun unfit => absurd fits unfit⟩
    · obtain ⟨key, foreign, refused⟩ := diagram.verify_of_not_fits net fits
      rw [refused]
      refine ⟨⟨fun result => ?_, fun fit => absurd fit fits⟩, fun _ => ⟨key, foreign, rfl⟩⟩
      cases result

end

/-- A diagram of one shape and one edge. -/
def smallDiagram (id key : String) : Diagram where
  shapes := [(id, ⟨.zero false, .zero false, .zero false, .zero false⟩)]
  edges := [(key, [])]

/-- A tree without an identifier is refused also with an engine that fails. The net of the nested
forks is refused for a failing engine. With a diagram of one of its elements and one of its flows it
is given, and with a diagram of something else it is refused. -/
theorem compileWithLayout_stages_nestedForks :
    (compile {} "p" none = .error .empty ∧
      compileWithLayout {} "p" none (fun _ => .error (.other "m")) = .error (.defective .empty)) ∧
    compile nestedForks "p" none = .ok nestedForksNet ∧
    compileWithLayout nestedForks "p" none (fun _ => .error (.other "m")) =
      .error (.withoutLayout (.other "m")) ∧
    compileWithLayout nestedForks "p" none (fun _ => .ok (smallDiagram "join" "p_Flow_4")) =
      .ok ⟨nestedForksNet, smallDiagram "join" "p_Flow_4"⟩ ∧
    ¬ (smallDiagram "join" "p_Flow_2").Fits nestedForksNet ∧
    ∃ key, (smallDiagram "join" "p_Flow_2").Foreign nestedForksNet key ∧
      compileWithLayout nestedForks "p" none (fun _ => .ok (smallDiagram "join" "p_Flow_2")) =
        .error (.withoutLayout (.unknownElement key)) := by
  have empty : compile {} "p" none = .error .empty :=
    (compile_error_iff {} "p" none .empty).mpr (.empty rfl)
  have stages (engine : LayoutEngine) :=
    (compileWithLayout_stages nestedForks "p" none engine).2 nestedForksNet compile_nestedForks
  have fits : (smallDiagram "join" "p_Flow_4").Fits nestedForksNet :=
    ((smallDiagram "join" "p_Flow_4").verify_eq_ok_iff nestedForksNet).mp (by decide)
  have unfit : ¬ (smallDiagram "join" "p_Flow_2").Fits nestedForksNet := by
    rw [← Diagram.verify_eq_ok_iff]
    decide
  refine ⟨⟨empty, (compileWithLayout_stages {} "p" none _).1 .empty empty⟩, compile_nestedForks,
    (stages _).1 _ rfl, ?_, unfit, ?_⟩
  · exact ((stages _).2 _ rfl).1.mpr fits
  · exact ((stages _).2 _ rfl).2 unfit

end Workflow
