import Workflow.Proofs.FlowKeys
import Workflow.Proofs.SharedOrder

/-!
# What an empty report leaves open

The check of a net goes along flows from one identifier to another. Whether it reports anything is
told by the wiring alone: the identifiers there are, those of the start and end events, and the
pairs of them that flows join (`Net.WiredAlike.sound`). It does not matter how many elements share
an identifier, what the flows are called, or which flows are defaults.

Compiled nets are beyond doubt in these respects too: identifiers and keys each stand for one thing,
and a default is a flow of its element (`compile_unambiguous`). A net from elsewhere may have an
empty report without any of this.
-/

namespace Workflow

/-- The net leaves no doubt about what an identifier, a key or a default means: elements have
different identifiers, flows have different keys, and the default of an element is one of the flows
out of it. -/
structure Net.Unambiguous (net : Net) : Prop where
  elements : (net.elements.map (·.id)).Nodup
  flows : ∀ first second, first < net.flows.length → second < net.flows.length →
    net.flowKey? first = net.flowKey? second → first = second
  defaults : ∀ element ∈ net.elements, ∀ id, element.defaultFlow = some id →
    ∃ flow ∈ net.outgoing element.id, flow.id = some id

/-- Two nets with the same identifiers, among them those of the same start and end events, and with
flows between the same of them. -/
structure Net.WiredAlike (net other : Net) : Prop where
  ids : ∀ id, id ∈ net.elements.map (·.id) ↔ id ∈ other.elements.map (·.id)
  starts : (net.elementsOfKind .startEvent).map (·.id) =
    (other.elementsOfKind .startEvent).map (·.id)
  ends : (net.elementsOfKind .endEvent).map (·.id) = (other.elementsOfKind .endEvent).map (·.id)
  flows : ∀ source target, Leads net.flows source target ↔ Leads other.flows source target

/-- Being wired alike has no direction. -/
theorem Net.WiredAlike.symm {net other : Net} (alike : net.WiredAlike other) :
    other.WiredAlike net where
  ids id := (alike.ids id).symm
  starts := alike.starts.symm
  ends := alike.ends.symm
  flows source target := (alike.flows source target).symm

/-- If one of two nets that are wired alike is sound, so is the other. -/
theorem Net.WiredAlike.sound {net other : Net} (alike : net.WiredAlike other) (sound : net.Sound) :
    other.Sound := by
  obtain ⟨⟨start, oneStart, reached⟩, ⟨finish, oneFinish, closed⟩, known⟩ := sound
  have leads : Leads net.flows = Leads other.flows := by
    funext source target
    exact propext (alike.flows source target)
  -- An element of the other net stands at a place that an element of the first one has.
  have placed : ∀ element ∈ other.elements, ∃ twin ∈ net.elements, twin.id = element.id := by
    intro element member
    exact List.mem_map.mp ((alike.ids element.id).mpr (List.mem_map_of_mem member))
  have starts := alike.starts
  have ends := alike.ends
  rw [oneStart, List.map_singleton, eq_comm, List.map_eq_singleton_iff] at starts
  rw [oneFinish, List.map_singleton, eq_comm, List.map_eq_singleton_iff] at ends
  obtain ⟨event, oneEvent, sameStart⟩ := starts
  obtain ⟨last, oneLast, sameFinish⟩ := ends
  refine ⟨⟨event, oneEvent, ?_⟩, ⟨last, oneLast, ?_⟩, ?_⟩
  · intro element member
    obtain ⟨twin, twinMember, same⟩ := placed element member
    rw [sameStart, ← same, ← leads]
    exact reached twin twinMember
  · intro element member
    obtain ⟨twin, twinMember, same⟩ := placed element member
    rw [sameFinish, ← same, ← leads]
    exact closed twin twinMember
  · intro flow member
    obtain ⟨twin, twinMember, sameSource, sameTarget⟩ :=
      (alike.flows flow.source flow.target).mpr ⟨flow, member, rfl, rfl⟩
    rw [← alike.ids, ← alike.ids, ← sameSource, ← sameTarget]
    exact known twin twinMember

/-- A default that an element has by the kind of its step is a flow out of it: the last one that the
fork numbers. -/
theorem Leaves.default_leaves {net : Net} {element : Element} {branches : Nat} {kind : StepKind}
    (leaves : Leaves net element branches kind) (id : String)
    (default : element.defaultFlow = some id) :
    ∃ flow ∈ net.outgoing element.id, flow.id = some id := by
  cases leaves with
  | once _ _ _ absent =>
    rw [absent] at default
    cases default
  | parallel _ _ absent =>
    rw [absent] at default
    cases default
  | choosing _ _ branched flows last =>
    have numbered : branches ∈ List.range' 1 branches := by
      rw [List.mem_range'_1]
      omega
    have listed := List.mem_map_of_mem numbered
      (f := fun position => (some (branchFlowId element.id position), position == branches))
    rw [← flows] at listed
    obtain ⟨flow, leaving, same⟩ := List.mem_map.mp listed
    refine ⟨flow, leaving, ?_⟩
    rw [← default, last]
    exact congrArg Prod.fst same

/-- The default of an element of a compiled net is a flow out of it. -/
theorem compile_defaults (root : Step) (processId : String) (processName : Option String)
    (net : Net) (accepted : compile root processId processName = .ok net) (element : Element)
    (member : element ∈ net.elements) (id : String) (default : element.defaultFlow = some id) :
    ∃ flow ∈ net.outgoing element.id, flow.id = some id := by
  obtain ⟨elements, whole, all⟩ := compile_leaves root processId processName net accepted
  rw [whole, List.mem_append, List.mem_singleton] at member
  rcases member with inside | rfl
  · obtain ⟨_, _, _, _, _, leaves⟩ := exists_of_forall₂ all.flip element inside
    exact leaves.default_leaves id default
  · cases default

/-- A compiled net leaves no doubt about what its identifiers, keys and defaults mean. -/
theorem compile_unambiguous (root : Step) (processId : String) (processName : Option String)
    (net : Net) (accepted : compile root processId processName = .ok net) : net.Unambiguous where
  elements := compile_elements_nodup root processId processName net accepted
  flows first second bound _ same :=
    position_of_flowKey net (compile_flowKeys_nodup root processId processName net accepted) first
      second bound same
  defaults := compile_defaults root processId processName net accepted

/-- An empty report means that the net is sound, and no more than can be told from its wiring: a net
that is wired alike has an empty report too. The net that a tree is compiled to has an empty report
and leaves no doubt about what its identifiers, keys and defaults mean. -/
theorem Net.emptyReport_exact (net : Net) :
    (net.issues = [] ↔ net.Sound) ∧
    (∀ other : Net, net.WiredAlike other → (net.issues = [] ↔ other.issues = [])) ∧
    ∀ root processId processName, compile root processId processName = .ok net →
      net.issues = [] ∧ net.Unambiguous := by
  refine ⟨issues_eq_nil_iff net, ?alike, ?compiled⟩
  case alike =>
    intro other alike
    rw [issues_eq_nil_iff, issues_eq_nil_iff]
    exact ⟨alike.sound, alike.symm.sound⟩
  case compiled =>
    intro root processId processName accepted
    constructor
    · rw [issues_eq_nil_iff]
      exact sound_of_compiled root processId processName net accepted
    · exact compile_unambiguous root processId processName net accepted

/-- The net that a start event alone is compiled to. -/
def directNet : Net :=
  { id := "p"
    elements := [{ id := "start", kind := .startEvent }, endEvent]
    flows := [{ source := "start", target := endEventId }] }

/-- The same places, one of them with a task on it as well, whose default is nowhere, and joined by
two flows of one name. -/
def blurredNet : Net :=
  { id := "p"
    elements := [
      { id := "start", kind := .startEvent },
      { id := "start", kind := .userTask, defaultFlow := some "missing" },
      endEvent]
    flows := [
      { id := some "flow", source := "start", target := endEventId },
      { id := some "flow", source := "start", target := endEventId }] }

/-- The start event is compiled to its net. -/
theorem compile_startEvent :
    compile (Step.ofType "start" "START_EVENT") "p" none = .ok directNet := by
  have admitted : (Step.ofType "start" "START_EVENT").elements =
      .ok directNet.elements.dropLast := by
    rw [elements_eq_examine _ (by decide) (by decide)]
    rfl
  exact compile_of_elements _ _ admitted "p" none

/-- Nothing that tells the two nets apart is wiring. -/
theorem directNet_wiredAlike : directNet.WiredAlike blurredNet where
  ids id := by simp [directNet, blurredNet]
  starts := by decide
  ends := by decide
  flows source target := by simp [Leads, directNet, blurredNet]

/-- Two nets that are wired alike meet the premises, and the one that is compiled has an empty
report. -/
theorem Net.emptyReport_exact_directNet :
    directNet.WiredAlike blurredNet ∧
      compile (Step.ofType "start" "START_EVENT") "p" none = .ok directNet ∧
      directNet.Unambiguous ∧ blurredNet.issues = [] := by
  obtain ⟨_, alike, compiled⟩ := Net.emptyReport_exact directNet
  obtain ⟨empty, unambiguous⟩ := compiled _ _ _ compile_startEvent
  refine ⟨directNet_wiredAlike, compile_startEvent, unambiguous, ?_⟩
  exact (alike blurredNet directNet_wiredAlike).mp empty

/-- An empty report does not say that identifiers and keys each stand for one thing, nor that a
default is a flow of its element. -/
theorem blurredNet_unreported :
    blurredNet.issues = [] ∧ ¬ (blurredNet.elements.map (·.id)).Nodup ∧
      blurredNet.flowKey? 0 = some "flow" ∧ blurredNet.flowKey? 1 = some "flow" ∧
      (∃ element ∈ blurredNet.elements, element.defaultFlow = some "missing" ∧
        ∀ flow ∈ blurredNet.outgoing element.id, flow.id ≠ some "missing") ∧
      ¬ ∀ net : Net, net.issues = [] → net.Unambiguous := by
  have empty : blurredNet.issues = [] := by
    rw [issues_eq_nil_iff]
    exact directNet_wiredAlike.sound (sound_of_compiled _ _ _ _ compile_startEvent)
  have shared : ¬ (blurredNet.elements.map (·.id)).Nodup := by decide
  refine ⟨empty, shared, by decide, by decide, by decide, ?_⟩
  intro promised
  exact shared (promised blurredNet empty).elements

end Workflow
