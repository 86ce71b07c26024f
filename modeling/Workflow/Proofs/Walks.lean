import Workflow.Net.Basic
import Mathlib.Data.List.Flatten
import Mathlib.Data.List.Forall2
import Mathlib.Data.List.Nodup

/-!
# Walks along flows

A walk follows flows from one identifier to another and is recorded by the positions of
the flows it uses. Two flows between the same elements give two walks, though both pass
the same identifiers. `Tally` counts with such multiplicities: it lists what can be read
from chosen things, taking each of them once.

The walks from an identifier other than their last one are told apart by their first
flow. `tally_walks` puts them together from the walks that go on from the targets of the
flows that start there.
-/

namespace Workflow

/-- The values are those read from the chosen items, each item being taken once. A value
that several items share is listed once for each of them. -/
def Tally {α β : Type} (chosen : α → Prop) (read : α → β) (values : List β) : Prop :=
  ∃ items : List α, items.Nodup ∧ (∀ item, item ∈ items ↔ chosen item) ∧ items.map read = values

section

variable {α β : Type} (chosen other : α → Prop) (read : α → β) (values : List β)

/-- Where no item is chosen there are no values. -/
theorem tally_nil (empty : ∀ item, ¬ chosen item) : Tally chosen read [] :=
  ⟨[], List.nodup_nil, fun item => by simp [empty item], rfl⟩

/-- A single item has a single value. -/
theorem tally_singleton (only : α) (unique : ∀ item, chosen item ↔ item = only) :
    Tally chosen read [read only] :=
  ⟨[only], List.nodup_singleton only, fun item => by simp [unique item], rfl⟩

/-- Only which items are chosen matters. -/
theorem tally_congr (same : ∀ item, chosen item ↔ other item) (tally : Tally chosen read values) :
    Tally other read values := by
  obtain ⟨items, distinct, complete, listed⟩ := tally
  exact ⟨items, distinct, fun item => (complete item).trans (same item), listed⟩

/-- Two choices without a common item have together the values of both. -/
theorem tally_append (more : List β) (apart : ∀ item, chosen item → ¬ other item)
    (first : Tally chosen read values) (second : Tally other read more) :
    Tally (fun item => chosen item ∨ other item) read (values ++ more) := by
  obtain ⟨items, distinct, complete, rfl⟩ := first
  obtain ⟨others, distinctOthers, completeOthers, rfl⟩ := second
  refine ⟨items ++ others, ?_, ?_, List.map_append⟩
  · rw [List.nodup_append]
    refine ⟨distinct, distinctOthers, ?_⟩
    rintro item member _ twice rfl
    exact apart item ((complete item).mp member) ((completeOthers item).mp twice)
  · intro item
    rw [List.mem_append, complete, completeOthers]

/-- Items that are made from others without making one twice have as their values what is
made of the others' values. -/
theorem tally_image {γ δ : Type} (make : α → γ) (injective : Function.Injective make)
    (readMade : γ → δ) (onward : β → δ) (reads : ∀ item, readMade (make item) = onward (read item))
    (tally : Tally chosen read values) :
    Tally (fun made => ∃ item, chosen item ∧ made = make item) readMade (values.map onward) := by
  obtain ⟨items, distinct, complete, rfl⟩ := tally
  refine ⟨items.map make, distinct.map injective, ?_, ?_⟩
  · intro made
    simp only [List.mem_map, complete, eq_comm]
  · simp only [List.map_map, Function.comp_def, reads]

end

/-- A walk from an identifier to the last one, given by the positions of its flows. -/
inductive Walk (flows : List Flow) (last : String) : String → List Nat → Prop
  | done : Walk flows last last []
  | along (position : Nat) (flow : Flow) (rest : List Nat)
      (stands : flows[position]? = some flow) (onward : Walk flows last flow.target rest) :
      Walk flows last flow.source (position :: rest)

/-- The identifiers that a walk passes: where it starts, and the targets of its flows. -/
def stops (flows : List Flow) (start : String) (walk : List Nat) : List String :=
  start :: walk.filterMap fun position => flows[position]?.map (·.target)

/-- A walk along a flow passes its start and what the rest of the walk passes. -/
theorem stops_cons (flows : List Flow) (start : String) (position : Nat) (flow : Flow)
    (rest : List Nat) (stands : flows[position]? = some flow) :
    stops flows start (position :: rest) = start :: stops flows flow.target rest := by
  simp [stops, stands]

/-- A walk from another identifier than its last one begins with a flow. -/
theorem walk_iff (flows : List Flow) (last start : String) (other : start ≠ last)
    (walk : List Nat) :
    Walk flows last start walk ↔
      ∃ entry ∈ flows.zipIdx.filter (fun entry => entry.1.source == start),
        ∃ rest, Walk flows last entry.1.target rest ∧ walk = entry.2 :: rest := by
  constructor
  · intro walked
    cases walked with
    | done => exact False.elim (other rfl)
    | along position flow rest stands onward =>
      refine ⟨(flow, position), List.mem_filter.mpr ⟨?_, by simp⟩, rest, onward, rfl⟩
      exact List.mk_mem_zipIdx_iff_getElem?.mpr stands
  · rintro ⟨⟨flow, position⟩, member, rest, onward, rfl⟩
    obtain ⟨listed, starts⟩ := List.mem_filter.mp member
    have stands : flows[position]? = some flow := List.mk_mem_zipIdx_iff_getElem?.mp listed
    obtain rfl : flow.source = start := eq_of_beq starts
    exact Walk.along position flow rest stands onward

/-- No walk goes on from its last identifier if no flow starts there. -/
theorem tally_last (flows : List Flow) (last : String) (final : ∀ flow ∈ flows, flow.source ≠ last) :
    Tally (Walk flows last last) (stops flows last) [[last]] := by
  refine tally_singleton _ _ [] fun walk => ?_
  constructor
  · intro walked
    cases walked with
    | done => rfl
    | along position flow rest stands => exact False.elim (final flow (List.mem_of_getElem? stands) rfl)
  · rintro rfl
    exact Walk.done

/-- The walks that begin with one of some flows at different positions are those that go
on from the flows' targets, one list of them behind the other. -/
theorem tally_entries (flows : List Flow) (last start : String) (entries : List (Flow × Nat))
    (listed : ∀ entry ∈ entries, entry ∈ flows.zipIdx) (distinct : (entries.map (·.2)).Nodup)
    (values : List (List (List String)))
    (onward : List.Forall₂ (fun entry passed =>
      Tally (Walk flows last entry.1.target) (stops flows entry.1.target) passed) entries values) :
    Tally
      (fun walk => ∃ entry ∈ entries, ∃ rest,
        Walk flows last entry.1.target rest ∧ walk = entry.2 :: rest)
      (stops flows start) (values.flatten.map (start :: ·)) := by
  induction onward with
  | nil => exact tally_nil _ _ (by simp)
  | @cons entry passed entries values here _ inductionHypothesis =>
    obtain ⟨first, others⟩ := List.forall_mem_cons.mp listed
    rw [List.map_cons, List.nodup_cons] at distinct
    have stands : flows[entry.2]? = some entry.1 := List.mk_mem_zipIdx_iff_getElem?.mp first
    have along := tally_image _ _ _ (fun rest => entry.2 :: rest) (List.cons_injective)
      (stops flows start) (start :: ·)
      (fun rest => stops_cons flows start entry.2 entry.1 rest stands) here
    have apart (walk : List Nat)
        (here : ∃ rest, Walk flows last entry.1.target rest ∧ walk = entry.2 :: rest) :
        ¬ ∃ entry ∈ entries, ∃ rest,
          Walk flows last entry.1.target rest ∧ walk = entry.2 :: rest := by
      rintro ⟨later, member, rest, _, same⟩
      obtain ⟨_, _, begins⟩ := here
      have position : entry.2 = later.2 := (List.cons.inj (begins.symm.trans same)).1
      exact distinct.1 (position ▸ List.mem_map_of_mem member)
    rw [List.flatten_cons, List.map_append]
    refine tally_congr _ _ _ _ (fun walk => ?_)
      (tally_append _ _ _ _ _ apart along (inductionHypothesis others distinct.2))
    rw [List.exists_mem_cons_iff]

/-- The walks from an identifier other than the last one, put together from those that go
on from the targets of the flows that start there. -/
theorem tally_walks (flows : List Flow) (last start : String) (other : start ≠ last)
    (values : List (List (List String)))
    (onward : List.Forall₂ (fun flow passed =>
        Tally (Walk flows last flow.target) (stops flows flow.target) passed)
      (flows.filter fun flow => flow.source == start) values) :
    Tally (Walk flows last start) (stops flows start) (values.flatten.map (start :: ·)) := by
  have sublist : (flows.zipIdx.filter (fun entry => entry.1.source == start)).Sublist
      flows.zipIdx := List.filter_sublist
  have positions : (flows.zipIdx.map (·.2)).Nodup := by
    rw [List.zipIdx_map_snd]
    exact List.nodup_range'
  have starting : (flows.zipIdx.filter fun entry => entry.1.source == start).map (·.1) =
      flows.filter fun flow => flow.source == start := by
    conv_rhs => rw [← List.zipIdx_map_fst 0 flows, List.filter_map]
    rfl
  rw [← starting, List.forall₂_map_left_iff] at onward
  refine tally_congr _ _ _ _ (fun walk => (walk_iff flows last start other walk).symm) ?_
  exact tally_entries flows last start _ (fun entry member => sublist.subset member)
    (positions.sublist (sublist.map _)) values onward

end Workflow
