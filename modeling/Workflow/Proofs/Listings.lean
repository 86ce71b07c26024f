import Workflow.Net.Listing
import Mathlib.Data.List.Nodup
import Mathlib.Data.List.Perm.Basic

/-!
# A listing shows every flow once

The flows of a listing are collected into a table in one pass and taken out of it in another, by
their sources. What the table holds under a source are the flows with this source in their order,
each with its position in the net (`lookup_flowTable`). The second pass comes to every source once,
where it first occurs (`foldl_sources`), so it looks up nothing that the table does not hold, and
leaves nothing behind.
-/

namespace Workflow.Net

/-- The groups are the flows of the net by source: there is one group for every source, in the order
in which the sources first occur among the flows, and a group holds the flows with its source, each
with its position, in ascending order of the positions. -/
structure GroupedAs (net : Net) (groups : List (String × List (Nat × Flow))) : Prop where
  sources : ∀ source, source ∈ groups.map (·.1) ↔ ∃ flow ∈ net.flows, flow.source = source
  order : (groups.map (·.1)).Pairwise fun source later =>
    (net.flows.map (·.source)).idxOf source < (net.flows.map (·.source)).idxOf later
  ascending : ∀ group ∈ groups, group.2.Pairwise fun entry later => entry.1 < later.1
  entries : ∀ group ∈ groups, ∀ position flow,
    (position, flow) ∈ group.2 ↔ net.flows[position]? = some flow ∧ flow.source = group.1

section

variable (groups : List (String × List (Nat × Flow))) (source : String)

/-- One more flow stands behind the others of its source, and no other group changes. -/
theorem lookup_addToGroup (entry : Nat × Flow) :
    (addToGroup entry groups).lookup source =
      if entry.2.source = source then some ((groups.lookup source).getD [] ++ [entry])
      else groups.lookup source := by
  induction groups with
  | nil =>
    by_cases own : entry.2.source = source
    · simp [addToGroup, own]
    · simp [addToGroup, List.lookup_cons, own, beq_false_of_ne (Ne.symm own)]
  | cons group rest inductionHypothesis =>
    obtain ⟨other, held⟩ := group
    by_cases found : source = other
    · subst found
      by_cases own : entry.2.source = source
      · simp [addToGroup, own]
      · simp [addToGroup, own, Ne.symm own]
    · by_cases here : other = entry.2.source
      · have elsewhere : entry.2.source ≠ source := fun same => found (same ▸ here.symm)
        simp [addToGroup, List.lookup_cons, here, elsewhere, beq_false_of_ne (Ne.symm elsewhere)]
      · simp [addToGroup, List.lookup_cons, here, beq_false_of_ne found, inductionHypothesis]

/-- Collecting flows puts those of a source, in their order, behind the ones that are there. -/
theorem getD_lookup_collected (entries : List (Nat × Flow)) :
    ((entries.foldl (fun groups entry => addToGroup entry groups) groups).lookup source).getD [] =
      (groups.lookup source).getD [] ++ entries.filter fun entry => entry.2.source == source := by
  induction entries generalizing groups with
  | nil => simp
  | cons entry rest inductionHypothesis =>
    rw [List.foldl_cons, inductionHypothesis, lookup_addToGroup]
    by_cases own : entry.2.source = source
    · simp [own]
    · simp [own]

/-- After collecting flows there is a group for a source if there was one, or if one of the flows
has the source. -/
theorem isSome_lookup_collected (entries : List (Nat × Flow)) :
    ((entries.foldl (fun groups entry => addToGroup entry groups) groups).lookup source).isSome =
      ((groups.lookup source).isSome || entries.any fun entry => entry.2.source == source) := by
  induction entries generalizing groups with
  | nil => simp
  | cons entry rest inductionHypothesis =>
    rw [List.foldl_cons, inductionHypothesis, lookup_addToGroup]
    by_cases own : entry.2.source = source
    · simp [own]
    · simp [own, beq_false_of_ne own]

end

variable (net : Net)

/-- The flows with their positions. -/
def positioned : List (Nat × Flow) := net.flows.mapIdx fun position flow => (position, flow)

/-- A flow stands with a position exactly if it is the one at the position. -/
theorem mem_positioned_iff (position : Nat) (flow : Flow) :
    (position, flow) ∈ net.positioned ↔ net.flows[position]? = some flow := by
  rw [positioned, List.mem_mapIdx, List.getElem?_eq_some_iff]
  constructor
  · rintro ⟨index, bound, same⟩
    obtain ⟨rfl, rfl⟩ := Prod.mk.inj same
    exact ⟨bound, rfl⟩
  · rintro ⟨bound, rfl⟩
    exact ⟨position, bound, rfl⟩

/-- The positions ascend. -/
theorem positioned_ascending : net.positioned.Pairwise fun entry later => entry.1 < later.1 := by
  rw [List.pairwise_iff_getElem]
  intro first second firstBound secondBound order
  simpa [positioned] using order

/-- Under the source of a flow the table holds the flows with this source. -/
theorem lookup_flowTable (source : String) (occurs : ∃ flow ∈ net.flows, flow.source = source) :
    net.flowTable.lookup source =
      some (net.positioned.filter fun entry => entry.2.source == source) := by
  have held := getD_lookup_collected [] source net.positioned
  have there := isSome_lookup_collected [] source net.positioned
  have listed : net.positioned.any (fun entry => entry.2.source == source) = true := by
    obtain ⟨flow, member, own⟩ := occurs
    obtain ⟨position, found⟩ := List.mem_iff_getElem?.mp member
    exact List.any_eq_true.mpr ⟨_, (net.mem_positioned_iff position flow).mpr found, by simp [own]⟩
  rw [listed, Bool.or_true] at there
  obtain ⟨group, found⟩ := Option.isSome_iff_exists.mp there
  rw [found] at held
  exact found.trans (congrArg some held)

/-- Taking each text once, behind some that were taken before, adds those that were not, in the
order in which they first occur. -/
theorem foldl_sources (ids before : List String) :
    ∃ fresh,
      ids.foldl (fun before id => if before.contains id then before else before ++ [id]) before =
          before ++ fresh ∧
        (∀ id, id ∈ fresh ↔ id ∈ ids ∧ id ∉ before) ∧
        fresh.Pairwise fun id later => ids.idxOf id < ids.idxOf later := by
  induction ids generalizing before with
  | nil => exact ⟨[], by simp, by simp, List.Pairwise.nil⟩
  | cons id rest inductionHypothesis =>
    -- Behind the first text others stand one place further.
    have further (fresh : List String) (others : id ∉ fresh)
        (order : fresh.Pairwise fun id later => rest.idxOf id < rest.idxOf later) :
        fresh.Pairwise fun one later => (id :: rest).idxOf one < (id :: rest).idxOf later := by
      apply order.imp_of_mem
      intro one later first second less
      have firstBehind : id ≠ one := fun same => others (same ▸ first)
      have secondBehind : id ≠ later := fun same => others (same ▸ second)
      rw [List.idxOf_cons_ne rest firstBehind, List.idxOf_cons_ne rest secondBehind]
      exact Nat.succ_lt_succ less
    by_cases known : id ∈ before
    · obtain ⟨fresh, collected, members, order⟩ := inductionHypothesis before
      refine ⟨fresh, ?_, ?_, further fresh ?_ order⟩
      · rw [List.foldl_cons, if_pos (by simpa using known), collected]
      · intro other
        rw [members, List.mem_cons]
        exact ⟨fun ⟨listed, new⟩ => ⟨Or.inr listed, new⟩, fun ⟨listed, new⟩ =>
          ⟨listed.resolve_left fun same => new (same ▸ known), new⟩⟩
      · rw [members]
        exact fun both => both.2 known
    · obtain ⟨fresh, collected, members, order⟩ := inductionHypothesis (before ++ [id])
      have others : id ∉ fresh := by
        rw [members]
        exact fun both => both.2 (by simp)
      refine ⟨id :: fresh, ?_, ?_, List.Pairwise.cons ?_ (further fresh others order)⟩
      · rw [List.foldl_cons, if_neg (by simpa using known), collected, List.append_assoc,
          List.singleton_append]
      · intro other
        rw [List.mem_cons, members, List.mem_cons, List.mem_append, List.mem_singleton, not_or]
        by_cases same : other = id
        · simp [same, known]
        · simp [same]
      · intro later member
        have behind : id ≠ later := fun same => others (same ▸ member)
        rw [List.idxOf_cons_self, List.idxOf_cons_ne rest behind]
        exact Nat.succ_pos _

/-- The sources are those of the flows, in the order in which they first occur. -/
theorem sources_exact :
    (∀ source, source ∈ sources net.flows ↔ ∃ flow ∈ net.flows, flow.source = source) ∧
      (sources net.flows).Pairwise fun source later =>
        (net.flows.map (·.source)).idxOf source < (net.flows.map (·.source)).idxOf later := by
  obtain ⟨fresh, collected, members, order⟩ := foldl_sources (net.flows.map (·.source)) []
  have all : sources net.flows = fresh := collected
  rw [all]
  refine ⟨fun source => ?_, order⟩
  simpa using members source

/-- A group is what the table holds under its source. -/
theorem lookup_of_group (group : String × List (Nat × Flow)) (member : group ∈ net.flowGroups) :
    net.flowTable.lookup group.1 = some group.2 ∧
      group.2 = net.positioned.filter fun entry => entry.2.source == group.1 := by
  obtain ⟨source, listed, rfl⟩ := List.mem_map.mp member
  rw [net.lookup_flowTable source ((net.sources_exact.1 source).mp listed)]
  exact ⟨rfl, rfl⟩

/-- The groups are the flows by source. -/
theorem groupedAs_flowGroups : net.GroupedAs net.flowGroups := by
  obtain ⟨occur, order⟩ := net.sources_exact
  have keys : net.flowGroups.map (·.1) = sources net.flows := by
    simp [flowGroups, Function.comp_def]
  refine ⟨keys ▸ occur, keys ▸ order, ?ascending, ?entries⟩
  case ascending =>
    intro group member
    rw [(net.lookup_of_group group member).2]
    exact net.positioned_ascending.filter _
  case entries =>
    intro group member position flow
    rw [(net.lookup_of_group group member).2, List.mem_filter, mem_positioned_iff, beq_iff_eq]

/-- Entries in ascending order of their positions are distinct. -/
theorem nodup_of_ascending (entries : List (Nat × Flow))
    (ascending : entries.Pairwise fun entry later => entry.1 < later.1) : entries.Nodup := by
  apply ascending.imp
  rintro entry _ less rfl
  exact Nat.lt_irrefl _ less

/-- All groups together hold every flow of the net once. -/
theorem GroupedAs.perm {net : Net} {groups : List (String × List (Nat × Flow))}
    (grouped : net.GroupedAs groups) : (groups.flatMap (·.2)).Perm net.positioned := by
  have distinct : (groups.flatMap (·.2)).Nodup := by
    rw [List.nodup_flatMap]
    constructor
    · exact fun group member => nodup_of_ascending _ (grouped.ascending group member)
    · apply (List.pairwise_map.mp grouped.order).imp_of_mem
      rintro group later first second less ⟨position, flow⟩ here there
      have own := ((grouped.entries group first position flow).mp here).2
      have other := ((grouped.entries later second position flow).mp there).2
      rw [← own, ← other] at less
      exact Nat.lt_irrefl _ less
  rw [List.perm_ext_iff_of_nodup distinct (nodup_of_ascending _ net.positioned_ascending)]
  rintro ⟨position, flow⟩
  rw [List.mem_flatMap, mem_positioned_iff]
  constructor
  · rintro ⟨group, member, listed⟩
    exact ((grouped.entries group member position flow).mp listed).1
  · intro found
    obtain ⟨group, member, own⟩ := List.mem_map.mp
      ((grouped.sources flow.source).mpr ⟨flow, List.mem_of_getElem? found, rfl⟩)
    exact ⟨group, member, (grouped.entries group member position flow).mpr ⟨found, own.symm⟩⟩

/-- The listing of a net has a line for its process, for every element a line and one for each of
its extensions, in their order, then the groups of flows, and a line with both counts. The groups
are the flows by source, so that together they hold every flow once; every look-up in the table
behind them finds its group. A flow is shown with the key of its position in the net, with its
target, and with a mark exactly if it is a default. -/
theorem listing_exact :
    net.listing = String.join
        ((["======== PROCESS: " ++ net.id ++ " (" ++ net.name.getD "unnamed" ++ ") ========", "",
            "--- NODES ---"] ++
          (net.elements.flatMap fun element =>
            elementLine element :: element.extensions.map extensionLine) ++
          ["", "--- FLOWS ---"] ++
          (net.flowGroups.flatMap fun (source, entries) =>
            source :: entries.map fun (position, flow) => "    " ++ net.flowEntry position flow) ++
          ["", "================ " ++ toString net.elements.length ++ " nodes, " ++
            toString net.flows.length ++ " flows ================"]).map (· ++ "\n")) ∧
      net.GroupedAs net.flowGroups ∧
      (net.flowGroups.flatMap (·.2)).Perm (net.flows.mapIdx fun position flow => (position, flow)) ∧
      (∀ group ∈ net.flowGroups, net.flowTable.lookup group.1 = some group.2) ∧
      ∀ group ∈ net.flowGroups, ∀ position flow, (position, flow) ∈ group.2 →
        ∃ key, net.flowKey? position = some key ∧
          net.flowEntry position flow =
            key ++ " -> " ++ flow.target ++ if flow.isDefault then " (default)" else "" := by
  have grouped := net.groupedAs_flowGroups
  refine ⟨rfl, grouped, grouped.perm, fun group member => (net.lookup_of_group group member).1, ?_⟩
  intro group member position flow listed
  have found := ((grouped.entries group member position flow).mp listed).1
  refine ⟨net.keyOf position flow, ?_, ?_⟩
  · rw [flowKey?, found, Option.map_some]
  · rw [flowEntry, flowKey?, found, Option.map_some, Option.getD_some]

end Workflow.Net
