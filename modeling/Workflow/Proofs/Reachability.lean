import Workflow.Net.Reach
import Mathlib.Data.List.Basic
import Mathlib.Logic.Relation

/-!
# What the search finds

The search finds the places that a chain of edges leads to from its root, and no
others. It takes the edges out of a place away when it comes to the place, so the
chains it still follows are not those of the whole list of edges. Nothing is lost by
this: a chain that passes the place can be cut behind its last visit there, and what
remains starts at one of the place's targets and never uses the edges taken away.
-/

namespace Workflow.Reach

variable {α : Type} [DecidableEq α]

/-- An edge leads from one place to another. -/
def Linked (edges : List (α × α)) (source target : α) : Prop := (source, target) ∈ edges

/-- A chain of edges, of any length, leads from one place to another. -/
def Chained (edges : List (α × α)) : α → α → Prop := Relation.ReflTransGen (Linked edges)

/-- The targets of a place are those its edges lead to. -/
theorem mem_targets_iff (place target : α) (edges : List (α × α)) :
    target ∈ targets place edges ↔ Linked edges place target := by
  simp [targets, Linked]

/-- Among the edges from other places an edge is linked as it was. -/
theorem linked_without_iff (place source target : α) (edges : List (α × α)) :
    Linked (without place edges) source target ↔ Linked edges source target ∧ source ≠ place := by
  simp [Linked, without]

omit [DecidableEq α] in
/-- A chain from a place without edges stays there. -/
theorem eq_of_chained (edges : List (α × α)) (start place : α)
    (closed : ∀ edge ∈ edges, edge.1 ≠ start) (chain : Chained edges start place) :
    place = start := by
  rcases Relation.ReflTransGen.cases_head chain with same | ⟨next, linked, _⟩
  · exact same.symm
  · exact False.elim (closed (start, next) linked rfl)

/-- A chain of the edges from other places is a chain of all edges. -/
theorem chained_of_without (place start last : α) (edges : List (α × α))
    (chain : Chained (without place edges) start last) : Chained edges start last := by
  refine Relation.ReflTransGen.mono ?_ start last chain
  intro source target linked
  exact ((linked_without_iff place source target edges).mp linked).1

/-- A chain that uses edges from a place ends there, or can be cut behind its last visit
there. -/
theorem chained_cut (place start last : α) (edges : List (α × α))
    (chain : Chained edges start last) :
    Chained (without place edges) start last ∨ last = place ∨
      ∃ target ∈ targets place edges, Chained (without place edges) target last := by
  induction chain with
  | refl => exact Or.inl Relation.ReflTransGen.refl
  | @tail middle last _ linked inductionHypothesis =>
    by_cases here : middle = place
    · subst here
      exact Or.inr (Or.inr ⟨last, (mem_targets_iff middle last edges).mpr linked,
        Relation.ReflTransGen.refl⟩)
    · have kept : Linked (without place edges) middle last :=
        (linked_without_iff place middle last edges).mpr ⟨linked, here⟩
      rcases inductionHypothesis with direct | same | ⟨target, member, behind⟩
      · exact Or.inl (direct.tail kept)
      · exact False.elim (here same)
      · exact Or.inr (Or.inr ⟨target, member, behind.tail kept⟩)

/-- From a queue the search adds the places that the edges left lead to. No edge that is
left starts at a place found before.

Proof: induction along the search. At a place found before, a chain cannot go on. At a
new place, a chain from the queue is one of the edges that remain, ends at the place, or
is cut behind it. -/
theorem mem_explore_iff (edges : List (α × α)) (queue found : List α)
    (exhausted : ∀ edge ∈ edges, edge.1 ∉ found) (place : α) :
    place ∈ explore edges queue found ↔
      place ∈ found ∨ ∃ root ∈ queue, Chained edges root place := by
  induction edges, queue, found using explore.induct with
  | case1 edges found => simp [explore]
  | case2 edges first queue found known inductionHypothesis =>
    have stays (chain : Chained edges first place) : place = first := by
      apply eq_of_chained edges first place _ chain
      intro edge member same
      exact exhausted edge member (same ▸ known)
    rw [explore, if_pos known, inductionHypothesis exhausted, List.exists_mem_cons_iff]
    constructor
    · exact Or.imp_right Or.inr
    · rintro (old | chain | later)
      · exact Or.inl old
      · exact Or.inl (stays chain ▸ known)
      · exact Or.inr later
  | case3 edges first queue found fresh inductionHypothesis =>
    have remaining : ∀ edge ∈ without first edges, edge.1 ∉ first :: found := by
      intro edge member
      obtain ⟨old, other⟩ := (linked_without_iff first edge.1 edge.2 edges).mp member
      rw [List.mem_cons, not_or]
      exact ⟨other, exhausted edge old⟩
    rw [explore, if_neg fresh, inductionHypothesis remaining, List.mem_cons]
    constructor
    · rintro ((rfl | old) | ⟨root, member, chain⟩)
      · exact Or.inr ⟨place, List.mem_cons_self, Relation.ReflTransGen.refl⟩
      · exact Or.inl old
      · have whole := chained_of_without first root place edges chain
        rcases List.mem_append.mp member with queued | target
        · exact Or.inr ⟨root, List.mem_cons_of_mem first queued, whole⟩
        · have linked := (mem_targets_iff first root edges).mp target
          exact Or.inr ⟨first, List.mem_cons_self, whole.head linked⟩
    · rintro (old | ⟨root, member, chain⟩)
      · exact Or.inl (Or.inr old)
      · rcases chained_cut first root place edges chain with direct | same | ⟨target, next, behind⟩
        · rcases List.mem_cons.mp member with rfl | queued
          · have closed : ∀ edge ∈ without root edges, edge.1 ≠ root := by
              intro edge kept same
              exact remaining edge kept (same ▸ List.mem_cons_self)
            exact Or.inl (Or.inl (eq_of_chained _ root place closed direct))
          · exact Or.inr ⟨root, List.mem_append_left _ queued, direct⟩
        · exact Or.inl (Or.inl same)
        · exact Or.inr ⟨target, List.mem_append_right _ next, behind⟩

/-- The search finds exactly the places that a chain of edges leads to from its root, on
cyclic graphs too. -/
theorem mem_reachable_iff (edges : List (α × α)) (root place : α) :
    place ∈ reachable edges root ↔ Chained edges root place := by
  rw [reachable, mem_explore_iff edges [root] [] (fun _ _ => List.not_mem_nil) place]
  simp

end Workflow.Reach
