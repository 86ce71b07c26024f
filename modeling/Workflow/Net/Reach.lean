/-!
# Reachability along edges

An edge leads from one place to another. The search keeps a queue of places and
takes a place's outgoing edges away when it first comes to the place, so every
edge is followed at most once and the search ends on cyclic graphs too. A place
may stand in the queue many times; only the first time adds anything.
-/

namespace Workflow.Reach

variable {α : Type} [DecidableEq α]

/-- The places that a place's edges lead to. -/
def targets (place : α) (edges : List (α × α)) : List α :=
  (edges.filter fun edge => edge.1 = place).map (·.2)

/-- The edges that lead from other places. -/
def without (place : α) (edges : List (α × α)) : List (α × α) :=
  edges.filter fun edge => !decide (edge.1 = place)

/-- Every edge leads either from a place or from another one. -/
theorem length_targets_add_length_without (place : α) (edges : List (α × α)) :
    (targets place edges).length + (without place edges).length = edges.length := by
  induction edges with
  | nil => rfl
  | cons edge rest inductionHypothesis =>
    by_cases here : edge.1 = place <;> simp_all [targets, without] <;> omega

/-- The places found from a queue, given those found before. The edges are the
ones that have not been followed. Each step either shortens the queue or moves
edges into it, so queue and edges together grow shorter. -/
def explore (edges : List (α × α)) : List α → List α → List α
  | [], found => found
  | place :: queue, found =>
      if place ∈ found then explore edges queue found
      else explore (without place edges) (queue ++ targets place edges) (place :: found)
termination_by queue => queue.length + edges.length
decreasing_by
  · simp
  · have parts := length_targets_add_length_without place edges
    simp only [List.length_append, List.length_cons]
    omega

/-- The places that a chain of edges leads to from a root, the root among them. -/
def reachable (edges : List (α × α)) (root : α) : List α := explore edges [root] []

end Workflow.Reach
