import SqlAudit.Tree.Node
/-!
The walk of a tree, step by step. The nodes still to come stand on a stack with their depths; a step
takes the first of them and puts its parts in its place, one level deeper. The list of a walk is
what such steps take until the stack is empty.
-/
namespace SqlAudit

namespace Node

/-- Nodes of one depth, as they are put on the stack. -/
def pending (depth : Nat) (nodes : List Node) : List (Node × Nat) :=
  nodes.map fun node => (node, depth)

/-- Step by step, all that is on the stack and below it is visited in this order. -/
inductive Visits : List (Node × Nat) → List (Node × Nat) → Prop
  | done : Visits [] []
  | step {node : Node} {depth : Nat} {stack visited : List (Node × Nat)}
      (later : Visits (pending (depth + 1) node.children ++ stack) visited) :
      Visits ((node, depth) :: stack) ((node, depth) :: visited)

variable {visited : List (Node × Nat)}

theorem Visits.unique {stack visited' : List (Node × Nat)} (first : Visits stack visited)
    (second : Visits stack visited') : visited = visited' := by
  induction first generalizing visited' with
  | done =>
      cases second
      rfl
  | step later ih =>
      cases second with
      | step other => rw [ih other]

mutual

theorem walkThen_visits {stack visited : List (Node × Nat)} {depth : Nat}
    (rest : Visits stack visited) :
    ∀ node : Node, Visits ((node, depth) :: stack) (node.walkThen visited depth)
  | ⟨kind, span, value, children⟩ => by
    rw [walkThen]
    apply Visits.step
    exact walkListThen_visits rest children

theorem walkListThen_visits {stack visited : List (Node × Nat)} {depth : Nat}
    (rest : Visits stack visited) :
    ∀ nodes : List Node, Visits (pending depth nodes ++ stack)
      (walkListThen visited depth nodes)
  | [] => rest
  | node :: nodes => by
    rw [walkListThen, pending, List.map_cons, List.cons_append]
    apply walkThen_visits
    exact walkListThen_visits rest nodes

end

/-- A walk visits the nodes in the order of its list, and in no other one. -/
theorem visits_iff_walk (root : Node) : Visits [(root, 0)] visited ↔ visited = root.walk := by
  have walked : Visits [(root, 0)] root.walk := walkThen_visits .done root
  constructor
  · intro other
    exact other.unique walked
  · intro same
    rw [same]
    exact walked

end Node
end SqlAudit
