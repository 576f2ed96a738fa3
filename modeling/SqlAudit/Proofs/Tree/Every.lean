import SqlAudit.Proofs.Tree.Nesting
/-! Properties of all nodes of a tree, from the root down. -/
namespace SqlAudit

namespace Node

variable {P : Node → Prop}

/-- What a node has if its children have it, all nodes have. -/
theorem induct (step : ∀ node : Node, (∀ child ∈ node.children, P child) → P node) (node : Node) :
    P node := by
  induction size : sizeOf node using Nat.strongRecOn generalizing node with
  | ind n ih =>
      refine step node fun child member => ih (sizeOf child) ?_ child rfl
      cases node with
      | mk kind span value children =>
          have smaller : sizeOf child < sizeOf children := List.sizeOf_lt_of_mem member
          simp only [Node.mk.sizeOf_spec] at size
          omega

mutual

def Every (P : Node → Prop) : Node → Prop
  | ⟨kind, span, value, children⟩ => P ⟨kind, span, value, children⟩ ∧ EveryOf P children

def EveryOf (P : Node → Prop) : List Node → Prop
  | [] => True
  | node :: nodes => node.Every P ∧ EveryOf P nodes

end

theorem everyOf_iff {nodes : List Node} : EveryOf P nodes ↔ ∀ node ∈ nodes, node.Every P := by
  induction nodes with
  | nil => simp [EveryOf]
  | cons node nodes ih => simp [EveryOf, ih]

theorem every_iff {node : Node} :
    node.Every P ↔ P node ∧ ∀ child ∈ node.children, child.Every P := by
  cases node
  rw [Every, everyOf_iff]

/-- The node at a path has what every node has. -/
theorem Every.at? {node part : Node} {path : List Nat} (every : node.Every P)
    (reached : node.at? path = some part) : part.Every P := by
  induction path generalizing node with
  | nil =>
      cases reached
      exact every
  | cons i path ih =>
      obtain ⟨child, found, reached⟩ := at?_cons.mp reached
      exact ih ((every_iff.mp every).2 child (List.mem_of_getElem? found)) reached

theorem Every.mono {Q : Node → Prop} (weaker : ∀ node, P node → Q node)
    (node : Node) (every : node.Every P) : node.Every Q := by
  induction node using Node.induct with
  | step node ih =>
      obtain ⟨here, below⟩ := every_iff.mp every
      refine every_iff.mpr ⟨weaker node here, ?_⟩
      exact fun child member => ih child member (below child member)

theorem Every.here {node : Node} (every : node.Every P) : P node := (every_iff.mp every).1

end Node
end SqlAudit
