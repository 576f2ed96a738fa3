import Mathlib.Algebra.Ring.Int.Defs
import SqlAudit.Proofs.Tree.Every
/-!
Weights of trees. Each kind of node weighs something, perhaps less than nothing, and a tree weighs
as much as the heaviest way down from its root; so no way to one of its nodes weighs more.
-/
namespace SqlAudit

namespace Node

variable {of : NodeKind → Int} {node part : Node} {nodes : List Node} {path : List Nat}

mutual

/-- What a node weighs with the heaviest way down from it. -/
def weight (of : NodeKind → Int) : Node → Int
  | ⟨kind, _, _, children⟩ => of kind + heaviest of children

def heaviest (of : NodeKind → Int) : List Node → Int
  | [] => 0
  | node :: nodes => max (node.weight of) (heaviest of nodes)

end

theorem weight_eq (node : Node) : node.weight of = of node.kind + heaviest of node.children := by
  cases node
  rw [weight]

theorem heaviest_le_iff {limit : Int} :
    heaviest of nodes ≤ limit ↔ 0 ≤ limit ∧ ∀ node ∈ nodes, node.weight of ≤ limit := by
  induction nodes with
  | nil => simp [heaviest]
  | cons node nodes ih =>
      rw [heaviest, Int.max_le, ih, List.forall_mem_cons]
      exact and_left_comm

theorem heaviest_nonneg (nodes : List Node) : 0 ≤ heaviest of nodes :=
  (heaviest_le_iff.mp (Int.le_refl _)).1

theorem le_heaviest (member : node ∈ nodes) : node.weight of ≤ heaviest of nodes :=
  (heaviest_le_iff.mp (Int.le_refl _)).2 node member

/-- The nodes on the way to the one at a path, from the root on. -/
def wayTo (root node : Node) (path : List Nat) : List Node := root.ancestors path ++ [node]

theorem wayTo_cons {i : Nat} {child : Node} (found : node.children[i]? = some child) :
    node.wayTo part (i :: path) = node :: child.wayTo part path := by
  simp [wayTo, ancestors, found]

theorem sum_wayTo_le (reached : node.at? path = some part) :
    ((node.wayTo part path).map fun n => of n.kind).sum ≤ node.weight of := by
  induction path generalizing node with
  | nil =>
      cases reached
      have least : 0 ≤ heaviest of part.children := heaviest_nonneg _
      rw [weight_eq]
      simp only [wayTo, ancestors, List.nil_append, List.map_cons, List.map_nil, List.sum_cons,
        List.sum_nil]
      omega
  | cons i path ih =>
      obtain ⟨child, found, reached⟩ := at?_cons.mp reached
      have below := ih reached
      have among : child.weight of ≤ heaviest of node.children :=
        le_heaviest (List.mem_of_getElem? found)
      rw [wayTo_cons found, List.map_cons, List.sum_cons, weight_eq]
      omega

theorem heaviest_cases (of : NodeKind → Int) (nodes : List Node) :
    heaviest of nodes = 0 ∨ ∃ node ∈ nodes, heaviest of nodes = node.weight of := by
  induction nodes with
  | nil => exact .inl rfl
  | cons node nodes ih =>
      rw [heaviest]
      by_cases lighter : node.weight of ≤ heaviest of nodes
      · rw [Int.max_eq_right lighter]
        exact ih.imp_right fun ⟨other, member, same⟩ => ⟨other, .tail _ member, same⟩
      · rw [Int.max_eq_left (by omega)]
        exact .inr ⟨node, .head _, rfl⟩

/-- Some way weighs as much as the tree. -/
theorem exists_wayTo (of : NodeKind → Int) (root : Node) : ∃ path node,
    root.at? path = some node ∧
      ((root.wayTo node path).map fun n => of n.kind).sum = root.weight of := by
  induction root using Node.induct with
  | step root ih =>
      rcases heaviest_cases of root.children with none | ⟨child, member, same⟩
      · refine ⟨[], root, rfl, ?_⟩
        simp [wayTo, ancestors, weight_eq, none]
      · obtain ⟨path, node, reached, sum⟩ := ih child member
        obtain ⟨i, found⟩ := List.mem_iff_getElem?.mp member
        refine ⟨i :: path, node, at?_cons.mpr ⟨child, found, reached⟩, ?_⟩
        rw [wayTo_cons found, List.map_cons, List.sum_cons, sum, ← same, ← weight_eq]

end Node
end SqlAudit
