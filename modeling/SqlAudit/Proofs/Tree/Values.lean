import SqlAudit.Proofs.Tree.Every
/-!
Trees with other values. A rule gives each node a value from its kind and the value it has; kinds,
spans and parts stay as they are.
-/
namespace SqlAudit

namespace Node

mutual

def revalue (rule : NodeKind → Option String → Option String) : Node → Node
  | ⟨kind, span, value, children⟩ => ⟨kind, span, rule kind value, revalueAll rule children⟩

def revalueAll (rule : NodeKind → Option String → Option String) : List Node → List Node
  | [] => []
  | node :: nodes => revalue rule node :: revalueAll rule nodes

end

variable {rule : NodeKind → Option String → Option String}

theorem revalueAll_eq_map (nodes : List Node) :
    revalueAll rule nodes = nodes.map (revalue rule) := by
  induction nodes with
  | nil => rfl
  | cons node nodes ih => rw [revalueAll, ih, List.map_cons]

theorem revalue_eq (node : Node) : node.revalue rule =
    ⟨node.kind, node.span, rule node.kind node.value, node.children.map (revalue rule)⟩ := by
  cases node
  rw [revalue, revalueAll_eq_map]

@[simp] theorem revalue_kind (node : Node) : (node.revalue rule).kind = node.kind := by
  rw [revalue_eq]

@[simp] theorem revalue_span (node : Node) : (node.revalue rule).span = node.span := by
  rw [revalue_eq]

@[simp] theorem revalue_value (node : Node) :
    (node.revalue rule).value = rule node.kind node.value := by
  rw [revalue_eq]

@[simp] theorem revalue_children (node : Node) :
    (node.revalue rule).children = node.children.map (revalue rule) := by
  rw [revalue_eq]

/-- Values given one after another. -/
theorem revalue_revalue (first second : NodeKind → Option String → Option String) (node : Node) :
    (node.revalue first).revalue second =
      node.revalue fun kind value => second kind (first kind value) := by
  induction node using Node.induct with
  | step node ih =>
      rw [revalue_eq node, revalue_eq node, revalue_eq, List.map_map]
      refine congrArg _ (List.map_congr_left fun child member => ?_)
      exact ih child member

end Node
end SqlAudit
