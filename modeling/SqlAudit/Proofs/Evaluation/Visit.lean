import SqlAudit.Evaluation
import SqlAudit.Proofs.Catalog.Index
import SqlAudit.Proofs.Tree.Every
/-!
Evaluation, node by node. The list of a walk and the path that is kept along it come to the same as
a visit that goes down the tree and hands each part the nodes above it, so a finding is one about
the node that some path leads to, made with the ancestors on that path.
-/
namespace SqlAudit

namespace Evaluation

variable {context : Context}

theorem applyRule_about {ancestors : List Node} {node : Node} {rule : Rule} {finding : Finding}
    (applied : applyRule context ancestors node rule = some finding) :
    finding.ruleId = rule.id ∧ finding.span = node.span ∧ finding.unitId = context.unitId := by
  unfold applyRule at applied
  dsimp only at applied
  split at applied
  · cases applied
  · cases applied
    exact ⟨rfl, rfl, rfl⟩
  · cases applied
    exact ⟨rfl, rfl, rfl⟩

/-- A rule that matches or fails makes a finding. -/
theorem applyRule_some {ancestors : List Node} {node : Node} {rule : Rule}
    (counts : rule.check.evaluate node ancestors ≠ .ok none) :
    ∃ finding, applyRule context ancestors node rule = some finding := by
  unfold applyRule
  split
  · contradiction
  · exact ⟨_, rfl⟩
  · exact ⟨_, rfl⟩

/-- A finding about a node is the one for regions, or comes of a rule for its kind. -/
theorem mem_nodeFindings_cases {ancestors : List Node} {node : Node} {finding : Finding}
    (member : finding ∈ nodeFindings context ancestors node) :
    (node.kind = .unparsed ∧ finding = unparsedFinding context node) ∨
      (node.kind ≠ .unparsed ∧ ∃ rule ∈ context.catalog.rules, rule.target = node.kind ∧
        applyRule context ancestors node rule = some finding) := by
  unfold nodeFindings at member
  split at member
  · exact .inl ⟨‹_›, List.mem_singleton.mp member⟩
  · obtain ⟨rule, listed, applied⟩ := List.mem_filterMap.mp member
    obtain ⟨inside, target⟩ := Catalog.mem_rulesFor.mp listed
    exact .inr ⟨‹_›, rule, inside, target, applied⟩

theorem mem_nodeFindings_of_rule {ancestors : List Node} {node : Node} {rule : Rule}
    {finding : Finding} (listed : rule ∈ context.catalog.rules)
    (parsed : node.kind ≠ .unparsed) (target : rule.target = node.kind)
    (applied : applyRule context ancestors node rule = some finding) :
    finding ∈ nodeFindings context ancestors node := by
  rw [nodeFindings, if_neg parsed]
  exact List.mem_filterMap.mpr ⟨rule, Catalog.mem_rulesFor.mpr ⟨listed, target⟩, applied⟩

theorem mem_nodeFindings_about {ancestors : List Node} {node : Node} {finding : Finding}
    (member : finding ∈ nodeFindings context ancestors node) :
    finding.span = node.span ∧ finding.unitId = context.unitId := by
  rcases mem_nodeFindings_cases member with ⟨-, rfl⟩ | ⟨-, rule, -, -, applied⟩
  · exact ⟨rfl, rfl⟩
  · exact (applyRule_about applied).2

mutual

/-- The findings of a node and of all nodes below it. -/
def visit (context : Context) (ancestors : List Node) : Node → List Finding
  | ⟨kind, span, value, children⟩ =>
    nodeFindings context ancestors ⟨kind, span, value, children⟩ ++
      visitAll context (ancestors ++ [⟨kind, span, value, children⟩]) children

def visitAll (context : Context) (ancestors : List Node) : List Node → List Finding
  | [] => []
  | node :: nodes => visit context ancestors node ++ visitAll context ancestors nodes

end

theorem visit_eq (ancestors : List Node) (node : Node) :
    visit context ancestors node =
      nodeFindings context ancestors node ++
        visitAll context (ancestors ++ [node]) node.children := by
  cases node
  rw [visit]

theorem visitAll_eq_flatMap (ancestors nodes : List Node) :
    visitAll context ancestors nodes = nodes.flatMap (visit context ancestors) := by
  induction nodes with
  | nil => rfl
  | cons node nodes ih => rw [visitAll, ih, List.flatMap_cons]

mutual

/-- What comes after a node in a walk only needs the path down to the depth of that node. -/
theorem alongWalk_walkThen {rest : List (Node × Nat)} {path above : List Node}
    {after : List Finding} (reached : path.take above.length = above)
    (others : ∀ path, path.take above.length = above → alongWalk context path rest = after) :
    ∀ node : Node, alongWalk context path (node.walkThen rest above.length) =
      visit context above node ++ after
  | ⟨kind, span, value, children⟩ => by
    rw [Node.walkThen, alongWalk, reached, visit, List.append_assoc]
    congr 1
    have below : (above ++ [(⟨kind, span, value, children⟩ : Node)]).length = above.length + 1 := by
      simp
    rw [← below]
    apply alongWalk_walkListThen (List.take_length ..)
    intro path deeper
    apply others path
    have shorter := congrArg (List.take above.length) deeper
    rwa [List.take_take, below, min_eq_left (Nat.le_succ _), List.take_left] at shorter

theorem alongWalk_walkListThen {rest : List (Node × Nat)} {path above : List Node}
    {after : List Finding} (reached : path.take above.length = above)
    (others : ∀ path, path.take above.length = above → alongWalk context path rest = after) :
    ∀ nodes : List Node, alongWalk context path (Node.walkListThen rest above.length nodes) =
      visitAll context above nodes ++ after
  | [] => others path reached
  | node :: nodes => by
    rw [Node.walkListThen, visitAll, List.append_assoc]
    apply alongWalk_walkThen reached
    intro path deeper
    exact alongWalk_walkListThen deeper others nodes

end

theorem evaluate_eq_visit (root : Node) : evaluate context root = visit context [] root := by
  have walked : alongWalk context [] (root.walkThen [] ([] : List Node).length) =
      visit context [] root ++ [] :=
    alongWalk_walkThen rfl (fun _ _ => rfl) root
  rwa [List.append_nil] at walked

mutual

theorem exists_path_of_visit {finding : Finding} {above : List Node} :
    ∀ node : Node, finding ∈ visit context above node → ∃ path part, node.at? path = some part ∧
      finding ∈ nodeFindings context (above ++ node.ancestors path) part
  | ⟨kind, span, value, children⟩ => by
    intro member
    rw [visit, List.mem_append] at member
    rcases member with here | below
    · exact ⟨[], _, rfl, by rwa [Node.ancestors, List.append_nil]⟩
    · obtain ⟨i, child, found, path, part, reached, about⟩ := exists_path_of_visitAll children below
      refine ⟨i :: path, part, Node.at?_cons.mpr ⟨child, found, reached⟩, ?_⟩
      · rw [Node.ancestors, found]
        rwa [List.append_assoc] at about

theorem exists_path_of_visitAll {finding : Finding} {above : List Node} :
    ∀ nodes : List Node, finding ∈ visitAll context above nodes →
      ∃ (i : Nat) (child : Node), nodes[i]? = some child ∧
        ∃ path part, child.at? path = some part ∧
          finding ∈ nodeFindings context (above ++ child.ancestors path) part
  | [] => by simp [visitAll]
  | node :: nodes => by
    intro member
    rw [visitAll, List.mem_append] at member
    rcases member with here | later
    · exact ⟨0, node, rfl, exists_path_of_visit node here⟩
    · obtain ⟨i, child, found, below⟩ := exists_path_of_visitAll nodes later
      exact ⟨i + 1, child, found, below⟩

end

theorem mem_visit_of_path {finding : Finding} {above : List Node} {path : List Nat}
    {node part : Node} (reached : node.at? path = some part)
    (about : finding ∈ nodeFindings context (above ++ node.ancestors path) part) :
    finding ∈ visit context above node := by
  induction path generalizing node above with
  | nil =>
      cases reached
      rw [visit_eq, List.mem_append]
      rw [Node.ancestors, List.append_nil] at about
      exact .inl about
  | cons i path ih =>
      obtain ⟨child, found, reached⟩ := Node.at?_cons.mp reached
      rw [Node.ancestors, found] at about
      rw [visit_eq, visitAll_eq_flatMap, List.mem_append, List.mem_flatMap]
      refine .inr ⟨child, List.mem_of_getElem? found, ih reached ?_⟩
      rwa [List.append_assoc]

/-- A finding of a tree is one about the node at some path. -/
theorem mem_evaluate {finding : Finding} {root : Node} :
    finding ∈ evaluate context root ↔ ∃ path node, root.at? path = some node ∧
      finding ∈ nodeFindings context (root.ancestors path) node := by
  rw [evaluate_eq_visit]
  constructor
  · intro member
    exact exists_path_of_visit root member
  · rintro ⟨path, node, reached, about⟩
    apply mem_visit_of_path reached
    rwa [List.nil_append]

end Evaluation
end SqlAudit
