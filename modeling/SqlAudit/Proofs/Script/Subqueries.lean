import SqlAudit.Proofs.Grammar.Origin
import SqlAudit.Proofs.Script.Regions
/-!
What queries cannot hold. A query leads only to expressions, to joined tables and to other queries,
and none of these has a statement that creates something, nor an option of a routine.
-/
namespace SqlAudit

namespace Grammar

/-- Kinds of nodes that stand in statements only. -/
def statementKinds : List NodeKind := [.createTable, .routineOption]

theorem lacks_expressionFrom (power : Nat) :
    lacks statementKinds (expressionFrom power) = lacks statementKinds (expressionFrom 0) := rfl

theorem rules_lack (name : Nonterminal) (inQuery : name.inQuery = true) :
    lacks statementKinds (rules name) = true := by
  cases name with
  | expression power =>
      rw [rules, lacks_expressionFrom]
      decide +kernel
  | query => decide +kernel
  | joinedTable => decide +kernel
  | group => decide +kernel
  | createStatement => cases inQuery
  | atomicBody => cases inQuery

theorem onlyBy_subquery_expressionFrom (power : Nat) :
    onlyBy .subquery (lacks statementKinds) (expressionFrom power) =
      onlyBy .subquery (lacks statementKinds) (expressionFrom 0) := rfl

theorem rules_subquery (name : Nonterminal) :
    onlyBy .subquery (lacks statementKinds) (rules name) = true := by
  cases name with
  | expression power =>
      rw [rules, onlyBy_subquery_expressionFrom]
      decide +kernel
  | query => decide +kernel
  | joinedTable => decide +kernel
  | createStatement => decide +kernel
  | group => decide +kernel
  | atomicBody => decide +kernel

theorem statement_subquery : onlyBy .subquery (lacks statementKinds) statement = true := by
  decide +kernel

end Grammar

/-- No node below it is of a kind that stands in statements only. -/
def Node.IsQueryOnly (node : Node) : Prop :=
  ∀ child ∈ node.children, child.Every (·.kind ∉ Grammar.statementKinds)

namespace Script

variable {size : Nat} {c d : Cursor} {node : Node}

theorem Statement.subqueries (read : Statement size c node d) (ordered : c.Ordered size) :
    node.Every fun part => part.kind = .subquery → part.IsQueryOnly := by
  apply read.of_derives
  intro g derives part member
  have readBy := Grammar.derives_readBy Grammar.rules_subquery derives Grammar.statement_subquery
    (List.suffix_refl _) ordered (all_opened _ none c) part member
  refine Node.Every.mono (fun part origin same => ?_) part readBy
  obtain ⟨body, b, e, lack, -, -, -, f, inner, closed⟩ := origin same
  intro child below
  rw [closed] at below
  exact Grammar.derives_lacks Grammar.rules_lack inner lack (all_opened _ _ b) child
    (List.mem_reverse.mp below)

theorem nameOptions_isQueryOnly (text : List Char) (only : node.IsQueryOnly) :
    (nameOptions text node).IsQueryOnly := by
  intro child member
  rw [nameOptions_children] at member
  obtain ⟨original, inside, rfl⟩ := List.mem_map.mp member
  refine every_nameOptions text ?_ original (only original inside)
  intro part other
  rwa [nameOptions_kind]

/-- Within a subquery of a text stands nothing but queries. -/
theorem read_subqueries (d : Dialect) (text : String) :
    (read d text).root.Every fun node => node.kind = .subquery → node.IsQueryOnly := by
  refine Node.every_iff.mpr ⟨nofun, fun node member => ?_⟩
  rcases read_statement d text node member with
    ⟨span, value, rfl⟩ | ⟨original, c, e, rfl, -, start, read⟩
  · exact ⟨nofun, trivial⟩
  · refine every_nameOptions text.toList ?_ original (read.subqueries start)
    intro part only same
    rw [nameOptions_kind] at same
    exact nameOptions_isQueryOnly text.toList (only same)

end Script
end SqlAudit
