import Mathlib.Tactic.Ring
import SqlAudit.Proofs.Grammar.Weights
import SqlAudit.Proofs.Script.Regions
import SqlAudit.Proofs.Script.Schemas
/-!
How deeply statements nest. Each level of nesting makes room for two statements, one within another;
but a level is not entered for the query of a WITH clause nor for the statements in CREATE SCHEMA,
so a way down a tree has as many more as it has such nodes, and these are no more than the
statements.
-/
namespace SqlAudit

namespace Script

variable {size : Nat} {c d : Cursor} {node : Node} {of : NodeKind → Int} {way : List Node}

/-- The statements on a way down a tree. -/
def statementsOn (way : List Node) : Nat := way.countP (·.kind.category = .statement)

def ctesOn (way : List Node) : Nat := way.countP (·.kind = .cte)

def schemasOn (way : List Node) : Nat := way.countP (·.kind = .schemaElements)

theorem way_sum (scale : Scale) (way : List Node) :
    (way.map fun node => scale.of node.kind).sum = scale.statement * statementsOn way +
      scale.cte * ctesOn way + scale.schema * schemasOn way := by
  induction way with
  | nil => simp [statementsOn, ctesOn, schemasOn]
  | cons node way ih =>
      rw [List.map_cons, List.sum_cons, ih]
      simp only [statementsOn, ctesOn, schemasOn, List.countP_cons, Scale.of, decide_eq_true_eq]
      split_ifs <;> push_cast <;> ring

open Grammar in
/-- The limit for statements holds for the tree of a text, with all levels left. -/
theorem read_weight {scale : Scale} {summary : Nonterminal → Sketch Limits} {limit : Int}
    (weighed : Weighed scale summary limit) (possible : 0 ≤ limit) (d : Dialect) (text : String) :
    (read d text).root.weight scale.of ≤ limit + (scale.step * maxDepth : Nat) := by
  have root : scale.of .script = 0 := rfl
  have region : scale.of .unparsed = 0 := rfl
  obtain ⟨ordered, reads⟩ := tokenize_reads d text
  have heaviest : Node.heaviest scale.of (ofTokens text.utf8ByteSize
      (tokenize d text)).root.children ≤ limit + (scale.step * maxDepth : Nat) := by
    refine Node.heaviest_le_iff.mpr ⟨by omega, fun node member => ?_⟩
    rcases reads_mem reads ordered node member with ⟨span, value, rfl⟩ | ⟨c, e, -, start, read⟩
    · rw [Node.leaf, Node.weight, Node.heaviest, region]
      omega
    · have lower : Cursor.Ordered text.utf8ByteSize { c with depth := 0 } := start
      apply read.of_derives
      intro g derives
      exact weighed.derives lower (Nat.zero_le _) derives
  have same : (Script.read d text).root.weight scale.of =
      (ofTokens text.utf8ByteSize (tokenize d text)).root.weight scale.of :=
    weight_nameOptions text.toList _
  have kind : (ofTokens text.utf8ByteSize (tokenize d text)).root.kind = .script := rfl
  rw [same, Node.weight_eq, kind, root]
  omega

end Script

open Script

/-- On the way to any node there are at most two statements for each level of nesting and two more,
but for two for each query of a WITH clause and one for each list of statements in a schema, and
there are no more of these than there are statements. -/
theorem statements_nest (d : Dialect) (text : String) (path : List Nat) (node : Node)
    (reached : (Script.read d text).root.at? path = some node) :
    let way := (Script.read d text).root.wayTo node path
    statementsOn way ≤ 2 * maxDepth + 2 + 2 * ctesOn way + schemasOn way ∧
      ctesOn way + schemasOn way ≤ statementsOn way := by
  intro way
  have nesting := read_weight Scale.nesting_weighed (by decide) d text
  have holders := read_weight Scale.holders_weighed (by decide) d text
  have counted := way_sum .nesting way
  have held := way_sum .holders way
  have most : (way.map fun n => Scale.nesting.of n.kind).sum ≤ 2 + (2 * maxDepth : Nat) :=
    (Node.sum_wayTo_le reached).trans nesting
  have least : (way.map fun n => Scale.holders.of n.kind).sum ≤ 0 + (0 * maxDepth : Nat) :=
    (Node.sum_wayTo_le reached).trans holders
  simp only [Scale.nesting, Scale.holders] at counted held most least
  constructor <;> omega

/-- A query in the WITH clause of another one. -/
theorem query_in_cte_nests : ∃ root node,
    root = (Script.read .postgres "WITH a AS (SELECT 1) SELECT 2").root ∧
      root.at? [0, 0, 0, 0] = some node ∧ statementsOn (root.wayTo node [0, 0, 0, 0]) = 2 ∧
      2 ≤ 2 * maxDepth + 2 + 2 * ctesOn (root.wayTo node [0, 0, 0, 0]) +
        schemasOn (root.wayTo node [0, 0, 0, 0]) ∧
      ctesOn (root.wayTo node [0, 0, 0, 0]) + schemasOn (root.wayTo node [0, 0, 0, 0]) ≤ 2 := by
  have counted : ((Script.read .postgres "WITH a AS (SELECT 1) SELECT 2").root.at?
      [0, 0, 0, 0]).any (fun node => statementsOn
        ((Script.read .postgres "WITH a AS (SELECT 1) SELECT 2").root.wayTo node [0, 0, 0, 0]) =
          2) = true := by decide +kernel
  obtain ⟨node, reached, two⟩ := (Option.any_eq_true ..).mp counted
  have statements := of_decide_eq_true two
  obtain ⟨most, least⟩ := statements_nest .postgres "WITH a AS (SELECT 1) SELECT 2" _ node reached
  rw [statements] at most least
  exact ⟨_, node, rfl, reached, statements, most, least⟩

/-- No number bounds the statements on a way, not even where everything could be read. -/
theorem statements_unbounded : ¬ ∃ bound : Nat, ∀ d text, (Script.read d text).errors = [] →
    ∀ path node, (Script.read d text).root.at? path = some node →
      statementsOn ((Script.read d text).root.wayTo node path) ≤ bound := by
  rintro ⟨bound, bounded⟩
  obtain ⟨errors, deep⟩ := schemas_read .postgres bound
  obtain ⟨path, node, reached, heaviest⟩ :=
    Node.exists_wayTo Scale.tally.of (Script.read .postgres (schemas (bound + 1))).root
  have few := bounded .postgres _ errors path node reached
  rw [← heaviest, way_sum] at deep
  simp only [Scale.tally] at deep
  omega

end SqlAudit
