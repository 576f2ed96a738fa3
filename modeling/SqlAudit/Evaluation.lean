import SqlAudit.Catalog.Basic
import SqlAudit.Finding
/-!
Rules applied to a tree. Every node is visited before its parts, with the path from the root to it
at hand; every rule for its kind is tried, and one that fails is reported and stops no other.
-/
namespace SqlAudit.Evaluation

/-- The name under which regions that could not be read are reported. -/
def unparsedRule : String := "unparsed-region"

/-- The unit that is evaluated. -/
structure Context where
  catalog : Catalog
  unitId : String
  lines : LineIndex

/-- What a rule says about a node. -/
def applyRule (context : Context) (ancestors : List Node) (node : Node) (rule : Rule) :
    Option Finding :=
  let finding := Finding.locate context.lines context.unitId rule.id
  match rule.check.evaluate node ancestors with
  | .ok none => none
  | .ok (some found) =>
    some (finding rule.severity (Rule.render rule.message node.value node.kind found.detail)
      node.span)
  | .error fault => some (finding .info ("Rule evaluation failed: " ++ fault.message) node.span)

def unparsedFinding (context : Context) (node : Node) : Finding :=
  .locate context.lines context.unitId unparsedRule .blocker
    ("Statement could not be parsed: " ++ node.value.getD "syntax error") node.span

/-- What there is to say about a node itself. -/
def nodeFindings (context : Context) (ancestors : List Node) (node : Node) : List Finding :=
  if node.kind = .unparsed then [unparsedFinding context node]
  else (context.catalog.rulesFor node.kind).filterMap (applyRule context ancestors node)

/-- The findings of nodes listed with their depths; `path` leads from the root to the node before,
and its first `depth` nodes are the ancestors of the next one. -/
def alongWalk (context : Context) (path : List Node) : List (Node × Nat) → List Finding
  | [] => []
  | (node, depth) :: rest =>
    let ancestors := path.take depth
    nodeFindings context ancestors node ++ alongWalk context (ancestors ++ [node]) rest

/-- All findings of a tree, in the order of the visit. -/
def evaluate (context : Context) (root : Node) : List Finding := alongWalk context [] root.walk

end SqlAudit.Evaluation
