import SqlAudit.Tree.Node
/-!
The shape that the spans of a tree have to have: parts lie within the whole, in the order of the
text, and do not overlap.
-/
namespace SqlAudit

inductive ShapeError where
  | childOutsideParent (parent : NodeKind) (parentSpan : Span) (child : NodeKind) (childSpan : Span)
  | siblingOrder (first : NodeKind) (firstSpan : Span) (second : NodeKind) (secondSpan : Span)
  | findingOutsideRoot (ruleId : String) (span root : Span)
  deriving DecidableEq, Repr

def ShapeError.message : ShapeError → String
  | .childOutsideParent parent parentSpan child childSpan =>
    child.name ++ " at " ++ childSpan.render ++ " lies outside its parent " ++ parent.name ++
      " at " ++ parentSpan.render
  | .siblingOrder first firstSpan second secondSpan =>
    second.name ++ " at " ++ secondSpan.render ++ " overlaps or precedes its sibling " ++
      first.name ++ " at " ++ firstSpan.render
  | .findingOutsideRoot ruleId span root =>
    "Finding '" ++ ruleId ++ "' at " ++ span.render ++ " lies outside the unit span " ++ root.render

namespace Node

/-- The first child that lies outside its parent. -/
def strayChild? (node : Node) : Option ShapeError :=
  (node.children.find? fun child => !node.span.contains child.span).map fun child =>
    .childOutsideParent node.kind node.span child.kind child.span

/-- The first two neighbours of which the second starts before the first has ended. -/
def clash? : List Node → Option ShapeError
  | first :: second :: rest =>
    if second.span.start < first.span.stop then
      some (.siblingOrder first.kind first.span second.kind second.span)
    else clash? (second :: rest)
  | _ => none

/-- The first fault of a tree, going through its nodes from the root on. -/
def shapeError? (root : Node) : Option ShapeError :=
  root.walk.findSome? fun (node, _) => node.strayChild? <|> clash? node.children

end Node
end SqlAudit
