import SqlAudit.Text.Span
import SqlAudit.Tree.Kind
/-!
Trees of constructs. A node has a kind, the span it was read from, sometimes a value (a name, the
text of a literal, an operator), and its parts in the order of the text.
-/
namespace SqlAudit

structure Node where
  kind : NodeKind
  span : Span
  value : Option String
  children : List Node
  deriving Repr

namespace Node

def leaf (kind : NodeKind) (span : Span) (value : Option String) : Node := ⟨kind, span, value, []⟩

/-- The root of a text of `bytes` bytes in which nothing was found. -/
def emptyScript (bytes : Nat) : Node := leaf .script ⟨0, bytes⟩ none

def child? (node : Node) (kind : NodeKind) : Option Node :=
  node.children.find? fun child => child.kind = kind

def childrenOf (node : Node) (kind : NodeKind) : List Node :=
  node.children.filter fun child => child.kind = kind

def hasChild (node : Node) (kind : NodeKind) : Bool :=
  node.children.any fun child => child.kind = kind

mutual

/-- The node and all below it, each before its parts, with their depths; then `rest`. -/
def walkThen (rest : List (Node × Nat)) (depth : Nat) : Node → List (Node × Nat)
  | ⟨kind, span, value, children⟩ =>
    (⟨kind, span, value, children⟩, depth) :: walkListThen rest (depth + 1) children

def walkListThen (rest : List (Node × Nat)) (depth : Nat) : List Node → List (Node × Nat)
  | [] => rest
  | node :: nodes => walkThen (walkListThen rest depth nodes) depth node

end

def walk (node : Node) : List (Node × Nat) := walkThen [] 0 node

def size (node : Node) : Nat := node.walk.length

/-- Some part of the text could not be read. -/
def hasUnparsed (node : Node) : Bool := node.walk.any fun (n, _) => n.kind = .unparsed

/-- The node that a path of child places leads to. -/
def at? (node : Node) : List Nat → Option Node
  | [] => some node
  | i :: path =>
    match node.children[i]? with
    | some child => child.at? path
    | none => none

/-- The nodes on a path before its last one, the root first. -/
def ancestors (node : Node) : List Nat → List Node
  | [] => []
  | i :: path =>
    match node.children[i]? with
    | some child => node :: child.ancestors path
    | none => []

/-- The tree with `f` applied to the node at a path. -/
def modifyAt (f : Node → Node) : List Nat → Node → Node
  | [], node => f node
  | i :: path, node => { node with children := node.children.modify i (modifyAt f path) }

def push (child node : Node) : Node := { node with children := node.children ++ [child] }

end Node
end SqlAudit
