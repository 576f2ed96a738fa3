import SqlAudit.SyntaxError
import SqlAudit.Tree.Node
/-!
Trees, tokens and errors at other places of a text. `place` says where each place goes; shifting
by some bytes is the case that matters for a text that has others in front.
-/
namespace SqlAudit

def Span.relocate (place : Nat → Nat) (a : Span) : Span := ⟨place a.start, place a.stop⟩

def Token.relocate (place : Nat → Nat) (token : Token) : Token :=
  { token with span := token.span.relocate place }

def SyntaxError.relocate (place : Nat → Nat) (error : SyntaxError) : SyntaxError :=
  { error with span := error.span.relocate place }

namespace Node

mutual

def relocate (place : Nat → Nat) : Node → Node
  | ⟨kind, span, value, children⟩ =>
    ⟨kind, span.relocate place, value, relocateAll place children⟩

def relocateAll (place : Nat → Nat) : List Node → List Node
  | [] => []
  | node :: nodes => relocate place node :: relocateAll place nodes

end

variable {place : Nat → Nat}

theorem relocateAll_eq_map (nodes : List Node) :
    relocateAll place nodes = nodes.map (relocate place) := by
  induction nodes with
  | nil => rfl
  | cons node nodes ih => rw [relocateAll, ih, List.map_cons]

@[simp] theorem relocate_kind (node : Node) : (node.relocate place).kind = node.kind := by
  cases node
  rfl

@[simp] theorem relocate_span (node : Node) :
    (node.relocate place).span = node.span.relocate place := by
  cases node
  rfl

@[simp] theorem relocate_value (node : Node) : (node.relocate place).value = node.value := by
  cases node
  rfl

@[simp] theorem relocate_children (node : Node) :
    (node.relocate place).children = node.children.map (relocate place) := by
  cases node
  exact relocateAll_eq_map _

mutual

/-- Where everything stays, nothing changes. -/
theorem relocate_id : ∀ node : Node, node.relocate id = node
  | ⟨_, _, _, children⟩ => congrArg _ (relocateAll_id children)

theorem relocateAll_id : ∀ nodes : List Node, relocateAll id nodes = nodes
  | [] => rfl
  | node :: nodes => by rw [relocateAll, relocate_id node, relocateAll_id nodes]

end

mutual

theorem relocate_relocate (place first : Nat → Nat) :
    ∀ node : Node, (node.relocate first).relocate place = node.relocate (place ∘ first)
  | ⟨_, _, _, children⟩ => congrArg _ (relocateAll_relocateAll place first children)

theorem relocateAll_relocateAll (place first : Nat → Nat) : ∀ nodes : List Node,
    relocateAll place (relocateAll first nodes) = relocateAll (place ∘ first) nodes
  | [] => rfl
  | node :: nodes => by
    rw [relocateAll, relocateAll, relocateAll, relocate_relocate place first node,
      relocateAll_relocateAll place first nodes]

end

end Node

@[simp] theorem SyntaxError.relocate_id (error : SyntaxError) : error.relocate id = error := rfl

@[simp] theorem Token.relocate_id (token : Token) : token.relocate id = token := rfl

theorem SyntaxError.relocate_unexpected (place : Nat → Nat) (expected : String) (found : Token) :
    (unexpected expected found).relocate place = unexpected expected (found.relocate place) := rfl

end SqlAudit
