import Mathlib.Order.Lattice
import SqlAudit.Finding
/-!
Nested trees: every part lies within the whole, and parts follow one another without overlapping.
`Row lo hi nodes` says that of a list of nodes between two places of the text, which is what a tree
under construction satisfies before its own end is known.
-/
namespace SqlAudit

namespace Node

/-- A node that some of the text belongs to. -/
def Solid (node : Node) : Prop := node.span.start < node.span.stop

mutual

def Nested : Node → Prop
  | ⟨_, span, _, children⟩ => Row span.start span.stop children

def Row (lo hi : Nat) : List Node → Prop
  | [] => lo ≤ hi
  | node :: nodes => lo ≤ node.span.start ∧ node.Nested ∧ Row node.span.stop hi nodes

end

mutual

theorem nested_ordered : ∀ {node : Node}, node.Nested → node.span.start ≤ node.span.stop
  | ⟨_, _, _, _⟩, nested => row_bounds nested

theorem row_bounds {lo hi : Nat} : ∀ {nodes : List Node}, Row lo hi nodes → lo ≤ hi
  | [], row => row
  | _ :: _, ⟨starts, nested, rest⟩ =>
    starts.trans ((nested_ordered nested).trans (row_bounds rest))

end

theorem nested_iff_row (node : Node) :
    node.Nested ↔ Row node.span.start node.span.stop node.children := by
  cases node
  rfl

theorem row_widen {lo lo' hi hi' : Nat} {nodes : List Node} (lower : lo' ≤ lo) (upper : hi ≤ hi')
    (row : Row lo hi nodes) : Row lo' hi' nodes := by
  induction nodes generalizing lo lo' with
  | nil => exact lower.trans (row_bounds row |>.trans upper)
  | cons node nodes ih =>
      obtain ⟨starts, nested, rest⟩ := row
      exact ⟨lower.trans starts, nested, ih (Nat.le_refl _) rest⟩

theorem row_append {lo hi : Nat} {first second : List Node} :
    Row lo hi (first ++ second) ↔ ∃ mid, Row lo mid first ∧ Row mid hi second := by
  induction first generalizing lo with
  | nil =>
      constructor
      · intro row
        exact ⟨lo, Nat.le_refl lo, row⟩
      · rintro ⟨mid, before, row⟩
        exact row_widen before (Nat.le_refl hi) row
  | cons node nodes ih =>
      constructor
      · rintro ⟨starts, nested, rest⟩
        obtain ⟨mid, left, right⟩ := ih.mp rest
        exact ⟨mid, ⟨starts, nested, left⟩, right⟩
      · rintro ⟨mid, ⟨starts, nested, left⟩, right⟩
        exact ⟨starts, nested, ih.mpr ⟨mid, left, right⟩⟩

/-- The last node of a row stands after all the others. -/
theorem row_concat {lo hi : Nat} {nodes : List Node} {node : Node} :
    Row lo hi (nodes ++ [node]) ↔
      Row lo node.span.start nodes ∧ node.Nested ∧ node.span.stop ≤ hi := by
  rw [row_append]
  constructor
  · rintro ⟨mid, before, starts, nested, upper⟩
    exact ⟨row_widen (Nat.le_refl lo) starts before, nested, upper⟩
  · rintro ⟨before, nested, upper⟩
    exact ⟨_, before, Nat.le_refl _, nested, upper⟩

/-- Each node of a row is nested, and the row goes on around it. -/
theorem row_mem {lo hi : Nat} {nodes : List Node} (row : Row lo hi nodes) :
    ∀ node ∈ nodes, node.Nested ∧ lo ≤ node.span.start ∧ node.span.stop ≤ hi := by
  intro node member
  obtain ⟨before, after, rfl⟩ := List.append_of_mem member
  obtain ⟨mid, left, starts, nested, right⟩ := row_append.mp row
  exact ⟨nested, (row_bounds left).trans starts, row_bounds right⟩

theorem row_pairwise {lo hi : Nat} {nodes : List Node} (row : Row lo hi nodes) :
    nodes.Pairwise fun first second => first.span.stop ≤ second.span.start := by
  induction nodes generalizing lo with
  | nil => exact .nil
  | cons node nodes ih =>
      obtain ⟨_, _, rest⟩ := row
      refine .cons ?_ (ih rest)
      intro second member
      exact (row_mem rest second member).2.1

theorem nested_contains {node : Node} (nested : node.Nested) :
    ∀ child ∈ node.children, node.span.contains child.span := by
  intro child member
  obtain ⟨_, lower, upper⟩ := row_mem ((nested_iff_row node).mp nested) child member
  simp [Span.contains, lower, upper]

theorem at?_cons {node part : Node} {i : Nat} {path : List Nat} :
    node.at? (i :: path) = some part ↔
      ∃ child, node.children[i]? = some child ∧ child.at? path = some part := by
  rw [at?]
  split <;> simp [*]

/-- The node at a path is nested, too, and lies within the one that the path starts from. -/
theorem nested_at? {node part : Node} {path : List Nat} (nested : node.Nested)
    (reached : node.at? path = some part) :
    part.Nested ∧ node.span.contains part.span = true := by
  induction path generalizing node with
  | nil =>
      cases reached
      exact ⟨nested, by simp [Span.contains]⟩
  | cons i path ih =>
      obtain ⟨child, found, reached⟩ := at?_cons.mp reached
      have row := (nested_iff_row node).mp nested
      obtain ⟨inner, lower, upper⟩ := row_mem row child (List.mem_of_getElem? found)
      obtain ⟨own, within⟩ := ih inner reached
      simp only [Span.contains, Bool.and_eq_true, decide_eq_true_eq] at within ⊢
      exact ⟨own, lower.trans within.1, within.2.trans upper⟩

mutual

theorem mem_walkThen {rest : List (Node × Nat)} {depth : Nat} {P : Node → Prop}
    (inherited : ∀ parent, P parent → ∀ child ∈ parent.children, P child)
    (others : ∀ entry ∈ rest, P entry.1) :
    ∀ node, P node → ∀ entry ∈ walkThen rest depth node, P entry.1
  | ⟨kind, span, value, children⟩, holds => by
    intro entry member
    rw [walkThen, List.mem_cons] at member
    rcases member with rfl | member
    · exact holds
    · exact mem_walkListThen inherited others children (inherited _ holds) entry member

theorem mem_walkListThen {rest : List (Node × Nat)} {depth : Nat} {P : Node → Prop}
    (inherited : ∀ parent, P parent → ∀ child ∈ parent.children, P child)
    (others : ∀ entry ∈ rest, P entry.1) :
    ∀ nodes, (∀ node ∈ nodes, P node) → ∀ entry ∈ walkListThen rest depth nodes, P entry.1
  | [], _ => others
  | node :: nodes, holds =>
    mem_walkThen inherited
      (mem_walkListThen inherited others nodes fun n member => holds n (.tail _ member))
      node (holds node (.head _))

end

/-- What passes from a node to its parts holds of all nodes that are visited. -/
theorem mem_walk {P : Node → Prop} {root : Node}
    (inherited : ∀ parent, P parent → ∀ child ∈ parent.children, P child) (holds : P root) :
    ∀ entry ∈ root.walk, P entry.1 :=
  mem_walkThen inherited (by simp) root holds

theorem walk_nested {root : Node} (nested : root.Nested) : ∀ entry ∈ root.walk, entry.1.Nested :=
  mem_walk (fun parent holds child member =>
    (row_mem ((nested_iff_row parent).mp holds) child member).1) nested

theorem walk_contained {root : Node} (nested : root.Nested) :
    ∀ entry ∈ root.walk, root.span.contains entry.1.span := by
  have both : ∀ entry ∈ root.walk, entry.1.Nested ∧ root.span.contains entry.1.span := by
    refine mem_walk (P := fun node => node.Nested ∧ root.span.contains node.span) ?_ ?_
    · rintro parent ⟨holds, within⟩ child member
      have part := row_mem ((nested_iff_row parent).mp holds) child member
      simp only [Span.contains, Bool.and_eq_true, decide_eq_true_eq] at within ⊢
      exact ⟨part.1, within.1.trans part.2.1, part.2.2.trans within.2⟩
    · exact ⟨nested, by simp [Span.contains]⟩
  intro entry member
  exact (both entry member).2

theorem strayChild?_nested {node : Node} (nested : node.Nested) : node.strayChild? = none := by
  have inside := nested_contains nested
  rw [strayChild?, List.find?_eq_none.mpr]
  · rfl
  · intro child member
    simp [inside child member]

theorem clash?_row {lo hi : Nat} : ∀ {nodes : List Node}, Row lo hi nodes → clash? nodes = none
  | [], _ => rfl
  | [_], _ => rfl
  | first :: second :: rest, ⟨_, _, row⟩ => by
    have apart : ¬ second.span.start < first.span.stop := Nat.not_lt.mpr row.1
    rw [clash?, if_neg apart]
    exact clash?_row row

theorem shapeError?_nested {root : Node} (nested : root.Nested) : root.shapeError? = none := by
  rw [shapeError?, List.findSome?_eq_none_iff]
  intro entry member
  have good := walk_nested nested entry member
  simp [strayChild?_nested good, clash?_row ((nested_iff_row _).mp good)]

end Node
end SqlAudit
