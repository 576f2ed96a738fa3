import SqlAudit.Proofs.Tree.Every
/-!
Trees in which a kind and a span tell nodes apart. Nodes in different parts of a node span different
pieces of the text; a node and one below it can span the same piece, but then each one on the way is
of a lower tier than the one around it, so that the two are not of one kind.
-/
namespace SqlAudit

/-- A kind can only be wrapped tightly by kinds of higher tiers. -/
def NodeKind.tier : NodeKind → Nat
  | .script => 5
  | .schemaElements | .tableConstraint => 4
  | .selectList | .join | .orderItem | .indexElement | .returning | .columnConstraint
  | .parameterDef | .grantees | .assignment => 3
  | .subquery => 2
  | kind => if kind.category = .statement then 2 else 1

/-- A part that spans all of a node is of a lower tier. -/
def Node.Tiered (node : Node) : Prop :=
  ∀ child ∈ node.children, child.span = node.span → child.kind.tier < node.kind.tier

namespace Node

/-- No two nodes of the tree are of the same kind and span the same. -/
def Distinct (root : Node) : Prop :=
  ∀ first second m n, root.at? first = some m → root.at? second = some n → m.kind = n.kind →
    m.span = n.span → first = second

variable {node part child other : Node} {path : List Nat} {i j : Nat}

theorem Distinct.below (distinct : node.Distinct) (member : child ∈ node.children) :
    child.Distinct := by
  obtain ⟨i, found⟩ := List.mem_iff_getElem?.mp member
  intro first second m n here there kind span
  have left := at?_cons.mpr ⟨child, found, here⟩
  have right := at?_cons.mpr ⟨child, found, there⟩
  exact List.tail_eq_of_cons_eq (distinct (i :: first) (i :: second) m n left right kind span)

theorem tier_lt (nested : node.Nested) (tiered : node.Every Tiered)
    (reached : node.at? (i :: path) = some part) (same : part.span = node.span) :
    part.kind.tier < node.kind.tier := by
  induction path generalizing node i with
  | nil =>
      obtain ⟨child, found, reached⟩ := at?_cons.mp reached
      cases reached
      exact tiered.here part (List.mem_of_getElem? found) same
  | cons j path ih =>
      obtain ⟨child, found, reached⟩ := at?_cons.mp reached
      have member := List.mem_of_getElem? found
      obtain ⟨own, lower, upper⟩ := row_mem ((nested_iff_row node).mp nested) child member
      have within := (nested_at? own reached).2
      simp only [Span.contains, Bool.and_eq_true, decide_eq_true_eq, same] at within
      have whole : child.span = node.span := by
        cases outer : node.span
        cases inner : child.span
        simp only [outer, inner] at within lower upper
        congr 1 <;> omega
      have below := ih own ((every_iff.mp tiered).2 child member) reached (same.trans whole.symm)
      exact below.trans (tiered.here child member whole)

/-- What stands in one part of a node does not span what stands in another. -/
theorem contains_apart (nested : node.Nested) (apart : i ≠ j)
    (here : node.children[i]? = some child) (there : node.children[j]? = some other)
    {first second : List Nat} {m n : Node} (inside : child.at? first = some m)
    (beside : other.at? second = some n) (solid : n.Solid) : m.span.contains n.span = false := by
  have row := (nested_iff_row node).mp nested
  have before := List.pairwise_iff_getElem.mp (row_pairwise row)
  obtain ⟨atI, rfl⟩ := List.getElem?_eq_some_iff.mp here
  obtain ⟨atJ, rfl⟩ := List.getElem?_eq_some_iff.mp there
  have left := (nested_at? (row_mem row _ (List.getElem_mem atI)).1 inside).2
  have right := (nested_at? (row_mem row _ (List.getElem_mem atJ)).1 beside).2
  rw [← Bool.not_eq_true]
  simp only [Span.contains, Bool.and_eq_true, decide_eq_true_eq] at left right ⊢
  rw [Solid] at solid
  rintro ⟨starts, stops⟩
  rcases Nat.lt_or_gt_of_ne apart with less | more
  · have order := before i j atI atJ less
    omega
  · have order := before j i atJ atI more
    omega

theorem span_ne (nested : node.Nested) (apart : i ≠ j) (here : node.children[i]? = some child)
    (there : node.children[j]? = some other) {first second : List Nat} {m n : Node}
    (inside : child.at? first = some m) (beside : other.at? second = some n) (solid : n.Solid) :
    m.span ≠ n.span := by
  intro same
  have contains := contains_apart nested apart here there inside beside solid
  rw [same] at contains
  simp [Span.contains] at contains

theorem distinct (nested : node.Nested) (tiered : node.Every Tiered)
    (solid : ∀ child ∈ node.children, child.Every Solid) : node.Distinct := by
  intro first
  induction first generalizing node with
  | nil =>
      intro second m n here there kind span
      cases here
      cases second with
      | nil => rfl
      | cons j second =>
          have lower := tier_lt nested tiered there span.symm
          rw [kind] at lower
          exact absurd lower (Nat.lt_irrefl _)
  | cons i first ih =>
      intro second m n here there kind span
      cases second with
      | nil =>
          cases there
          have lower := tier_lt nested tiered here span
          rw [kind] at lower
          exact absurd lower (Nat.lt_irrefl _)
      | cons j second =>
          obtain ⟨child, found, inside⟩ := at?_cons.mp here
          obtain ⟨other, listed, beside⟩ := at?_cons.mp there
          have member := List.mem_of_getElem? found
          have own := (row_mem ((nested_iff_row node).mp nested) child member).1
          by_cases same : i = j
          · subst same
            rw [found] at listed
            cases listed
            have below := (every_iff.mp tiered).2 child member
            have parts := (every_iff.mp (solid child member)).2
            rw [ih own below parts second m n inside beside kind span]
          · have nonempty := ((solid other (List.mem_of_getElem? listed)).at? beside).here
            exact absurd span (span_ne nested same found listed inside beside nonempty)

end Node
end SqlAudit
