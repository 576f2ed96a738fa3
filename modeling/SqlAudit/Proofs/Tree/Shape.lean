import Mathlib.Data.List.Chain
import Mathlib.Data.List.Induction
import Mathlib.Data.Option.Basic
import SqlAudit.Proofs.Tree.Every
/-!
What the check of a tree vouches for. It compares parts with the whole that they are parts of and
each of them with the next one. Through any number of levels that keeps a node within the nodes
above it; along a row it keeps the order only as long as no span ends before it starts, for what
follows such a span need not follow what comes before it.
-/
namespace SqlAudit

namespace Span

/-- It ends before it starts. -/
def Inverted (a : Span) : Prop := a.stop < a.start

instance (a : Span) : Decidable a.Inverted := inferInstanceAs (Decidable (a.stop < a.start))

theorem contains_iff {a b : Span} : a.contains b = true ↔ a.start ≤ b.start ∧ b.stop ≤ a.stop := by
  simp [contains]

theorem contains_trans {a b c : Span} (outer : a.contains b = true) (inner : b.contains c = true) :
    a.contains c = true := by
  rw [contains_iff] at outer inner ⊢
  exact ⟨outer.1.trans inner.1, inner.2.trans outer.2⟩

end Span

namespace Node

/-- The second node starts where the first one ends, or later. -/
def Precedes (first second : Node) : Prop := first.span.stop ≤ second.span.start

instance : DecidableRel Precedes := fun first second =>
  inferInstanceAs (Decidable (first.span.stop ≤ second.span.start))

/-- The parts of a node lie within it, and each stands before the next one. -/
structure Shaped (node : Node) : Prop where
  within : ∀ child ∈ node.children, node.span.contains child.span = true
  chain : node.children.IsChain Precedes

theorem strayChild?_eq_none_iff {node : Node} :
    node.strayChild? = none ↔ ∀ child ∈ node.children, node.span.contains child.span = true := by
  simp [strayChild?]

theorem clash?_eq_none_iff {nodes : List Node} :
    clash? nodes = none ↔ nodes.IsChain Precedes := by
  fun_induction clash? nodes with
  | case1 first second rest clashes =>
      have apart : ¬ first.Precedes second := Nat.not_le.mpr clashes
      simp [apart]
  | case2 first second rest ordered ih =>
      have before : first.Precedes second := Nat.not_lt.mp ordered
      simp [before, ih]
  | case3 nodes short =>
      cases nodes with
      | nil => simp
      | cons first rest =>
          cases rest with
          | nil => simp
          | cons second rest => exact absurd rfl (short first second rest)

mutual

/-- A walk meets every node once. -/
theorem forall_walkThen {P : Node → Prop} {rest : List (Node × Nat)} {depth : Nat} :
    ∀ node : Node, (∀ entry ∈ node.walkThen rest depth, P entry.1) ↔
      node.Every P ∧ ∀ entry ∈ rest, P entry.1
  | ⟨kind, span, value, children⟩ => by
    rw [walkThen, List.forall_mem_cons, forall_walkListThen children, Every, and_assoc]

theorem forall_walkListThen {P : Node → Prop} {rest : List (Node × Nat)} {depth : Nat} :
    ∀ nodes : List Node, (∀ entry ∈ walkListThen rest depth nodes, P entry.1) ↔
      EveryOf P nodes ∧ ∀ entry ∈ rest, P entry.1
  | [] => by simp [walkListThen, EveryOf]
  | node :: nodes => by
    rw [walkListThen, forall_walkThen node, forall_walkListThen nodes, EveryOf, and_assoc]

end

theorem shapeError?_eq_none_iff {root : Node} : root.shapeError? = none ↔ root.Every Shaped := by
  have checked : ∀ node : Node,
      (node.strayChild? <|> clash? node.children) = none ↔ node.Shaped := by
    intro node
    rw [Option.orElse_eq_none, strayChild?_eq_none_iff, clash?_eq_none_iff]
    exact ⟨fun ⟨within, chain⟩ => ⟨within, chain⟩, fun shaped => ⟨shaped.within, shaped.chain⟩⟩
  have walked : (∀ entry ∈ root.walk, entry.1.Shaped) ↔
      root.Every Shaped ∧ ∀ entry ∈ ([] : List (Node × Nat)), entry.1.Shaped :=
    forall_walkThen root
  rw [shapeError?, List.findSome?_eq_none_iff]
  simp only [checked]
  rw [walked]
  simp

/-- A path goes on to the parts of the node that it leads to. -/
theorem at?_concat {root node child : Node} {path : List Nat} {i : Nat}
    (reached : root.at? path = some node) (found : node.children[i]? = some child) :
    root.at? (path ++ [i]) = some child := by
  induction path generalizing root with
  | nil =>
      cases reached
      exact at?_cons.mpr ⟨child, found, rfl⟩
  | cons j path ih =>
      obtain ⟨next, first, reached⟩ := at?_cons.mp reached
      exact at?_cons.mpr ⟨next, first, ih reached⟩

/-- What a path leads to lies within what it starts from. -/
theorem Every.contains {node part : Node} {path : List Nat} (every : node.Every Shaped)
    (reached : node.at? path = some part) : node.span.contains part.span = true := by
  induction path generalizing node with
  | nil =>
      cases reached
      simp [Span.contains]
  | cons i path ih =>
      obtain ⟨child, found, reached⟩ := at?_cons.mp reached
      obtain ⟨shaped, below⟩ := every_iff.mp every
      have member := List.mem_of_getElem? found
      exact Span.contains_trans (shaped.within child member) (ih (below child member) reached)

/-- Along a row the order is kept up to each node that comes after the first one, if it is kept
across the nodes whose spans are inverted. -/
theorem precedes_of_chain {first : Node} {nodes : List Node}
    (chain : (first :: nodes).IsChain Precedes)
    (across : ∀ before middle later, nodes = before ++ middle :: later → middle.span.Inverted →
      ∀ last ∈ later, first.Precedes last) {between after : List Node} {last : Node}
    (split : nodes = between ++ last :: after) : first.Precedes last := by
  induction between using List.reverseRecOn generalizing last after with
  | nil =>
      subst split
      exact (List.isChain_cons_cons.mp chain).1
  | append_singleton before middle ih =>
      rw [List.append_assoc] at split
      by_cases inverted : middle.span.Inverted
      · exact across before middle (last :: after) split inverted last (.head _)
      · have reached : first.Precedes middle := ih split
        have next : middle.Precedes last := by
          rw [split, ← List.cons_append] at chain
          exact (List.isChain_cons_cons.mp (List.isChain_split.mp chain).2).1
        have upright : middle.span.start ≤ middle.span.stop := Nat.not_lt.mp inverted
        exact reached.trans (upright.trans next)

/-- A row in which each node stands before the next one is in order exactly if it is in order across
the nodes whose spans are inverted. -/
theorem pairwise_iff_across {nodes : List Node} (chain : nodes.IsChain Precedes) :
    nodes.Pairwise Precedes ↔ ∀ before middle after, nodes = before ++ middle :: after →
      middle.span.Inverted → ∀ first ∈ before, ∀ last ∈ after, first.Precedes last := by
  constructor
  · rintro ordered before middle after rfl - first earlier last later
    exact (List.pairwise_append.mp ordered).2.2 first earlier last (.tail _ later)
  · intro across
    induction nodes with
    | nil => exact .nil
    | cons first nodes ih =>
        refine .cons ?_ (ih chain.tail ?_)
        · intro last member
          obtain ⟨between, after, split⟩ := List.append_of_mem member
          refine precedes_of_chain chain ?_ split
          intro before middle later split inverted
          exact across (first :: before) middle later (congrArg (first :: ·) split) inverted first
            (.head _)
        · intro before middle after split inverted earlier member
          exact across (first :: before) middle after (congrArg (first :: ·) split) inverted
            earlier (.tail _ member)

/-- In a tree that passes the check every node lies within each of those above it, and the parts of
a node stand in order exactly if they do across those whose spans are inverted; so in order they
are where no span is. -/
theorem shape_vouches (root : Node) (passes : root.shapeError? = none) :
    (∀ above node below part, root.at? above = some node → node.at? below = some part →
      node.span.contains part.span = true) ∧
    (∀ path node, root.at? path = some node →
      (node.children.Pairwise Precedes ↔
        ∀ before middle after, node.children = before ++ middle :: after →
          middle.span.Inverted → ∀ first ∈ before, ∀ last ∈ after, first.Precedes last)) ∧
    ((∀ path node, root.at? path = some node → ¬ node.span.Inverted) →
      ∀ path node, root.at? path = some node → node.children.Pairwise Precedes) := by
  have every : root.Every Shaped := shapeError?_eq_none_iff.mp passes
  have exactly := fun path node (reached : root.at? path = some node) =>
    pairwise_iff_across (every.at? reached).here.chain
  refine ⟨?_, exactly, ?_⟩
  · intro above node below part reached inside
    exact (every.at? reached).contains inside
  · intro upright path node reached
    apply (exactly path node reached).mpr
    intro before middle after split inverted
    have member : middle ∈ node.children := split ▸ List.mem_append_right _ (.head _)
    obtain ⟨i, found⟩ := List.getElem?_of_mem member
    exact absurd inverted (upright (path ++ [i]) middle (at?_concat reached found))

/-- A part of a part, and the first and the last of three parts, of which the one between them is
inverted. -/
theorem shape_vouches_across : ∃ column list clause tail root : Node,
    column = .leaf .columnRef ⟨7, 8⟩ none ∧ list = ⟨.selectList, ⟨7, 8⟩, none, [column]⟩ ∧
    clause = .leaf .fromClause ⟨12, 10⟩ none ∧ tail = .leaf .whereClause ⟨11, 20⟩ none ∧
    root = ⟨.select, ⟨0, 20⟩, none, [list, clause, tail]⟩ ∧ root.shapeError? = none ∧
    root.span.contains column.span = true ∧ clause.span.Inverted ∧ list.Precedes tail := by
  let column : Node := .leaf .columnRef ⟨7, 8⟩ none
  let list : Node := ⟨.selectList, ⟨7, 8⟩, none, [column]⟩
  let clause : Node := .leaf .fromClause ⟨12, 10⟩ none
  let tail : Node := .leaf .whereClause ⟨11, 20⟩ none
  let root : Node := ⟨.select, ⟨0, 20⟩, none, [list, clause, tail]⟩
  have passes : root.shapeError? = none := by decide
  obtain ⟨within, exactly, -⟩ := shape_vouches root passes
  have across := (exactly [] root rfl).mp (by decide)
  exact ⟨column, list, clause, tail, root, rfl, rfl, rfl, rfl, rfl, passes,
    within [] root [0, 0] column rfl rfl, by decide,
    across [list] clause [tail] rfl (by decide) list (.head _) tail (.head _)⟩

/-- Between two parts that overlap, one that is inverted passes the check. -/
theorem overlap_passes : ∃ first between last root : Node,
    first = .leaf .select ⟨0, 10⟩ none ∧ between = .leaf .insert ⟨10, 0⟩ none ∧
    last = .leaf .delete ⟨0, 5⟩ none ∧
    root = ⟨.script, ⟨0, 10⟩, none, [first, between, last]⟩ ∧ root.shapeError? = none ∧
    ¬ root.children.Pairwise Precedes ∧ first.span.overlaps last.span = true :=
  ⟨_, _, _, _, rfl, rfl, rfl, rfl, by decide, by decide, by decide⟩

end Node
end SqlAudit
