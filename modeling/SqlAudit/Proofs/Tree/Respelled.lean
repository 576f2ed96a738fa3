import SqlAudit.Proofs.Script.Layout
/-!
Trees in which one operator stands for another. What differs is counted: the values of a tree share
the places at which they may do so.
-/
namespace SqlAudit

/-- The second text has `o'` where the first one has `o`, at so many places at most. -/
inductive Text.Respelled (o o' : String) : Nat → String → String → Prop
  | same {n : Nat} (text : String) : Respelled o o' n text text
  | more {n : Nat} {a b : String} (before : Respelled o o' n a b) (after : String) :
      Respelled o o' (n + 1) (a ++ o ++ after) (b ++ o' ++ after)

/-- The values of nodes, where both have one or neither has. -/
inductive Value.Respelled (o o' : String) : Nat → Option String → Option String → Prop
  | none {n : Nat} : Respelled o o' n none none
  | some {n : Nat} {a b : String} (text : Text.Respelled o o' n a b) :
      Respelled o o' n (some a) (some b)

/-- Two lists that agree one by one as `R` says, which share a number. -/
inductive Shared {α : Type} (R : Nat → α → α → Prop) : Nat → List α → List α → Prop
  | nil {n : Nat} : Shared R n [] []
  | cons {m n : Nat} {x y : α} {xs ys : List α} (first : R m x y) (others : Shared R n xs ys) :
      Shared R (m + n) (x :: xs) (y :: ys)

/-- The same tree but for the places of its nodes and for so many places in their values at which
`o'` stands for `o`. -/
inductive Node.Respelled (o o' : String) : Nat → Node → Node → Prop
  | node {m n : Nat} {kind : NodeKind} {span span' : Span} {value value' : Option String}
      {children children' : List Node} (written : Value.Respelled o o' m value value')
      (parts : Shared (Node.Respelled o o') n children children') :
      Respelled o o' (m + n) ⟨kind, span, value, children⟩ ⟨kind, span', value', children'⟩

variable {o o' : String} {m n : Nat} {a b x : String}

namespace Text.Respelled

theorem append (respelled : Text.Respelled o o' n a b) (x : String) :
    Text.Respelled o o' n (a ++ x) (b ++ x) := by
  cases respelled with
  | same => exact .same _
  | more before after =>
      have longer := before.more (after ++ x)
      rwa [← String.append_assoc, ← String.append_assoc] at longer

theorem operator (respelled : Text.Respelled o o' n a b) :
    Text.Respelled o o' (n + 1) (a ++ o) (b ++ o') := by
  have written := respelled.more ""
  rwa [String.append_empty, String.append_empty] at written

theorem mono (respelled : Text.Respelled o o' m a b) (le : m ≤ n) : Text.Respelled o o' n a b := by
  induction respelled generalizing n with
  | same => exact .same _
  | more before after ih =>
      obtain ⟨n, rfl⟩ := Nat.exists_eq_add_one.mpr (Nat.lt_of_lt_of_le (Nat.succ_pos _) le)
      exact .more (ih (Nat.le_of_succ_le_succ le)) after

end Text.Respelled

namespace Value.Respelled

variable {v v' w w' : Option String}

theorem getD (respelled : Value.Respelled o o' n v v') :
    Text.Respelled o o' n (v.getD "") (v'.getD "") := by
  cases respelled with
  | none => exact .same _
  | some text => exact text

theorem mono (respelled : Value.Respelled o o' m v v') (le : m ≤ n) :
    Value.Respelled o o' n v v' := by
  cases respelled with
  | none => exact .none
  | some text => exact .some (text.mono le)

theorem or (first : Value.Respelled o o' m v v') (second : Value.Respelled o o' n w w') :
    Value.Respelled o o' (m + n) (v.or w) (v'.or w') := by
  cases first with
  | none => exact second.mono (Nat.le_add_left n m)
  | some text => exact .some (text.mono (Nat.le_add_right m n))

end Value.Respelled

namespace Shared

variable {α : Type} {R : Nat → α → α → Prop} {xs xs' ys ys' : List α}

theorem mono (shared : Shared R m xs xs') (le : m ≤ n) : Shared R n xs xs' := by
  induction shared generalizing n with
  | nil => exact .nil
  | @cons i j _ _ _ _ first others ih =>
      obtain ⟨k, rfl⟩ := Nat.exists_eq_add_of_le (Nat.le_of_add_right_le le)
      exact .cons first (ih (Nat.le_of_add_le_add_left le))

theorem append (first : Shared R m xs xs') (second : Shared R n ys ys') :
    Shared R (m + n) (xs ++ ys) (xs' ++ ys') := by
  induction first with
  | nil => exact second.mono (Nat.le_add_left ..)
  | cons one others ih =>
      rw [Nat.add_assoc]
      exact .cons one ih

theorem reverse (shared : Shared R n xs xs') : Shared R n xs.reverse xs'.reverse := by
  induction shared with
  | nil => exact .nil
  | @cons i j x y _ _ first others ih =>
      rw [List.reverse_cons, List.reverse_cons, Nat.add_comm]
      have last : Shared R i [x] [y] := .cons first (.nil : Shared R 0 [] [])
      exact ih.append last

end Shared

mutual

theorem Node.Respelled.unplaced : ∀ {n : Nat} {node node' : Node},
    Node.Respelled o o' n node node' → Node.Respelled o o' n node.unplaced node'.unplaced
  | _, _, _, .node written parts => by
      rw [Node.unplaced, Node.unplaced]
      refine .node ?_ (Shared.unplacedAll parts)
      split
      · exact .none
      · exact written

theorem Shared.unplacedAll : ∀ {n : Nat} {nodes nodes' : List Node},
    Shared (Node.Respelled o o') n nodes nodes' →
      Shared (Node.Respelled o o') n (Node.unplacedAll nodes) (Node.unplacedAll nodes')
  | _, _, _, .nil => .nil
  | _, _, _, .cons first others => .cons first.unplaced (Shared.unplacedAll others)

end

end SqlAudit
