import SqlAudit.Proofs.Script.Nesting
import SqlAudit.Proofs.Tree.Relocation
/-!
The text of a span does not depend on the text around it. Behind other text the same bytes are found
further on, and text that follows is not reached by a span that ends before it.
-/
namespace SqlAudit

namespace Script

open Lexer (size size_append)

open Node (Row row_bounds)

variable {front back : List Char}

theorem dropBytes_append (front back : List Char) (bytes : Nat) :
    dropBytes (front ++ back) (size front + bytes) = dropBytes back bytes := by
  induction front with
  | nil => simp [size]
  | cons c front ih =>
      have byte := c.utf8Size_pos
      obtain ⟨k, first⟩ : ∃ k, size (c :: front) + bytes = k + 1 := ⟨_, (Nat.succ_pred (by
        simp only [size]
        omega)).symm⟩
      have left : k + 1 - c.utf8Size = size front + bytes := by
        rw [← first, size]
        omega
      rw [List.cons_append, first, dropBytes, left, ih]

theorem takeBytes_append (front back : List Char) :
    takeBytes (front ++ back) (size front) = front := by
  induction front with
  | nil => cases back <;> rfl
  | cons c front ih =>
      have byte := c.utf8Size_pos
      obtain ⟨bytes, first⟩ : ∃ bytes, size (c :: front) = bytes + 1 :=
        Nat.exists_eq_add_one.mpr (by rw [size]; omega)
      have left : bytes + 1 - c.utf8Size = size front := by
        rw [← first, size, Nat.add_sub_cancel_left]
      rw [first, List.cons_append, takeBytes, left, ih]

theorem dropBytes_size (front back : List Char) :
    dropBytes (front ++ back) (size front) = back := by
  have none : dropBytes back 0 = back := by cases back <;> rfl
  rw [← Nat.add_zero (size front), dropBytes_append, none]

theorem source_between (front slice back : List Char) :
    source (front ++ (slice ++ back)) ⟨size front, size front + size slice⟩ = slice := by
  rw [source, dropBytes_size, Span.length, Nat.add_sub_cancel_left, takeBytes_append]

theorem dropBytes_between (front slice back : List Char) :
    dropBytes (front ++ (slice ++ back)) (size front + size slice) = back := by
  rw [← size_append, ← List.append_assoc, dropBytes_size]

/-- Characters are dropped as a whole, so up to three bytes more may go than were asked for. -/
theorem dropBytes_before (back : List Char) {bytes : Nat} (inside : bytes ≤ size front) :
    dropBytes (front ++ back) bytes = dropBytes front bytes ++ back ∧
      size front ≤ bytes + size (dropBytes front bytes) + 3 := by
  induction front generalizing bytes with
  | nil =>
      have none : bytes = 0 := by simpa [size] using inside
      subst none
      cases back <;> simp [dropBytes, size]
  | cons c front ih =>
      cases bytes with
      | zero => simp [dropBytes]
      | succ bytes =>
          have byte := c.utf8Size_pos
          have most := c.utf8Size_le_four
          simp only [size] at inside ⊢
          rw [List.cons_append, dropBytes, dropBytes]
          obtain ⟨same, bound⟩ := @ih (bytes + 1 - c.utf8Size) (by omega)
          refine ⟨same, ?_⟩
          by_cases whole : c.utf8Size ≤ bytes + 1
          · omega
          · have none : bytes + 1 - c.utf8Size = 0 := by omega
            have all : dropBytes front 0 = front := by cases front <;> rfl
            rw [none, all]
            omega

theorem takeBytes_before {bytes : Nat} (inside : bytes ≤ size front) :
    takeBytes (front ++ back) bytes = takeBytes front bytes := by
  induction front generalizing bytes with
  | nil =>
      have none : bytes = 0 := by simpa [size] using inside
      subst none
      cases back <;> rfl
  | cons c front ih =>
      cases bytes with
      | zero => rfl
      | succ bytes =>
          simp only [size] at inside
          rw [List.cons_append, takeBytes, takeBytes, ih (by omega)]

theorem source_shift (front back : List Char) (span : Span) :
    source (front ++ back) (span.relocate (· + size front)) = source back span := by
  have length : (span.relocate (· + size front)).length = span.length := by
    simp only [Span.relocate, Span.length]
    omega
  rw [source, source, length]
  simp only [Span.relocate]
  rw [Nat.add_comm, dropBytes_append]

theorem source_before {span : Span} (ordered : span.start ≤ span.stop)
    (inside : span.stop + 3 ≤ size front) : source (front ++ back) span = source front span := by
  have starts : span.start ≤ size front := by omega
  obtain ⟨same, bound⟩ := dropBytes_before back starts
  rw [source, source, same, takeBytes_before]
  rw [Span.length]
  omega

mutual

theorem nameOptions_shift (front back : List Char) : ∀ node : Node,
    nameOptions (front ++ back) (node.relocate (· + size front)) =
      (nameOptions back node).relocate (· + size front)
  | ⟨_, _, _, children⟩ => by
    simp only [Node.relocate, nameOptions, source_shift]
    rw [nameOptionsOfList_shift front back children]

theorem nameOptionsOfList_shift (front back : List Char) : ∀ nodes : List Node,
    nameOptionsOfList (front ++ back) (Node.relocateAll (· + size front) nodes) =
      Node.relocateAll (· + size front) (nameOptionsOfList back nodes)
  | [] => rfl
  | node :: nodes => by
    simp only [Node.relocateAll, nameOptionsOfList]
    rw [nameOptions_shift front back node, nameOptionsOfList_shift front back nodes]

end

mutual

theorem nameOptions_before : ∀ node : Node, node.Nested → node.span.stop + 3 ≤ size front →
    nameOptions (front ++ back) node = nameOptions front node
  | ⟨_, _, _, children⟩, nested, inside => by
    have ordered := row_bounds nested
    rw [nameOptions, nameOptions, source_before ordered inside,
      nameOptionsOfList_before children nested inside]

theorem nameOptionsOfList_before {lo hi : Nat} : ∀ nodes : List Node, Row lo hi nodes →
    hi + 3 ≤ size front →
    nameOptionsOfList (front ++ back) nodes = nameOptionsOfList front nodes
  | [], _, _ => rfl
  | node :: nodes, ⟨_, nested, rest⟩, inside => by
    have upper := row_bounds rest
    rw [nameOptionsOfList, nameOptionsOfList, nameOptions_before node nested (by omega),
      nameOptionsOfList_before nodes rest inside]

end

end Script
end SqlAudit
