import SqlAudit.Proofs.Grammar.Tiers
import SqlAudit.Proofs.Script.Regions
/-!
In the tree of a text a kind and a span tell nodes apart: statements are tiered as the grammar has
them, the script is of a higher tier than any of them, and a region that was given up has no parts.
-/
namespace SqlAudit

namespace Script

variable {size : Nat} {c d : Cursor} {node : Node}

theorem Statement.tiered (read : Statement size c node d) (ordered : c.Ordered size) :
    node.Every Node.Tiered ∧ node.kind.tier ≤ 2 := by
  have both : node.Every Node.Tiered ∧
      (node.span = ⟨c.current.span.start, d.previous.stop⟩ → node.kind.tier ≤ 2) := by
    apply read.of_derives
    intro g derives
    exact Grammar.derives_tiered (c := { c with depth := 0 }) ordered (Nat.zero_le _) read.moved
      derives
  exact ⟨both.1, both.2 read.span⟩

theorem nameOptions_tiered (text : List Char) (tiered : node.Tiered) :
    (nameOptions text node).Tiered := by
  intro child member same
  rw [nameOptions_children] at member
  obtain ⟨original, inside, rfl⟩ := List.mem_map.mp member
  simp only [nameOptions_span, nameOptions_kind] at same ⊢
  exact tiered original inside same

/-- The second tier is not left by statements, and the script is above it. -/
theorem read_tiered (d : Dialect) (text : String) : (read d text).root.Every Node.Tiered := by
  have statements : ∀ node ∈ (read d text).root.children,
      node.Every Node.Tiered ∧ node.kind.tier ≤ 2 := by
    intro node member
    rcases read_statement d text node member with
      ⟨span, value, rfl⟩ | ⟨original, c, e, rfl, -, start, read⟩
    · have low : NodeKind.unparsed.tier ≤ 2 := by decide
      exact ⟨⟨by simp [Node.Tiered], trivial⟩, low⟩
    · obtain ⟨tiered, low⟩ := read.tiered start
      rw [nameOptions_kind]
      exact ⟨every_nameOptions text.toList (fun _ => nameOptions_tiered _) original tiered, low⟩
  have above : 2 < NodeKind.script.tier := by decide
  refine Node.every_iff.mpr ⟨?_, fun node member => (statements node member).1⟩
  intro statement member same
  exact (statements statement member).2.trans_lt above

/-- No two nodes of the tree of a text are of the same kind and span the same. -/
theorem read_distinct (d : Dialect) (text : String) : (read d text).root.Distinct :=
  Node.distinct (read_nested d text) (read_tiered d text) (read_solid d text)

end Script
end SqlAudit
