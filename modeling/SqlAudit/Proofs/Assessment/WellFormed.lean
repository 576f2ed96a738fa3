import SqlAudit.Assessment
import SqlAudit.Proofs.Evaluation.Visit
import SqlAudit.Proofs.Script.Nesting
/-!
Every parse is well formed, so the checks that guard an assessment never fail: the check of the tree
finds no fault, every finding lies within the text, and no unit is given up.
-/
namespace SqlAudit

namespace Evaluation

theorem mem_alongWalk {context : Context} {entries : List (Node × Nat)} {path : List Node} :
    ∀ finding ∈ alongWalk context path entries,
      ∃ entry ∈ entries, finding.span = entry.1.span := by
  induction entries generalizing path with
  | nil => simp [alongWalk]
  | cons entry entries ih =>
      obtain ⟨node, depth⟩ := entry
      intro finding member
      rw [alongWalk, List.mem_append] at member
      rcases member with here | later
      · exact ⟨_, .head _, (mem_nodeFindings_about here).1⟩
      · obtain ⟨entry, below, span⟩ := ih finding later
        exact ⟨entry, .tail _ below, span⟩

theorem outside?_evaluate (context : Context) {root : Node} (nested : root.Nested) :
    Finding.outside? root.span (evaluate context root) = none := by
  rw [Finding.outside?, List.find?_eq_none.mpr]
  · rfl
  · intro finding member
    obtain ⟨entry, below, span⟩ := mem_alongWalk finding member
    simp [span, Node.walk_contained nested entry below]

end Evaluation

namespace Assessment

/-- No unit that was read is given up. -/
theorem assess_read (catalog : Catalog) (d : Dialect) (unit : SourceUnit) :
    (assess catalog d unit).outcome =
        (if (Script.read d unit.text).isComplete then .assessed else .syntaxErrors) ∧
      (assess catalog d unit).findings = Finding.aggregate (Evaluation.evaluate
        ⟨catalog, unit.id, .ofText unit.text⟩ (Script.read d unit.text).root) := by
  have nested := Script.read_nested d unit.text
  have shape := Node.shapeError?_nested nested
  have inside := fun context => Evaluation.outside?_evaluate context nested
  simp [assess, assessScript, shape, inside]

end Assessment

/-- The tree of every text is well formed at each of its nodes, from the root, which spans the
whole text; and with such a tree no assessment fails, whatever the catalog. -/
theorem every_parse_wellFormed (d : Dialect) (text : String) :
    (Script.read d text).root.span = ⟨0, text.utf8ByteSize⟩ ∧
    (∀ entry ∈ (Script.read d text).root.walk,
      entry.1.span.start ≤ entry.1.span.stop ∧
      (∀ child ∈ entry.1.children, entry.1.span.contains child.span) ∧
      entry.1.children.Pairwise fun first second => first.span.stop ≤ second.span.start) ∧
    (Script.read d text).root.shapeError? = none ∧
    (∀ context, Finding.outside? (Script.read d text).root.span
      (Evaluation.evaluate context (Script.read d text).root) = none) ∧
    ∀ catalog id reason, (Assessment.assess catalog d ⟨id, text⟩).outcome ≠ .failed reason := by
  have nested := Script.read_nested d text
  have shape := Node.shapeError?_nested nested
  have inside := fun context => Evaluation.outside?_evaluate context nested
  refine ⟨rfl, ?_, shape, inside, ?_⟩
  · intro entry member
    have good := Node.walk_nested nested entry member
    exact ⟨Node.nested_ordered good, Node.nested_contains good,
      Node.row_pairwise ((Node.nested_iff_row _).mp good)⟩
  · intro catalog id reason
    rw [(Assessment.assess_read catalog d ⟨id, text⟩).1]
    split <;> simp

end SqlAudit
