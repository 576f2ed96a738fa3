import Mathlib.Data.List.Nodup
import SqlAudit.Proofs.Evaluation.Visit
import SqlAudit.Proofs.Finding.Aggregation
import SqlAudit.Proofs.Tree.Distinct
/-!
No finding of a tree repeats another one if a kind and a span tell its nodes apart and a name tells
apart the rules: findings by one name are about nodes of one kind.
-/
namespace SqlAudit

namespace Evaluation

variable {context : Context} {above before : List Node} {node other : Node} {a b : Finding}

/-- The rules of a catalog have names of their own, and none has that of the regions. -/
structure Named (catalog : Catalog) : Prop where
  own : (catalog.rules.map (·.id)).Nodup
  quiet : ∀ rule ∈ catalog.rules, rule.id ≠ unparsedRule

/-- Findings by one name are about nodes of one kind. -/
theorem Named.kind_eq (named : Named context.catalog)
    (here : a ∈ nodeFindings context above node) (there : b ∈ nodeFindings context before other)
    (name : a.ruleId = b.ruleId) : node.kind = other.kind := by
  rcases mem_nodeFindings_cases here with ⟨unread, rfl⟩ | ⟨-, rule, listed, target, applied⟩ <;>
    rcases mem_nodeFindings_cases there with ⟨unread', rfl⟩ | ⟨-, rule', listed', target', applied'⟩
  · exact unread.trans unread'.symm
  · rw [(applyRule_about applied').1] at name
    exact absurd name.symm (named.quiet rule' listed')
  · rw [(applyRule_about applied).1] at name
    exact absurd name (named.quiet rule listed)
  · rw [(applyRule_about applied).1, (applyRule_about applied').1] at name
    have same := List.inj_on_of_nodup_map named.own listed listed' name
    rw [← target, ← target', same]

theorem nodeFindings_distinct (named : Named context.catalog) :
    (nodeFindings context above node).Pairwise fun a b => b.repeats a = false := by
  unfold nodeFindings
  split
  · exact List.pairwise_singleton ..
  · have rules := List.pairwise_map.mp named.own
    rw [Catalog.rulesFor_eq]
    refine List.pairwise_filterMap.mpr ((rules.filter _).imp ?_)
    intro rule rule' differ a found b found'
    rw [← Bool.not_eq_true, Finding.repeats_iff, (applyRule_about found).1,
      (applyRule_about found').1]
    exact fun same => differ same.1.symm

variable {root : Node} {first second : List Nat}

/-- Findings about nodes at different places do not repeat each other. -/
theorem repeats_elsewhere (named : Named context.catalog) (distinct : root.Distinct)
    (reached : root.at? first = some node) (reached' : root.at? second = some other)
    (apart : first ≠ second) (here : a ∈ nodeFindings context above node)
    (there : b ∈ nodeFindings context before other) : b.repeats a = false := by
  rw [← Bool.not_eq_true, Finding.repeats_iff]
  rintro ⟨name, span, -⟩
  have kind := named.kind_eq here there name.symm
  rw [(mem_nodeFindings_about here).1, (mem_nodeFindings_about there).1] at span
  exact apart (distinct first second node other reached reached' kind span.symm)

theorem visit_distinct (named : Named context.catalog) (distinct : root.Distinct) :
    (visit context above root).Pairwise fun a b => b.repeats a = false := by
  induction root using Node.induct generalizing above with
  | step root ih =>
      rw [visit_eq, visitAll_eq_flatMap, List.pairwise_append, List.pairwise_flatMap]
      refine ⟨nodeFindings_distinct named, ⟨?_, ?_⟩, ?_⟩
      · intro child member
        exact ih child member (distinct.below member)
      · rw [List.pairwise_iff_getElem]
        intro i j atI atJ before a here b there
        obtain ⟨path, node, reached, about⟩ := exists_path_of_visit _ here
        obtain ⟨path', other, reached', about'⟩ := exists_path_of_visit _ there
        have left : root.at? (i :: path) = some node :=
          Node.at?_cons.mpr ⟨_, List.getElem?_eq_getElem atI, reached⟩
        have right : root.at? (j :: path') = some other :=
          Node.at?_cons.mpr ⟨_, List.getElem?_eq_getElem atJ, reached'⟩
        exact repeats_elsewhere named distinct left right (by simp; omega) about about'
      · intro a here b there
        obtain ⟨child, member, inside⟩ := List.mem_flatMap.mp there
        obtain ⟨i, found⟩ := List.mem_iff_getElem?.mp member
        obtain ⟨path, node, reached, about⟩ := exists_path_of_visit _ inside
        have left : root.at? [] = some root := rfl
        have right := Node.at?_cons.mpr ⟨child, found, reached⟩
        exact repeats_elsewhere named distinct left right (by simp) here about

/-- Nothing is lost of what is found in such a tree. -/
theorem aggregate_evaluate (named : Named context.catalog) (distinct : root.Distinct) :
    (Finding.aggregate (evaluate context root)).Perm (evaluate context root) := by
  apply Finding.aggregate_perm
  rw [evaluate_eq_visit]
  exact visit_distinct named distinct

end Evaluation
end SqlAudit
