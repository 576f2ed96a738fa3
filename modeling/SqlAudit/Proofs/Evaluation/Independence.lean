import SqlAudit.Proofs.Catalog.Named
import SqlAudit.Proofs.Evaluation.Distinct
import SqlAudit.Proofs.Finding.Neighbours
/-!
Rules are applied independently of each other. Catalogs that differ in one rule only find the same
by all the others, node by node. In a result they may still differ: a finding that is dropped for
the one before it stays if a finding of the rule comes between the two.
-/
namespace SqlAudit

namespace Evaluation

open Finding (notOf)

variable {r unitId : String} {lines : LineIndex} {c c' : Catalog} {above : List Node}

/-- The catalogs have the same rules for each kind, but for the rule `r`. -/
def AgreeBut (r : String) (c c' : Catalog) : Prop :=
  ∀ kind, (c.rulesFor kind).filter (·.id != r) = (c'.rulesFor kind).filter (·.id != r)

theorem agreeBut_ofRules {version version' : String} {first second : List Rule}
    (built : Catalog.ofRules version first = .ok c)
    (built' : Catalog.ofRules version' second = .ok c')
    (same : first.filter (·.id != r) = second.filter (·.id != r)) : AgreeBut r c c' := by
  intro kind
  rw [Catalog.ofRules_rulesFor built, Catalog.ofRules_rulesFor built', List.filter_comm, same,
    List.filter_comm]

theorem filterMap_applyRule (context : Context) (node : Node) (rules : List Rule) :
    (rules.filterMap (applyRule context above node)).filter (notOf r) =
      (rules.filter (·.id != r)).filterMap (applyRule context above node) := by
  induction rules with
  | nil => rfl
  | cons rule rules ih =>
      by_cases other : (rule.id != r) = true
      · rw [@List.filter_cons_of_pos Rule (·.id != r) _ _ other]
        cases applied : applyRule context above node rule with
        | none => rw [List.filterMap_cons_none applied, List.filterMap_cons_none applied, ih]
        | some finding =>
            have kept : notOf r finding = true := by
              rwa [notOf, (applyRule_about applied).1]
            rw [List.filterMap_cons_some applied, List.filterMap_cons_some applied,
              List.filter_cons_of_pos kept, ih]
      · rw [@List.filter_cons_of_neg Rule (·.id != r) _ _ other]
        cases applied : applyRule context above node rule with
        | none => rw [List.filterMap_cons_none applied, ih]
        | some finding =>
            have left : ¬ notOf r finding = true := by rwa [notOf, (applyRule_about applied).1]
            rw [List.filterMap_cons_some applied, List.filter_cons_of_neg left, ih]

theorem nodeFindings_agree (agree : AgreeBut r c c') (node : Node) :
    (nodeFindings ⟨c, unitId, lines⟩ above node).filter (notOf r) =
      (nodeFindings ⟨c', unitId, lines⟩ above node).filter (notOf r) := by
  unfold nodeFindings
  split
  · rfl
  · rw [filterMap_applyRule, filterMap_applyRule, agree]
    rfl

theorem visit_agree (agree : AgreeBut r c c') (node : Node) :
    (visit ⟨c, unitId, lines⟩ above node).filter (notOf r) =
      (visit ⟨c', unitId, lines⟩ above node).filter (notOf r) := by
  induction node using Node.induct generalizing above with
  | step node ih =>
      rw [visit_eq, visit_eq, List.filter_append, List.filter_append, nodeFindings_agree agree,
        visitAll_eq_flatMap, visitAll_eq_flatMap, List.filter_flatMap, List.filter_flatMap]
      congr 1
      exact List.flatMap_congr fun child member => ih child member

end Evaluation
end SqlAudit
