import SqlAudit.Proofs.Assessment.Reserved
import SqlAudit.Proofs.Assessment.WellFormed
import SqlAudit.Proofs.Evaluation.Distinct
import SqlAudit.Proofs.Script.Distinct
/-!
The findings of a unit that go by the name of a rule. Where no two rules share a name, nor one takes
the name for regions, they are what that rule says of the nodes it looks at.
-/
namespace SqlAudit

namespace Evaluation

variable {context : Context} {root : Node} {rule : Rule} {finding : Finding}

/-- What goes by the name of a rule is what that rule finds, if no other goes by that name. -/
theorem Named.foundBy_iff (named : Named context.catalog) (listed : rule ∈ context.catalog.rules) :
    finding ∈ evaluate context root ∧ finding.ruleId = rule.id ↔
      FoundBy context root rule finding := by
  constructor
  · rintro ⟨found, name⟩
    rcases mem_evaluate_iff.mp found with reports | ⟨other, source⟩
    · exact absurd (name.symm.trans reports.named.1) (named.quiet rule listed)
    · have same : other.id = rule.id := source.named.symm.trans name
      rwa [List.inj_on_of_nodup_map named.own source.1 listed same] at source
  · intro found
    exact ⟨mem_evaluate_iff.mpr (.inr ⟨rule, found⟩), found.named⟩

end Evaluation

namespace Assessment

open Evaluation

theorem mem_findings_iff {catalog : Catalog} (named : Named catalog) {rule : Rule}
    (listed : rule ∈ catalog.rules) (d : Dialect) (unit : SourceUnit) {finding : Finding} :
    finding ∈ (assess catalog d unit).findings ∧ finding.ruleId = rule.id ↔
      ∃ path node, (Script.read d unit.text).root.at? path = some node ∧ node.kind ≠ .unparsed ∧
        rule.target = node.kind ∧ applyRule ⟨catalog, unit.id, .ofText unit.text⟩
          ((Script.read d unit.text).root.ancestors path) node rule = some finding := by
  have all := @aggregate_evaluate ⟨catalog, unit.id, .ofText unit.text⟩ _ named
    (Script.read_distinct d unit.text)
  have found := @Named.foundBy_iff ⟨catalog, unit.id, .ofText unit.text⟩
    (Script.read d unit.text).root _ finding named listed
  rw [(assess_read ..).2, all.mem_iff, found]
  exact and_iff_right listed

end Assessment
end SqlAudit
