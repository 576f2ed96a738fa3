import SqlAudit.Proofs.Assessment.WellFormed
import SqlAudit.Proofs.Catalog.Named
import SqlAudit.Proofs.Evaluation.Distinct
import SqlAudit.Proofs.Script.Distinct
/-!
Whatever is found in a text is in the result. Aggregation drops a finding that repeats another one,
by its rule and span, but those of one text never do: a kind and a span tell the nodes of its tree
apart, though many of them span the same as their only part.
-/
namespace SqlAudit

open Evaluation

/-- No two nodes of the tree of a text are of the same kind and span the same. So the aggregated
findings of a catalog with no rule for regions are all that were found, and those in the result of
a unit tell of each region and of each node on which a rule matches or fails. -/
theorem findings_kept (d : Dialect) (text : String) :
    (Script.read d text).root.Distinct ∧
    ∀ (version : String) (rules : List Rule) (catalog : Catalog),
      Catalog.ofRules version rules = .ok catalog →
      (∀ rule ∈ rules, rule.id ≠ unparsedRule) →
      (∀ unitId lines,
        (Finding.aggregate (evaluate ⟨catalog, unitId, lines⟩ (Script.read d text).root)).Perm
          (evaluate ⟨catalog, unitId, lines⟩ (Script.read d text).root)) ∧
      ∀ (id : String) (path : List Nat) (node : Node),
        (Script.read d text).root.at? path = some node →
        let context : Context := ⟨catalog, id, .ofText text⟩
        let ancestors := (Script.read d text).root.ancestors path
        let result := Assessment.assess catalog d ⟨id, text⟩
        (node.kind = .unparsed → unparsedFinding context node ∈ result.findings) ∧
        (node.kind ≠ .unparsed → ∀ rule ∈ rules, rule.target = node.kind →
          rule.check.evaluate node ancestors ≠ .ok none →
            ∃ finding ∈ result.findings,
              applyRule context ancestors node rule = some finding ∧
              finding.ruleId = rule.id ∧ finding.span = node.span) := by
  have distinct := Script.read_distinct d text
  refine ⟨distinct, ?_⟩
  intro version rules catalog built quiet
  obtain ⟨own, perm⟩ := Catalog.ofRules_named built
  have named : Named catalog := ⟨own, fun rule listed => quiet rule (perm.mem_iff.mp listed)⟩
  have kept : ∀ unitId lines,
      (Finding.aggregate (evaluate ⟨catalog, unitId, lines⟩ (Script.read d text).root)).Perm
        (evaluate ⟨catalog, unitId, lines⟩ (Script.read d text).root) := by
    intro unitId lines
    exact aggregate_evaluate named distinct
  refine ⟨kept, ?_⟩
  intro id path node reached context ancestors result
  have reported : ∀ finding ∈ nodeFindings context ancestors node, finding ∈ result.findings := by
    intro finding about
    rw [(Assessment.assess_read catalog d ⟨id, text⟩).2, (kept id _).mem_iff]
    exact mem_evaluate.mpr ⟨path, node, reached, about⟩
  unfold nodeFindings at reported
  constructor
  · intro unread
    rw [if_pos unread] at reported
    exact reported _ (.head _)
  · intro parsed rule listed target counts
    rw [if_neg parsed] at reported
    obtain ⟨finding, found⟩ : ∃ finding, applyRule context ancestors node rule = some finding :=
      applyRule_some counts
    have chosen : rule ∈ catalog.rulesFor node.kind :=
      Catalog.mem_rulesFor.mpr ⟨perm.mem_iff.mpr listed, target⟩
    have about := applyRule_about found
    exact ⟨finding, reported finding (List.mem_filterMap.mpr ⟨rule, chosen, found⟩), found,
      about.1, about.2.1⟩

/-- The list of a query and the only column in it, each with a rule for it. -/
theorem list_and_column_kept : ∃ list column : Rule,
    list = ⟨"list", .selectList, .present, .info, "a list"⟩ ∧
    column = ⟨"column", .columnRef, .present, .info, "a column"⟩ ∧
    ∃ catalog, Catalog.ofRules "1" [list, column] = .ok catalog ∧
      (∀ rule ∈ [list, column], rule.id ≠ unparsedRule) ∧
      ∃ node, (Script.read .postgres "SELECT a").root.at? [0, 0] = some node ∧
        node.kind = .selectList ∧
        ∃ finding ∈ (Assessment.assess catalog .postgres ⟨"u", "SELECT a"⟩).findings,
          finding.ruleId = "list" ∧ finding.span = node.span := by
  refine ⟨_, _, rfl, rfl, ⟨"1", _⟩, rfl, by decide, ?_⟩
  have listed : ((Script.read .postgres "SELECT a").root.at? [0, 0]).any
      (fun node => node.kind = .selectList) = true := by decide +kernel
  obtain ⟨node, reached, kind⟩ := (Option.any_eq_true ..).mp listed
  have select : node.kind = .selectList := of_decide_eq_true kind
  refine ⟨node, reached, select, ?_⟩
  obtain ⟨-, kept⟩ := findings_kept .postgres "SELECT a"
  obtain ⟨-, reported⟩ := kept "1" [⟨"list", .selectList, .present, .info, "a list"⟩,
    ⟨"column", .columnRef, .present, .info, "a column"⟩] _ rfl (by decide)
  obtain ⟨-, rules⟩ := reported "u" [0, 0] node reached
  obtain ⟨finding, member, -, name, span⟩ := rules (by simp [select])
    ⟨"list", .selectList, .present, .info, "a list"⟩ (.head _) select.symm nofun
  exact ⟨finding, member, name, span⟩

end SqlAudit
