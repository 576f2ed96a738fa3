import SqlAudit.Proofs.Evaluation.Independence
import SqlAudit.Proofs.Script.Distinct
/-!
What a rule has to say about a script does not depend on the other rules. It is found node by node
whatever else the catalog holds; but a result drops a finding only if it repeats the one just before
it, so one that repeats another of a different severity comes and goes with what stands between.
-/
namespace SqlAudit

namespace Evaluation

open Finding (notOf aggregate parts sort repeats)

variable {r unitId version version' : String} {lines : LineIndex} {first second : List Rule}
  {c c' : Catalog}

theorem evaluate_agree (agree : AgreeBut r c c') (root : Node) :
    (evaluate ⟨c, unitId, lines⟩ root).filter (notOf r) =
      (evaluate ⟨c', unitId, lines⟩ root).filter (notOf r) := by
  rw [evaluate_eq_visit, evaluate_eq_visit, visit_agree agree]

/-- Findings that do not repeat each other are no neighbours that do. -/
theorem no_repeats_of_distinct {found : List Finding} {a b : Finding}
    (distinct : Finding.Distinct (notOf r) found)
    (neighbours : [a, b] <:+: sort (found.filter (notOf r))) : b.repeats a = false := by
  have sorted := distinct.perm (Finding.sort_perm found).symm
  rw [Finding.Distinct, Finding.filter_sort] at sorted
  have pair := sorted.sublist neighbours.sublist
  exact List.rel_of_pairwise_cons pair (.head _)

theorem evaluate_distinct {context : Context} {root : Node} (named : Named context.catalog)
    (distinct : root.Distinct) : Finding.Distinct (notOf r) (evaluate context root) := by
  rw [Finding.Distinct, evaluate_eq_visit]
  exact (visit_distinct named distinct).filter _

end Evaluation

open Evaluation Finding in
/-- Two catalogs of the same rules but for those called `r` find the same by all the others, in the
same order. Their results agree on them exactly if findings of `r` come in both between the same two
neighbours that repeat each other but differ in severity. For a text and rules that leave the name
of its regions alone there are no such neighbours, so there the results agree. -/
theorem rule_independent {version version' r : String} {first second : List Rule} {c c' : Catalog}
    (built : Catalog.ofRules version first = .ok c)
    (built' : Catalog.ofRules version' second = .ok c')
    (same : first.filter (·.id != r) = second.filter (·.id != r))
    (unitId : String) (lines : LineIndex) (root : Node) :
    let found := evaluate ⟨c, unitId, lines⟩ root
    let found' := evaluate ⟨c', unitId, lines⟩ root
    found.filter (notOf r) = found'.filter (notOf r) ∧
    ((aggregate found).filter (notOf r) = (aggregate found').filter (notOf r) ↔
      ∀ a b, [a, b] <:+: sort (found.filter (notOf r)) → b.repeats a → a.severity ≠ b.severity →
        parts r found a b = parts r found' a b) ∧
    ∀ d text, root = (Script.read d text).root → (∀ rule ∈ first, rule.id ≠ unparsedRule) →
      (aggregate found).filter (notOf r) = (aggregate found').filter (notOf r) := by
  intro found found'
  have others : found.filter (notOf r) = found'.filter (notOf r) :=
    evaluate_agree (agreeBut_ofRules built built' same) root
  have exactly := filter_aggregate_eq_iff others
  refine ⟨others, exactly, ?_⟩
  intro d text parsed quiet
  have members := Catalog.ofRules_named built
  have named : Named c := ⟨members.1, fun rule listed => quiet rule (members.2.mem_iff.mp listed)⟩
  have distinct : Finding.Distinct (notOf r) found := by
    apply evaluate_distinct named
    rw [parsed]
    exact Script.read_distinct d text
  apply exactly.mpr
  intro a b neighbours repeated
  rw [no_repeats_of_distinct distinct neighbours] at repeated
  cases repeated

/-- A rule for columns that looks at queries instead, where it fails. -/
theorem retargeted_rule_independent : ∃ list column capacity : Rule,
    list = ⟨"list", .selectList, .present, .info, "a list"⟩ ∧
    column = ⟨"column", .columnRef, .present, .info, "a column"⟩ ∧
    capacity = ⟨"column", .select, .sequenceCapacity .standard, .blocker, "a sequence"⟩ ∧
    ∃ c c', Catalog.ofRules "1" [list, column] = .ok c ∧
      Catalog.ofRules "1" [capacity, list] = .ok c' ∧
      [list, column].filter (·.id != "column") = [capacity, list].filter (·.id != "column") ∧
      (Finding.aggregate (Evaluation.evaluate ⟨c, "u", .ofText "SELECT a"⟩
          (Script.read .postgres "SELECT a").root)).filter (Finding.notOf "column") =
        (Finding.aggregate (Evaluation.evaluate ⟨c', "u", .ofText "SELECT a"⟩
          (Script.read .postgres "SELECT a").root)).filter (Finding.notOf "column") := by
  have built := @Catalog.ofRules_ranked "1" [⟨"list", .selectList, .present, .info, "a list"⟩,
    ⟨"column", .columnRef, .present, .info, "a column"⟩] rfl (by decide)
  have built' := @Catalog.ofRules_ranked "1"
    [⟨"column", .select, .sequenceCapacity .standard, .blocker, "a sequence"⟩,
      ⟨"list", .selectList, .present, .info, "a list"⟩] rfl (by decide)
  obtain ⟨-, -, parsed⟩ := rule_independent (r := "column") built built' rfl "u"
    (.ofText "SELECT a") (Script.read .postgres "SELECT a").root
  exact ⟨_, _, _, rfl, rfl, rfl, _, _, built, built', rfl,
    parsed .postgres "SELECT a" rfl (by decide)⟩

/-- Without the rule `review` the finding of another rule about the whole script is gone: it repeats
the one about the region, and nothing stands between the two any more. -/
theorem review_keeps_another : ∃ region review : Rule,
    region = ⟨"unparsed-region", .script, .present, .warning, "a script"⟩ ∧
    review = ⟨"review", .script, .present, .warning, "to review"⟩ ∧
    ∃ c c', Catalog.ofRules "1" [region, review] = .ok c ∧ Catalog.ofRules "1" [region] = .ok c' ∧
      [region, review].filter (·.id != "review") = [region].filter (·.id != "review") ∧
      (Finding.aggregate (Evaluation.evaluate ⟨c, "u", .ofText "SELEKT 1"⟩
          (Script.read .postgres "SELEKT 1").root)).filter (Finding.notOf "review") ≠
        (Finding.aggregate (Evaluation.evaluate ⟨c', "u", .ofText "SELEKT 1"⟩
          (Script.read .postgres "SELEKT 1").root)).filter (Finding.notOf "review") := by
  refine ⟨_, _, rfl, rfl, _, _, Catalog.ofRules_ranked rfl (by decide),
    Catalog.ofRules_ranked rfl (by decide), rfl, ?_⟩
  rw [Finding.aggregate_eq_insertionSort, Finding.aggregate_eq_insertionSort]
  decide +kernel

end SqlAudit
