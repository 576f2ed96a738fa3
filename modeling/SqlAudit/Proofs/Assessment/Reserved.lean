import SqlAudit.Proofs.Catalog.Loading
import SqlAudit.Proofs.Evaluation.Visit
import SqlAudit.Proofs.Finding.Canonical
import SqlAudit.Script
/-!
The name under which regions are reported. No loader refuses it to a rule, and where a rule of that
name finds anything, its findings pass for reports of regions and may take their place. Where none
does, whatever goes by the name is the report of a region, and aggregation confuses it with nothing
else.
-/
namespace SqlAudit

/-- The catalog comes of rules or of a definition. -/
inductive Catalog.Loaded (catalog : Catalog) : Prop where
  | rules {version : String} {rules : List Rule} (built : ofRules version rules = .ok catalog) :
      Loaded catalog
  | definition {definition : Definition} {requested : Option String}
      (built : ofDefinition definition requested = .ok catalog) : Loaded catalog

theorem Catalog.Loaded.named {catalog : Catalog} (loaded : catalog.Loaded) :
    (ids catalog.rules).Nodup := by
  cases loaded with
  | rules built => exact (ofRules_named built).1
  | @definition definition requested built =>
      cases resolved : definition.resolve (requested.getD definition.defaultVersion) with
      | error error =>
          rw [ofDefinition, resolved] at built
          cases built
      | ok rules =>
          obtain ⟨other, loaded, built', -⟩ := ofDefinition_resolved resolved
          cases built.symm.trans loaded
          exact (ofRules_named built').1

/-- The rule matches or fails at a node of the tree that it is tried on. -/
def Rule.Fires (rule : Rule) (root : Node) : Prop :=
  ∃ path node, root.at? path = some node ∧ node.kind ≠ .unparsed ∧ rule.target = node.kind ∧
    rule.check.evaluate node (root.ancestors path) ≠ .ok none

namespace Evaluation

open Finding (aggregate)

variable {context : Context} {root : Node} {finding : Finding} {rule : Rule}

/-- The finding is the report of a region of the tree. -/
def Reports (context : Context) (root : Node) (finding : Finding) : Prop :=
  ∃ path node, root.at? path = some node ∧ node.kind = .unparsed ∧
    finding = unparsedFinding context node

/-- The finding is what a rule of the catalog finds at a node of the tree. -/
def FoundBy (context : Context) (root : Node) (rule : Rule) (finding : Finding) : Prop :=
  rule ∈ context.catalog.rules ∧ ∃ path node, root.at? path = some node ∧
    node.kind ≠ .unparsed ∧ rule.target = node.kind ∧
    applyRule context (root.ancestors path) node rule = some finding

/-- Whatever is found at a node under the name for regions blocks and is about a region. -/
def Reserved (context : Context) (root : Node) : Prop :=
  ∀ path node, root.at? path = some node →
    ∀ finding ∈ nodeFindings context (root.ancestors path) node, finding.ruleId = unparsedRule →
      node.kind = .unparsed ∧ finding.severity = .blocker

theorem mem_evaluate_iff : finding ∈ evaluate context root ↔
    Reports context root finding ∨ ∃ rule, FoundBy context root rule finding := by
  rw [mem_evaluate]
  constructor
  · intro ⟨path, node, reached, about⟩
    rcases mem_nodeFindings_cases about with
      ⟨unread, same⟩ | ⟨parsed, rule, listed, target, applied⟩
    · exact .inl ⟨path, node, reached, unread, same⟩
    · exact .inr ⟨rule, listed, path, node, reached, parsed, target, applied⟩
  · intro source
    rcases source with ⟨path, node, reached, unread, same⟩ |
      ⟨rule, listed, path, node, reached, parsed, target, applied⟩
    · refine ⟨path, node, reached, ?_⟩
      rw [nodeFindings, if_pos unread, same]
      exact .head _
    · exact ⟨path, node, reached, mem_nodeFindings_of_rule listed parsed target applied⟩

theorem Reports.named (reports : Reports context root finding) :
    finding.ruleId = unparsedRule ∧ finding.severity = .blocker := by
  obtain ⟨path, node, -, -, rfl⟩ := reports
  exact ⟨rfl, rfl⟩

theorem FoundBy.named (found : FoundBy context root rule finding) : finding.ruleId = rule.id := by
  obtain ⟨-, path, node, -, -, -, applied⟩ := found
  exact (applyRule_about applied).1

theorem FoundBy.fires (found : FoundBy context root rule finding) : rule.Fires root := by
  obtain ⟨-, path, node, reached, parsed, target, applied⟩ := found
  refine ⟨path, node, reached, parsed, target, ?_⟩
  intro silent
  rw [applyRule, silent] at applied
  cases applied

theorem exists_found (listed : rule ∈ context.catalog.rules) (fires : rule.Fires root) :
    ∃ path node finding, root.at? path = some node ∧ node.kind ≠ .unparsed ∧
      finding ∈ nodeFindings context (root.ancestors path) node ∧ finding.ruleId = rule.id := by
  obtain ⟨path, node, reached, parsed, target, counts⟩ := fires
  obtain ⟨finding, applied⟩ : ∃ finding, applyRule context (root.ancestors path) node rule =
      some finding := applyRule_some counts
  have about := mem_nodeFindings_of_rule listed parsed target applied
  exact ⟨path, node, finding, reached, parsed, about, (applyRule_about applied).1⟩

/-- The name is reserved in a tree exactly if the rule of that name finds nothing there. -/
theorem reserved_iff : Reserved context root ↔
    ∀ rule ∈ context.catalog.rules, rule.id = unparsedRule → ¬ rule.Fires root := by
  constructor
  · intro reserved rule listed called fires
    obtain ⟨path, node, finding, reached, parsed, about, name⟩ := exists_found listed fires
    exact parsed (reserved path node reached finding about (name.trans called)).1
  · intro silent path node reached finding about name
    rcases mem_nodeFindings_cases about with
      ⟨unread, same⟩ | ⟨parsed, rule, listed, target, applied⟩
    · rw [same]
      exact ⟨unread, rfl⟩
    · have found : FoundBy context root rule finding :=
        ⟨listed, path, node, reached, parsed, target, applied⟩
      exact absurd found.fires (silent rule listed (found.named.symm.trans name))

theorem Reserved.found_apart (reserved : Reserved context root)
    (found : FoundBy context root rule finding) : finding.ruleId ≠ unparsedRule := by
  intro name
  have called : rule.id = unparsedRule := found.named.symm.trans name
  exact reserved_iff.mp reserved rule found.1 called found.fires

theorem Reserved.reports (reserved : Reserved context root)
    (member : finding ∈ evaluate context root) (name : finding.ruleId = unparsedRule) :
    Reports context root finding := by
  rcases mem_evaluate_iff.mp member with reports | ⟨rule, found⟩
  · exact reports
  · exact absurd name (reserved.found_apart found)

/-- What aggregation keeps in the place of a report is a report too. -/
theorem Reserved.exists_kept (reserved : Reserved context root)
    (reports : Reports context root finding) :
    (∃ kept ∈ aggregate (evaluate context root), kept.repeats finding) ∧
    ∀ kept ∈ aggregate (evaluate context root), kept.repeats finding →
      Reports context root kept := by
  constructor
  · obtain ⟨kept, among, same, -⟩ := Finding.exists_first (mem_evaluate_iff.mpr (.inl reports))
    exact ⟨kept, among, same⟩
  · intro kept among same
    have name := (Finding.repeats_iff.mp same).1
    exact reserved.reports (Finding.mem_of_aggregate among) (name.trans reports.named.1)

/-- In a catalog that was loaded at most one rule goes by the name under which regions are
reported. Where it finds nothing, so in every tree if there is none, a finding of that name is the
report of a region, it blocks, no finding of a rule repeats it, and a report stands for it in what
aggregation keeps. Where it finds something there is such a finding that is about no region. -/
theorem region_name_reserved {catalog : Catalog} (loaded : catalog.Loaded) (unitId : String)
    (lines : LineIndex) (root : Node) :
    let context : Context := ⟨catalog, unitId, lines⟩
    (∀ finding ∈ evaluate context root, finding.ruleId = unparsedRule →
      Reports context root finding ∨
        ∃ rule, catalog.rule? unparsedRule = some rule ∧ FoundBy context root rule finding) ∧
    (Reserved context root ↔
      ∀ rule, catalog.rule? unparsedRule = some rule → ¬ rule.Fires root) ∧
    (catalog.rule? unparsedRule = none → Reserved context root) ∧
    (Reserved context root →
      (∀ finding ∈ evaluate context root, finding.ruleId = unparsedRule →
        Reports context root finding ∧ finding.severity = .blocker) ∧
      ∀ report, Reports context root report →
        (∀ rule found, FoundBy context root rule found → ¬ found.repeats report) ∧
        (∃ kept ∈ aggregate (evaluate context root), kept.repeats report) ∧
        ∀ kept ∈ aggregate (evaluate context root), kept.repeats report →
          Reports context root kept) := by
  intro context
  have called {rule : Rule} : catalog.rule? unparsedRule = some rule ↔
      rule ∈ catalog.rules ∧ rule.id = unparsedRule := Catalog.rule?_eq_some_iff loaded.named
  have exactly : Reserved context root ↔
      ∀ rule, catalog.rule? unparsedRule = some rule → ¬ rule.Fires root := by
    rw [reserved_iff]
    simp only [called, and_imp, context]
  refine ⟨?_, exactly, ?_, ?_⟩
  · intro finding member name
    rcases mem_evaluate_iff.mp member with reports | ⟨rule, found⟩
    · exact .inl reports
    · exact .inr ⟨rule, called.mpr ⟨found.1, found.named.symm.trans name⟩, found⟩
  · intro absent
    apply exactly.mpr
    intro rule present
    cases absent.symm.trans present
  · intro reserved
    constructor
    · intro finding member name
      have reports := reserved.reports member name
      exact ⟨reports, reports.named.2⟩
    · intro report reports
      refine ⟨?_, reserved.exists_kept reports⟩
      intro rule found by_rule same
      have name := (Finding.repeats_iff.mp same).1
      exact reserved.found_apart by_rule (name.trans reports.named.1)

/-- A rule about the whole script, next to the report of the region in it. -/
theorem script_rule_reserved : ∃ rule : Rule,
    rule = ⟨"script", .script, .present, .info, "a script"⟩ ∧
    ∃ catalog, Catalog.ofRules "1" [rule] = .ok catalog ∧ catalog.Loaded ∧
      Reserved ⟨catalog, "u", .ofText "SELEKT 1"⟩ (Script.read .postgres "SELEKT 1").root ∧
      ∃ kept ∈ aggregate
          (evaluate ⟨catalog, "u", .ofText "SELEKT 1"⟩ (Script.read .postgres "SELEKT 1").root),
        kept.ruleId = unparsedRule ∧ kept.severity = .blocker := by
  have built := @Catalog.ofRules_ranked "1" [⟨"script", .script, .present, .info, "a script"⟩]
    rfl (by decide)
  obtain ⟨-, -, absent, kept⟩ := region_name_reserved (.rules built) "u" (.ofText "SELEKT 1")
    (Script.read .postgres "SELEKT 1").root
  have reserved := absent (Catalog.rule?_eq_none_iff.mpr (by decide))
  obtain ⟨only, apart⟩ := kept reserved
  have unread : ((Script.read .postgres "SELEKT 1").root.at? [0]).any
      (fun node => node.kind = .unparsed) = true := by decide +kernel
  obtain ⟨node, reached, kind⟩ := (Option.any_eq_true ..).mp unread
  obtain ⟨-, ⟨report, among, same⟩, -⟩ := apart _ ⟨[0], node, reached, of_decide_eq_true kind, rfl⟩
  have name := (Finding.repeats_iff.mp same).1
  exact ⟨_, rfl, _, built, .rules built, reserved, report, among, name,
    (only report (Finding.mem_of_aggregate among) name).2⟩

/-- A rule about whole scripts that goes by the name for regions. -/
def impostor (severity : Severity) : Rule :=
  ⟨unparsedRule, .script, .present, severity, "A script"⟩

/-- Rules of that name are loaded, both ways. One warns of a script that has no regions, and one
that blocks takes the place of the report of a region in what aggregation keeps. -/
theorem region_name_taken :
    (∀ severity, Catalog.ofRules "1" [impostor severity] = .ok ⟨"1", [impostor severity]⟩ ∧
      Catalog.ofDefinition (.single "1" "1" [impostor severity]) none =
        .ok ⟨"1", [impostor severity]⟩) ∧
    (∃ finding ∈ evaluate ⟨⟨"1", [impostor .warning]⟩, "u", .ofText "SELECT 1"⟩
        (Script.read .postgres "SELECT 1").root,
      finding.ruleId = unparsedRule ∧ finding.severity = .warning) ∧
    ∃ context : Context, context = ⟨⟨"1", [impostor .blocker]⟩, "u", .ofText "SELEKT 1"⟩ ∧
      ∃ report ∈ evaluate context (Script.read .postgres "SELEKT 1").root,
        Reports context (Script.read .postgres "SELEKT 1").root report ∧
        report ∉ aggregate (evaluate context (Script.read .postgres "SELEKT 1").root) := by
  refine ⟨?_, ?_, _, rfl, ?_⟩
  · intro severity
    have sound : Catalog.firstFault? "1" [] [impostor severity] = none := by
      cases severity <;> decide
    have built := Catalog.ofRules_ranked sound (List.pairwise_singleton ..)
    have chosen : (none : Option String).getD "1" = "1" := rfl
    refine ⟨built, (Catalog.ofDefinition_eq_ok_iff chosen).mpr ⟨built, ?_⟩⟩
    cases severity <;> decide
  · decide +kernel
  · have lost : ((Script.read .postgres "SELEKT 1").root.at? [0]).any (fun node =>
        node.kind = .unparsed ∧
        unparsedFinding ⟨⟨"1", [impostor .blocker]⟩, "u", .ofText "SELEKT 1"⟩ node ∉
          aggregate (evaluate ⟨⟨"1", [impostor .blocker]⟩, "u", .ofText "SELEKT 1"⟩
            (Script.read .postgres "SELEKT 1").root)) = true := by
      rw [Finding.aggregate_eq_insertionSort]
      decide +kernel
    obtain ⟨node, reached, facts⟩ := (Option.any_eq_true ..).mp lost
    obtain ⟨unread, dropped⟩ := of_decide_eq_true facts
    have reports (context : Context) : Reports context (Script.read .postgres "SELEKT 1").root
        (unparsedFinding context node) := ⟨[0], node, reached, unread, rfl⟩
    exact ⟨_, mem_evaluate_iff.mpr (.inl (reports _)), reports _, dropped⟩

end Evaluation
end SqlAudit
