import SqlAudit.Proofs.Assessment.WellFormed
import SqlAudit.Proofs.Finding.Aggregation
import SqlAudit.Proofs.Report.Rollup
import SqlAudit.Proofs.Script.Regions
/-!
Syntax errors, from the tree to the report. Each error has its region and each region its finding,
which no other one repeats, so none is lost on the way to the result of a unit; and nothing else is
found in a region but what rules say about the script as a whole.
-/
namespace SqlAudit

namespace Evaluation

variable {context : Context} {above : List Node}

/-- Findings about regions that could not be read. -/
def aboutRegion (finding : Finding) : Bool := finding.ruleId == unparsedRule

theorem nodeFindings_quiet (quiet : ∀ rule ∈ context.catalog.rules, rule.id ≠ unparsedRule)
    {node : Node} (parsed : node.kind ≠ .unparsed) :
    ∀ finding ∈ nodeFindings context above node, aboutRegion finding = false := by
  intro finding member
  rcases mem_nodeFindings_cases member with ⟨unread, -⟩ | ⟨-, rule, inside, -, applied⟩
  · exact absurd unread parsed
  · have id := (applyRule_about applied).1
    simp [aboutRegion, id, quiet rule inside]

theorem visit_quiet (quiet : ∀ rule ∈ context.catalog.rules, rule.id ≠ unparsedRule)
    {node : Node} (parsed : node.Every (·.kind ≠ .unparsed)) :
    (visit context above node).filter aboutRegion = [] := by
  apply List.filter_eq_nil_iff.mpr
  intro finding member
  obtain ⟨path, part, reached, about⟩ := exists_path_of_visit node member
  simp [nodeFindings_quiet quiet (parsed.at? reached).here finding about]

theorem visit_region (span : Span) (value : Option String) :
    (visit context above (.leaf .unparsed span value)).filter aboutRegion =
      [unparsedFinding context (.leaf .unparsed span value)] := rfl

/-- Of statements, the regions make findings about regions, one each. -/
theorem visitAll_regions (quiet : ∀ rule ∈ context.catalog.rules, rule.id ≠ unparsedRule)
    {nodes : List Node} (split : ∀ node ∈ nodes,
      (∃ span value, node = .leaf .unparsed span value) ∨ node.Every (·.kind ≠ .unparsed)) :
    (visitAll context above nodes).filter aboutRegion =
      (nodes.filter (·.kind = .unparsed)).map (unparsedFinding context) := by
  induction nodes with
  | nil => rfl
  | cons node nodes ih =>
      have rest := ih fun n member => split n (.tail _ member)
      rw [visitAll, List.filter_append, rest]
      rcases split node (.head _) with ⟨span, value, rfl⟩ | parsed
      · rw [visit_region, List.filter_cons_of_pos (by rfl)]
        rfl
      · have other : node.kind ≠ .unparsed := parsed.here
        rw [visit_quiet quiet parsed, List.filter_cons_of_neg (by simpa using other)]
        rfl

/-- What is said of a region that was given up for an error. -/
def regionFinding (context : Context) (region : Node) (error : SyntaxError) : Finding :=
  .locate context.lines context.unitId unparsedRule .blocker
    ("Statement could not be parsed: " ++ error.message) region.span

theorem unparsedFinding_regions {tokens : List Token} {regions : List Node}
    {errors : List SyntaxError} (pairs : List.Forall₂ (Script.GivenUp tokens) regions errors) :
    regions.map (unparsedFinding context) =
      List.zipWith (regionFinding context) regions errors := by
  induction pairs with
  | nil => rfl
  | cons pair rest ih =>
      rw [List.map_cons, List.zipWith_cons_cons, ih, unparsedFinding, regionFinding, pair.value]
      rfl

theorem exists_blocker (context : Context) {tokens : List Token} {regions : List Node}
    {errors : List SyntaxError} (pairs : List.Forall₂ (Script.GivenUp tokens) regions errors)
    (some : errors ≠ []) :
    ∃ finding ∈ List.zipWith (regionFinding context) regions errors,
      finding.severity = .blocker := by
  cases pairs with
  | nil => exact absurd rfl some
  | cons pair rest => exact ⟨_, .head _, rfl⟩

end Evaluation

namespace Script

theorem unparsed_path (d : Dialect) (text : String) {path : List Nat} {node : Node}
    (reached : (read d text).root.at? path = some node) (unread : node.kind = .unparsed) :
    path.length = 1 ∧ node.children = [] := by
  cases path with
  | nil =>
      cases reached
      cases unread
  | cons i path =>
      obtain ⟨statement, found, reached⟩ := Node.at?_cons.mp reached
      rcases read_mem d text statement (List.mem_of_getElem? found) with
        ⟨span, value, rfl⟩ | every
      · cases path with
        | nil =>
            cases reached
            exact ⟨rfl, rfl⟩
        | cons j path => simp [Node.at?, Node.leaf] at reached
      · exact absurd unread (every.1.at? reached).here

end Script

/-- A blocker makes a unit fail. -/
theorem SeverityCounts.status_blocker {result : UnitResult} {finding : Finding}
    (member : finding ∈ result.findings) (blocks : finding.severity = .blocker) :
    (Report.ofResult result).status = .fail := by
  rw [Report.ofResult, UnitResult.counts, SeverityCounts.ofFindings_eq_tally,
    Status.ofCounts_eq_fail]
  exact ⟨finding, member, blocks⟩

namespace Evaluation

/-- Findings about different regions do not repeat each other. -/
theorem regionFindings_distinct {script : Script}
    (apart : script.root.children.Pairwise fun first second =>
      first.span.stop ≤ second.span.start)
    (solid : ∀ statement ∈ script.root.children, statement.Solid) :
    (script.regions.map (unparsedFinding context)).Pairwise fun a b => b.repeats a = false := by
  rw [List.pairwise_map]
  apply (apart.filter _).imp_of_mem
  intro first second left right before
  have nonempty := solid first (List.mem_filter.mp left).1
  rw [← Bool.not_eq_true, Finding.repeats_iff]
  rintro ⟨-, same, -⟩
  have start : second.span.start = first.span.start := congrArg Span.start same
  rw [Node.Solid] at nonempty
  omega

/-- A finding about a node below the root, but inside a region, is the one about the region. -/
theorem about_region (d : Dialect) (text : String) {region node : Node} {i : Nat}
    {path : List Nat} {finding : Finding} (member : region ∈ (Script.read d text).regions)
    (reached : (Script.read d text).root.at? (i :: path) = some node)
    (about : finding ∈ nodeFindings context
      ((Script.read d text).root.ancestors (i :: path)) node)
    (inside : region.span.contains finding.span = true) :
    finding = unparsedFinding context region := by
  obtain ⟨apart, solid⟩ := Script.read_disjoint d text
  obtain ⟨listed, unread⟩ := List.mem_filter.mp member
  rw [(mem_nodeFindings_about about).1] at inside
  obtain ⟨statement, found, reached⟩ := Node.at?_cons.mp reached
  have among := List.mem_of_getElem? found
  have row := (Node.nested_iff_row _).mp (Script.read_nested d text)
  have within := (Node.nested_at? (Node.row_mem row statement among).1 reached).2
  have nonempty := ((Script.read_solid d text statement among).at? reached).here
  have same := Script.contains_unique apart nonempty among listed within inside
  subst same
  rcases Script.read_mem d text statement among with ⟨span, value, rfl⟩ | parsed
  · cases path with
    | nil =>
        cases reached
        rcases mem_nodeFindings_cases about with ⟨-, same⟩ | ⟨read, -⟩
        · exact same
        · exact absurd rfl read
    | cons j path => simp [Node.at?, Node.leaf] at reached
  · exact absurd (by simpa using unread) parsed.1.here

end Evaluation

open Evaluation in
/-- Regions that could not be read are leaves right below the root and go one by one with the
errors, which are met further and further on. With a catalog that has no rule of the same name, a
unit has syntax errors if there is one, fails for it, and has one blocker for each; whatever else
is found in a region is about the script as a whole. -/
theorem regions_match_errors (d : Dialect) (text : String) :
    (∀ path node, (Script.read d text).root.at? path = some node → node.kind = .unparsed →
      path.length = 1 ∧ node.children = []) ∧
    List.Forall₂ (Script.GivenUp (tokenize d text))
      (Script.read d text).regions (Script.read d text).errors ∧
    ((Script.read d text).errors.Pairwise fun first second =>
      first.span.start < second.span.start) ∧
    ∀ (catalog : Catalog) (id : String), (∀ rule ∈ catalog.rules, rule.id ≠ unparsedRule) →
      let context : Context := ⟨catalog, id, .ofText text⟩
      let result := Assessment.assess catalog d ⟨id, text⟩
      (result.outcome = .syntaxErrors ↔ (Script.read d text).errors ≠ []) ∧
      (result.findings.filter (·.ruleId == unparsedRule)).Perm
        (List.zipWith (regionFinding context)
          (Script.read d text).regions (Script.read d text).errors) ∧
      (∀ region ∈ (Script.read d text).regions, ∀ finding ∈ result.findings,
        region.span.contains finding.span = true →
          finding = unparsedFinding context region ∨
          finding ∈ nodeFindings context [] (Script.read d text).root) ∧
      ((Script.read d text).errors ≠ [] → (Report.ofResult result).status = .fail) := by
  have pairs := Script.read_regions d text
  obtain ⟨apart, solid⟩ := Script.read_disjoint d text
  refine ⟨fun path node => Script.unparsed_path d text, pairs,
    Script.read_errors_increasing d text, ?_⟩
  intro catalog id quiet context result
  obtain ⟨outcome, findings⟩ := Assessment.assess_read catalog d ⟨id, text⟩
  have split : ∀ node ∈ (Script.read d text).root.children,
      (∃ span value, node = .leaf .unparsed span value) ∨ node.Every (·.kind ≠ .unparsed) := by
    intro node member
    exact (Script.read_mem d text node member).imp_right And.left
  have found : (evaluate context (Script.read d text).root).filter aboutRegion =
      (Script.read d text).regions.map (unparsedFinding context) := by
    have root : ∀ finding ∈ nodeFindings context [] (Script.read d text).root,
        aboutRegion finding = false := by
      apply nodeFindings_quiet quiet
      simp [Script.read, Script.ofTokens, Script.nameOptions]
    rw [evaluate_eq_visit, visit_eq, List.filter_append, visitAll_regions quiet split,
      List.filter_eq_nil_iff.mpr fun finding member => by simp [root finding member]]
    rfl
  have distinct : Finding.Distinct aboutRegion (evaluate context (Script.read d text).root) := by
    rw [Finding.Distinct, found]
    exact regionFindings_distinct apart solid
  have kept := Finding.filter_aggregate (fun a b same => by simp [aboutRegion, same]) distinct
  rw [found, unparsedFinding_regions pairs, ← findings] at kept
  refine ⟨?_, kept, ?_, ?_⟩
  · rw [outcome]
    cases errors : (Script.read d text).errors <;> simp [Script.isComplete, errors]
  · intro region member finding reported inside
    rw [findings] at reported
    obtain ⟨path, node, reached, about⟩ :=
      mem_evaluate.mp (Finding.mem_of_aggregate reported)
    cases path with
    | nil =>
        cases reached
        exact .inr about
    | cons i path =>
        left
        exact about_region d text member reached about inside
  · intro some
    obtain ⟨finding, listed, blocks⟩ := exists_blocker context pairs some
    have reported := (List.mem_filter.mp (kept.mem_iff.mpr listed)).1
    exact SeverityCounts.status_blocker reported blocks

/-- Two of three statements given up, one at the end of the text, with a catalog that has a rule
for the one between them. -/
theorem regions_match_two_errors :
    (∀ rule ∈ [(⟨"insert", .insert, .present, .warning, "INSERT"⟩ : Rule)],
      rule.id ≠ Evaluation.unparsedRule) ∧
    (Script.read .postgres "SELEKT 1;\nINSERT INTO t VALUES (1);\nSELECT (").errors ≠ [] ∧
    (Report.ofResult (Assessment.assess
      ⟨"1", [⟨"insert", .insert, .present, .warning, "INSERT"⟩]⟩ .postgres
      ⟨"u", "SELEKT 1;\nINSERT INTO t VALUES (1);\nSELECT ("⟩)).status = .fail := by
  have quiet : ∀ rule ∈ [(⟨"insert", .insert, .present, .warning, "INSERT"⟩ : Rule)],
      rule.id ≠ Evaluation.unparsedRule := by decide
  have errors : (Script.read .postgres
      "SELEKT 1;\nINSERT INTO t VALUES (1);\nSELECT (").errors ≠ [] := by decide +kernel
  refine ⟨quiet, errors, ?_⟩
  obtain ⟨-, -, -, assessed⟩ := regions_match_errors .postgres
    "SELEKT 1;\nINSERT INTO t VALUES (1);\nSELECT ("
  have result := assessed ⟨"1", [⟨"insert", .insert, .present, .warning, "INSERT"⟩]⟩ "u" quiet
  exact result.2.2.2 errors

end SqlAudit
