import SqlAudit.Proofs.Evaluation.Visit
import SqlAudit.Proofs.Tree.Walk
/-!
What an evaluation comes to, said without the walk. The findings of a tree are those about its root
and then those of its parts one after another, each made with the nodes above it, from the root
down. About a node itself each rule for its kind says at most one thing, in the order of the
catalog: that it matches, or that it could not be applied.
-/
namespace SqlAudit

namespace Evaluation

variable {context : Context} {ancestors : List Node} {node : Node} {findings : List Finding}

/-- What one rule says about a node below these ancestors. -/
inductive RuleFinds (context : Context) (ancestors : List Node) (node : Node) (rule : Rule) :
    Option Finding → Prop
  | silent (passes : rule.check.evaluate node ancestors = .ok none) :
      RuleFinds context ancestors node rule none
  | matched {found : Match} (holds : rule.check.evaluate node ancestors = .ok (some found)) :
      RuleFinds context ancestors node rule (some
        ⟨rule.id, rule.severity, Rule.render rule.message node.value node.kind found.detail,
          context.lines.position node.span.start, node.span, context.unitId⟩)
  | faulted {fault : RuleFault} (fails : rule.check.evaluate node ancestors = .error fault) :
      RuleFinds context ancestors node rule (some
        ⟨rule.id, .info, "Rule evaluation failed: " ++ fault.message,
          context.lines.position node.span.start, node.span, context.unitId⟩)

/-- What the rules of a list say about a node, one after another. -/
inductive RulesFind (context : Context) (ancestors : List Node) (node : Node) :
    List Rule → List Finding → Prop
  | done : RulesFind context ancestors node [] []
  | elsewhere {rule : Rule} {rules : List Rule} {findings : List Finding}
      (other : rule.target ≠ node.kind) (rest : RulesFind context ancestors node rules findings) :
      RulesFind context ancestors node (rule :: rules) findings
  | applied {rule : Rule} {rules : List Rule} {said : Option Finding} {findings : List Finding}
      (target : rule.target = node.kind) (here : RuleFinds context ancestors node rule said)
      (rest : RulesFind context ancestors node rules findings) :
      RulesFind context ancestors node (rule :: rules) (said.toList ++ findings)

/-- What there is to find about a node itself. -/
inductive OwnFindings (context : Context) (ancestors : List Node) (node : Node) :
    List Finding → Prop
  | region (unparsed : node.kind = .unparsed) :
      OwnFindings context ancestors node
        [⟨"unparsed-region", .blocker,
          "Statement could not be parsed: " ++ node.value.getD "syntax error",
          context.lines.position node.span.start, node.span, context.unitId⟩]
  | rules {findings : List Finding} (parsed : node.kind ≠ .unparsed)
      (find : RulesFind context ancestors node context.catalog.rules findings) :
      OwnFindings context ancestors node findings

mutual

/-- The findings of a tree below these ancestors: those about its root, then those of its parts. -/
inductive Evaluates (context : Context) : List Node → Node → List Finding → Prop
  | node {ancestors : List Node} {node : Node} {own below : List Finding}
      (here : OwnFindings context ancestors node own)
      (parts : EvaluatesAll context (ancestors ++ [node]) node.children below) :
      Evaluates context ancestors node (own ++ below)

inductive EvaluatesAll (context : Context) : List Node → List Node → List Finding → Prop
  | none {ancestors : List Node} : EvaluatesAll context ancestors [] []
  | some {ancestors : List Node} {node : Node} {nodes : List Node} {first rest : List Finding}
      (here : Evaluates context ancestors node first)
      (later : EvaluatesAll context ancestors nodes rest) :
      EvaluatesAll context ancestors (node :: nodes) (first ++ rest)

end

theorem ruleFinds_iff {rule : Rule} {said : Option Finding} :
    RuleFinds context ancestors node rule said ↔ applyRule context ancestors node rule = said := by
  unfold applyRule
  constructor
  · intro finds
    cases finds with
    | silent passes => rw [passes]
    | matched holds =>
        rw [holds]
        rfl
    | faulted fails =>
        rw [fails]
        rfl
  · intro same
    rw [← same]
    split
    · exact .silent ‹_›
    · exact .matched ‹_›
    · exact .faulted ‹_›

theorem rulesFind_iff (rules : List Rule) : RulesFind context ancestors node rules findings ↔
    (rules.filter fun rule => rule.target = node.kind).filterMap
      (applyRule context ancestors node) = findings := by
  induction rules generalizing findings with
  | nil =>
      constructor
      · intro find
        cases find
        rfl
      · intro same
        rw [← same]
        exact .done
  | cons rule rules ih =>
      by_cases target : rule.target = node.kind
      · have listed := @List.filter_cons_of_pos Rule (·.target = node.kind) rule rules (by simpa)
        have first : (rule :: rules.filter fun rule => rule.target = node.kind).filterMap
            (applyRule context ancestors node) =
              (applyRule context ancestors node rule).toList ++
                (rules.filter fun rule => rule.target = node.kind).filterMap
                  (applyRule context ancestors node) := by
          cases said : applyRule context ancestors node rule with
          | none => rw [List.filterMap_cons_none said, Option.toList_none, List.nil_append]
          | some finding => rw [List.filterMap_cons_some said, Option.toList_some,
              List.singleton_append]
        rw [listed, first]
        constructor
        · intro find
          cases find with
          | elsewhere other rest => exact absurd target other
          | applied target here rest => rw [ruleFinds_iff.mp here, ih.mp rest]
        · intro same
          rw [← same]
          apply RulesFind.applied target
          · exact ruleFinds_iff.mpr rfl
          · exact ih.mpr rfl
      · have left := @List.filter_cons_of_neg Rule (·.target = node.kind) rule rules (by simpa)
        rw [left, ← ih]
        constructor
        · intro find
          cases find with
          | elsewhere other rest => exact rest
          | applied here => exact absurd here target
        · exact RulesFind.elsewhere target

theorem ownFindings_iff : OwnFindings context ancestors node findings ↔
    nodeFindings context ancestors node = findings := by
  unfold nodeFindings
  rw [Catalog.rulesFor_eq]
  constructor
  · intro own
    cases own with
    | region unparsed =>
        rw [if_pos unparsed]
        rfl
    | rules parsed find =>
        rw [if_neg parsed]
        exact (rulesFind_iff _).mp find
  · intro same
    by_cases unparsed : node.kind = .unparsed
    · rw [if_pos unparsed] at same
      cases same
      exact .region unparsed
    · rw [if_neg unparsed] at same
      exact .rules unparsed ((rulesFind_iff _).mpr same)

mutual

theorem evaluates_iff : ∀ (node : Node) (ancestors : List Node) (findings : List Finding),
    Evaluates context ancestors node findings ↔ visit context ancestors node = findings
  | ⟨kind, span, value, children⟩, ancestors, findings => by
    rw [visit]
    constructor
    · intro evaluates
      cases evaluates with
      | node here parts =>
          rw [ownFindings_iff.mp here, (evaluatesAll_iff children _ _).mp parts]
    · intro same
      rw [← same]
      apply Evaluates.node
      · exact ownFindings_iff.mpr rfl
      · exact (evaluatesAll_iff children _ _).mpr rfl

theorem evaluatesAll_iff : ∀ (nodes : List Node) (ancestors : List Node) (findings : List Finding),
    EvaluatesAll context ancestors nodes findings ↔ visitAll context ancestors nodes = findings
  | [], ancestors, findings => by
    rw [visitAll]
    constructor
    · intro evaluates
      cases evaluates
      rfl
    · intro same
      rw [← same]
      exact .none
  | node :: nodes, ancestors, findings => by
    rw [visitAll]
    constructor
    · intro evaluates
      cases evaluates with
      | some here later =>
          rw [(evaluates_iff node _ _).mp here, (evaluatesAll_iff nodes _ _).mp later]
    · intro same
      rw [← same]
      apply EvaluatesAll.some
      · exact (evaluates_iff node _ _).mpr rfl
      · exact (evaluatesAll_iff nodes _ _).mpr rfl

end

/-- The walk visits every node before its parts, and along it the findings of a tree are what the
recursion over its nodes says. -/
theorem evaluate_recursive (context : Context) (root : Node) :
    (∀ visited, Node.Visits [(root, 0)] visited ↔ visited = root.walk) ∧
    ∀ findings, evaluate context root = findings ↔ Evaluates context [] root findings := by
  refine ⟨fun visited => root.visits_iff_walk, fun findings => ?_⟩
  rw [evaluate_eq_visit]
  exact (evaluates_iff root [] findings).symm

end Evaluation
end SqlAudit
