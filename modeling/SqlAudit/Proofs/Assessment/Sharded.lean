import SqlAudit.Proofs.Assessment.Findings
import SqlAudit.Proofs.Assessment.Upgrade
import SqlAudit.Proofs.Rule.Rendering
import SqlAudit.Proofs.Script.Subqueries
import SqlAudit.Proofs.Tree.Ancestors
import SqlAudit.Proofs.Tree.Shape
/-!
Queries within tables that are sharded. In every version of the catalog that comes with the program
one rule looks for them, and it looks for `subquery` nodes: a query is reported if it stands below
such a node of the table. A query after EXISTS or ARRAY stands in a node of another kind, and unless
it is part of a greater one that does not, nothing is said of it.
-/
namespace SqlAudit

namespace Catalog.Builtin

/-- What the catalog says of queries within sharded tables. -/
def shardedRule : Rule :=
  ⟨"sharded-table-subquery", .subquery, .within .createTable (some .shardKey), .warning,
    "Subqueries in the definition of a sharded table are evaluated on each shard"⟩

theorem exists_shardedRule {version : Option String} (known : IsVersion version) :
    ∃ catalog, builtin version = .ok catalog ∧ Evaluation.Named catalog ∧
      shardedRule ∈ catalog.rules :=
  exists_rule known (List.mem_of_getElem? (i := 1) rfl) (by decide) (by decide)

/-- A table with a shard key. -/
def Sharded (node : Node) : Prop := node.kind = .createTable ∧ node.hasChild .shardKey = true

theorem shardedRule_evaluate (node : Node) (ancestors : List Node) :
    ((∃ table ∈ ancestors, Sharded table) →
      shardedRule.check.evaluate node ancestors = .ok (some ⟨none⟩)) ∧
    ((¬ ∃ table ∈ ancestors, Sharded table) →
      shardedRule.check.evaluate node ancestors = .ok none) := by
  have within : ((ancestors.any fun ancestor => ancestor.kind = .createTable &&
      (some NodeKind.shardKey).all ancestor.hasChild) = true) ↔
      ∃ table ∈ ancestors, Sharded table := by
    simp [List.any_eq_true, Sharded]
  rw [← within, shardedRule, Check.evaluate, Check.matchIf]
  constructor
  · intro found
    rw [if_pos found]
  · intro none
    rw [if_neg none]

/-- What the rule says about a query. -/
def shardedFinding (context : Evaluation.Context) (query : Node) : Finding :=
  .locate context.lines context.unitId "sharded-table-subquery" .warning
    "Subqueries in the definition of a sharded table are evaluated on each shard" query.span

theorem applyRule_shardedRule (context : Evaluation.Context) (ancestors : List Node) (node : Node)
    {finding : Finding} : Evaluation.applyRule context ancestors node shardedRule = some finding ↔
      (∃ table ∈ ancestors, Sharded table) ∧ finding = shardedFinding context node := by
  obtain ⟨matched, silent⟩ := shardedRule_evaluate node ancestors
  unfold Evaluation.applyRule
  by_cases sharded : ∃ table ∈ ancestors, Sharded table
  · have braceless : '\x7b' ∉ shardedRule.message.toList := by decide
    have plain := Rule.render_plain braceless node.value node.kind none
    simp only [matched sharded, plain, sharded, true_and, Option.some_inj]
    exact eq_comm
  · simp [silent sharded, sharded]

end Catalog.Builtin

namespace Script

open Node (at?_append at?_cons mem_ancestors_iff)

variable {d : Dialect} {text : String} {path above below : List Nat} {table node query : Node}

/-- No table stands below a subquery. -/
theorem not_below_subquery (reached : (read d text).root.at? above = some node)
    (kind : node.kind = .subquery) (inside : node.at? path = some table) :
    table.kind ≠ .createTable := by
  have only := ((read_subqueries d text).at? reached).here kind
  cases path with
  | nil =>
      cases inside
      rw [kind]
      decide
  | cons i path =>
      obtain ⟨child, found, deeper⟩ := at?_cons.mp inside
      have other := ((only child (List.mem_of_getElem? found)).at? deeper).here
      intro same
      exact other (by rw [same]; decide)

/-- No subquery below a query spans all of its text. -/
theorem not_tight (reached : (read d text).root.at? path = some query)
    (select : query.kind = .select) {i : Nat} (inside : query.at? (i :: below) = some node)
    (kind : node.kind = .subquery) : node.span.contains query.span = false := by
  have tiered := (read_tiered d text).at? reached
  have nested := (Node.nested_at? (read_nested d text) reached).1
  have within := (Node.nested_at? nested inside).2
  rw [← Bool.not_eq_true]
  simp only [Span.contains, Bool.and_eq_true, decide_eq_true_eq] at within ⊢
  intro contains
  have same : node.span = query.span := by
    cases inner : node.span
    cases outer : query.span
    simp only [inner, outer] at within contains
    congr 1 <;> omega
  have lower := Node.tier_lt nested tiered inside same
  rw [kind, select] at lower
  exact absurd lower (by decide)

/-- A subquery below the table or another one spans a query of the table only if it is around that
query, within the table. -/
theorem mem_ancestors_of_contains (reached : (read d text).root.at? path = some table)
    (kind : table.kind = .createTable) (inside : table.at? below = some query)
    (select : query.kind = .select) (there : (read d text).root.at? above = some node)
    (subquery : node.kind = .subquery) (contains : node.span.contains query.span = true) :
    node ∈ table.ancestors below := by
  have whole : (read d text).root.at? (path ++ below) = some query := by
    rw [at?_append, reached]
    exact inside
  rcases Node.prefix_of_contains (read_nested d text) (read_solid d text) there whole contains with
    ⟨rest, split⟩ | ⟨rest, split⟩
  · rcases List.append_eq_append_iff.mp split with ⟨inner, rfl, rfl⟩ | ⟨inner, rfl, rfl⟩
    · rw [at?_append, there] at reached
      exact absurd kind (not_below_subquery there subquery reached)
    · rw [at?_append, reached] at there
      refine (mem_ancestors_iff inside).mpr ⟨inner, rest, ?_, rfl, there⟩
      rintro rfl
      rw [List.append_nil] at inside
      cases there.symm.trans inside
      cases subquery.symm.trans select
  · rw [← split, at?_append, whole] at there
    cases rest with
    | nil =>
        cases there
        cases subquery.symm.trans select
    | cons i rest =>
        rw [not_tight whole select there subquery] at contains
        cases contains

/-- What is around a query of a table spans it. -/
theorem exists_around (reached : (read d text).root.at? path = some table)
    (inside : table.at? below = some query) (around : node ∈ table.ancestors below) :
    ∃ above, (read d text).root.at? above = some node ∧
      (node = table ∨ table ∈ (read d text).root.ancestors above) ∧
      node.span.contains query.span = true := by
  obtain ⟨first, second, more, rfl, there⟩ := (mem_ancestors_iff inside).mp around
  have above : (read d text).root.at? (path ++ first) = some node := by
    rw [at?_append, reached]
    exact there
  refine ⟨path ++ first, above, ?_, ?_⟩
  · cases first with
    | nil =>
        cases there
        exact .inl rfl
    | cons i first => exact .inr ((mem_ancestors_iff above).mpr ⟨path, _, by simp, rfl, reached⟩)
  · have nested := (Node.nested_at? (read_nested d text) above).1
    rw [at?_append, there] at inside
    exact (Node.nested_at? nested inside).2

end Script

open Catalog.Builtin in
/-- In every version, a query within a sharded table is reported exactly if it stands below a
subquery of the table: by a warning about one that spans it. -/
theorem sharded_queries_reported {version : Option String} (known : IsVersion version) :
    ∃ catalog, Catalog.builtin version = .ok catalog ∧ ∀ d text id path below table query,
      (Script.read d text).root.at? path = some table → table.kind = .createTable →
      table.hasChild .shardKey = true → table.at? below = some query → query.kind = .select →
      ((∃ finding ∈ (Assessment.assess catalog d ⟨id, text⟩).findings,
          finding.ruleId = "sharded-table-subquery" ∧ finding.severity = .warning ∧
          finding.span.contains query.span = true) ↔
        ∃ node ∈ table.ancestors below, node.kind = .subquery) := by
  obtain ⟨catalog, loaded, named, listed⟩ := exists_shardedRule known
  refine ⟨catalog, loaded, ?_⟩
  intro d text id path below table query reached kind keyed inside select
  have found := fun finding =>
    @Assessment.mem_findings_iff catalog named shardedRule listed d ⟨id, text⟩ finding
  constructor
  · rintro ⟨finding, member, name, -, contains⟩
    obtain ⟨above, node, there, -, target, applied⟩ := (found finding).mp ⟨member, name⟩
    obtain ⟨-, rfl⟩ := (applyRule_shardedRule ..).mp applied
    exact ⟨node, Script.mem_ancestors_of_contains reached kind inside select there target.symm
      contains, target.symm⟩
  · rintro ⟨node, around, subquery⟩
    obtain ⟨above, there, within, contains⟩ := Script.exists_around reached inside around
    have sharded : ∃ table ∈ (Script.read d text).root.ancestors above, Sharded table := by
      rcases within with rfl | within
      · cases subquery.symm.trans kind
      · exact ⟨table, within, kind, keyed⟩
    have applied := (applyRule_shardedRule ⟨catalog, id, .ofText text⟩ _ node).mpr ⟨sharded, rfl⟩
    obtain ⟨member, name⟩ := (found _).mpr
      ⟨above, node, there, by simp [subquery], subquery.symm, applied⟩
    exact ⟨_, member, name, rfl, contains⟩

/-- A query after EXISTS is reported within one that is searched for a value. -/
theorem query_in_subquery_reported :
    let text := "CREATE TABLE t (id int CHECK (id IN (SELECT 1 WHERE EXISTS (SELECT 2)))) SHARD KEY (id)"
    Catalog.Builtin.IsVersion none ∧ ∃ table test query,
      (Script.read .postgres text).root.at? [0] = some table ∧ table.kind = .createTable ∧
      table.hasChild .shardKey = true ∧ table.at? [1, 1, 0, 1, 0, 1, 0] = some test ∧
      test.kind = .existsTest ∧ table.at? [1, 1, 0, 1, 0, 1, 0, 0] = some query ∧
      query.kind = .select ∧ ∃ catalog, Catalog.builtin none = .ok catalog ∧
        ∃ finding ∈ (Assessment.assess catalog .postgres ⟨"u", text⟩).findings,
          finding.ruleId = "sharded-table-subquery" ∧ finding.severity = .warning ∧
          finding.span.contains query.span = true := by
  intro text
  have known : Catalog.Builtin.IsVersion none := by decide
  obtain ⟨catalog, loaded, reported⟩ := sharded_queries_reported known
  have parsed : ((Script.read .postgres text).root.at? [0]).any (fun table =>
      table.kind = .createTable ∧ table.hasChild .shardKey = true ∧
      (table.at? [1, 1, 0, 1, 0, 1, 0]).any (·.kind = .existsTest) = true ∧
      (table.at? [1, 1, 0, 1, 0, 1, 0, 0]).any (·.kind = .select) = true ∧
      (table.ancestors [1, 1, 0, 1, 0, 1, 0, 0]).any (·.kind = .subquery) = true) = true := by
    decide +kernel
  obtain ⟨table, reached, facts⟩ := (Option.any_eq_true ..).mp parsed
  obtain ⟨kind, keyed, first, second, third⟩ := of_decide_eq_true facts
  obtain ⟨test, there, exists_⟩ := (Option.any_eq_true ..).mp first
  obtain ⟨query, inside, select⟩ := (Option.any_eq_true ..).mp second
  obtain ⟨node, member, subquery⟩ := List.any_eq_true.mp third
  have select := of_decide_eq_true select
  have around := (reported .postgres text "u" _ _ table query reached kind keyed inside select).mpr
    ⟨node, member, of_decide_eq_true subquery⟩
  exact ⟨known, table, test, query, reached, kind, keyed, there, of_decide_eq_true exists_, inside,
    select, catalog, loaded, around⟩

/-- A query after EXISTS alone is reported by no version. -/
theorem exists_query_unreported :
    let text := "CREATE TABLE t (id int CHECK (EXISTS (SELECT 1))) SHARD KEY (id)"
    (∃ table test query, (Script.read .postgres text).root.at? [0] = some table ∧
      table.kind = .createTable ∧ table.hasChild .shardKey = true ∧
      table.at? [1, 1, 0] = some test ∧ test.kind = .existsTest ∧
      test.at? [0] = some query ∧ query.kind = .select) ∧
    ∀ version, Catalog.Builtin.IsVersion version → ∃ catalog,
      Catalog.builtin version = .ok catalog ∧ ∀ id,
        ∀ finding ∈ (Assessment.assess catalog .postgres ⟨id, text⟩).findings,
          finding.ruleId ≠ "sharded-table-subquery" := by
  intro text
  constructor
  · have parsed : ((Script.read .postgres text).root.at? [0]).any (fun table =>
        table.kind = .createTable ∧ table.hasChild .shardKey = true ∧
        (table.at? [1, 1, 0]).any (fun test => test.kind = .existsTest ∧
          (test.at? [0]).any (·.kind = .select) = true) = true) = true := by
      decide +kernel
    obtain ⟨table, reached, facts⟩ := (Option.any_eq_true ..).mp parsed
    obtain ⟨kind, keyed, first⟩ := of_decide_eq_true facts
    obtain ⟨test, there, facts⟩ := (Option.any_eq_true ..).mp first
    obtain ⟨exists_, second⟩ := of_decide_eq_true facts
    obtain ⟨query, inside, select⟩ := (Option.any_eq_true ..).mp second
    exact ⟨table, test, query, reached, kind, keyed, there, exists_, inside,
      of_decide_eq_true select⟩
  · intro version known
    obtain ⟨catalog, loaded, named, listed⟩ := Catalog.Builtin.exists_shardedRule known
    refine ⟨catalog, loaded, fun id finding member name => ?_⟩
    obtain ⟨path, node, reached, -, target, -⟩ :=
      (Assessment.mem_findings_iff named listed .postgres ⟨id, text⟩).mp ⟨member, name⟩
    have none : ∀ entry ∈ (Script.read .postgres text).root.walk, entry.1.kind ≠ .subquery := by
      decide +kernel
    have every := (Node.forall_walkThen (P := (·.kind ≠ .subquery)) _).mp none
    exact (every.1.at? reached).here target.symm

end SqlAudit
