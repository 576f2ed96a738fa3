import SqlAudit.Proofs.Assessment.Findings
import SqlAudit.Proofs.Assessment.Upgrade
import SqlAudit.Proofs.Script.Methods
/-!
Methods by which tables are stored. In every version of the catalog that comes with the program one
rule looks for methods anywhere within a table: it finds that of the table itself, and that of each
index which a constraint of the table is checked by.
-/
namespace SqlAudit

namespace Catalog.Builtin

/-- What the catalog says of access methods within tables. -/
def methodRule : Rule :=
  ⟨"parameter-using-method", .accessMethod, .within .createTable none, .blocker,
    "Table access method \x7bvalue\x7d is not supported"⟩

theorem exists_methodRule {version : Option String} (known : IsVersion version) :
    ∃ catalog, builtin version = .ok catalog ∧ Evaluation.Named catalog ∧
      methodRule ∈ catalog.rules :=
  exists_rule known (List.mem_of_getElem? (i := 9) rfl) (by decide) (by decide)

/-- What the rule says about a method. -/
def methodFinding (context : Evaluation.Context) (method : Node) : Finding :=
  .locate context.lines context.unitId "parameter-using-method" .blocker
    (Rule.render "Table access method \x7bvalue\x7d is not supported" method.value method.kind none)
    method.span

theorem applyRule_methodRule (context : Evaluation.Context) (ancestors : List Node) (node : Node)
    {finding : Finding} : Evaluation.applyRule context ancestors node methodRule = some finding ↔
      (∃ table ∈ ancestors, table.kind = .createTable) ∧ finding = methodFinding context node := by
  have within : (ancestors.any fun ancestor => ancestor.kind = .createTable &&
      (none : Option NodeKind).all ancestor.hasChild) = true ↔
        ∃ table ∈ ancestors, table.kind = .createTable := by
    simp [List.any_eq_true]
  unfold Evaluation.applyRule
  rw [methodRule, Check.evaluate, Check.matchIf]
  by_cases inside : ∃ table ∈ ancestors, table.kind = .createTable
  · rw [if_pos (within.mpr inside)]
    simp only [inside, true_and, Option.some_inj]
    exact eq_comm
  · rw [if_neg (fun found => inside (within.mp found))]
    simp [inside]

end Catalog.Builtin

open Catalog.Builtin in
/-- In every version, the methods that are reported as those of tables are the ones named by a table
itself and by constraints within a table. -/
theorem table_methods_reported {version : Option String} (known : IsVersion version) :
    ∃ catalog, Catalog.builtin version = .ok catalog ∧ ∀ d text id finding,
      (finding ∈ (Assessment.assess catalog d ⟨id, text⟩).findings ∧
          finding.ruleId = "parameter-using-method") ↔
        ∃ (path : List Nat) (i : Nat) (parent node : Node),
          (Script.read d text).root.at? path = some parent ∧
          parent.children[i]? = some node ∧ node.kind = .accessMethod ∧
          (parent.kind = .createTable ∨ parent.kind = .tableConstraint ∧
            ∃ table ∈ (Script.read d text).root.ancestors path, table.kind = .createTable) ∧
          finding = methodFinding ⟨catalog, id, .ofText text⟩ node := by
  obtain ⟨catalog, loaded, named, listed⟩ := exists_methodRule known
  refine ⟨catalog, loaded, fun d text id finding => ?_⟩
  have found := @Assessment.mem_findings_iff catalog named methodRule listed d ⟨id, text⟩ finding
  constructor
  · intro reported
    obtain ⟨path, node, reached, -, target, applied⟩ := found.mp reported
    obtain ⟨within, same⟩ := (applyRule_methodRule ..).mp applied
    rcases List.eq_nil_or_concat path with rfl | ⟨path, i, rfl⟩
    · cases reached
      cases target
    · rw [List.concat_eq_append] at reached within
      rw [Node.at?_append] at reached
      obtain ⟨parent, above, last⟩ := Option.bind_eq_some_iff.mp reached
      obtain ⟨child, listed, here⟩ := Node.at?_cons.mp last
      cases here
      exact ⟨path, i, parent, node, above, listed, target.symm,
        (Script.method_within_table above listed target.symm).mp within, same⟩
  · rintro ⟨path, i, parent, node, above, listed, method, place, same⟩
    refine found.mpr ⟨path ++ [i], node, ?_, by simp [method], method.symm, ?_⟩
    · rw [Node.at?_append, above]
      exact Node.at?_cons.mpr ⟨node, listed, rfl⟩
    · exact (applyRule_methodRule ..).mpr
        ⟨(Script.method_within_table above listed method).mpr place, same⟩

/-- A table that names its method. -/
theorem heap_method_reported :
    Catalog.Builtin.IsVersion none ∧ ∃ catalog, Catalog.builtin none = .ok catalog ∧
      ∃ finding ∈ (Assessment.assess catalog .postgres
        ⟨"u", "CREATE TABLE t (a int) USING heap"⟩).findings,
        finding.ruleId = "parameter-using-method" ∧
          finding.message = "Table access method heap is not supported" := by
  have known : Catalog.Builtin.IsVersion none := by decide
  obtain ⟨catalog, loaded, reported⟩ := table_methods_reported known
  have parsed : ((Script.read .postgres "CREATE TABLE t (a int) USING heap").root.at? [0]).any
      (fun table => table.kind = .createTable ∧ (table.children[2]?).any (fun method =>
        method.kind = .accessMethod ∧ method.value = some "heap") = true) = true := by
    decide +kernel
  obtain ⟨table, reached, facts⟩ := (Option.any_eq_true ..).mp parsed
  obtain ⟨kind, inside⟩ := of_decide_eq_true facts
  obtain ⟨node, child, facts⟩ := (Option.any_eq_true ..).mp inside
  obtain ⟨method, heap⟩ := of_decide_eq_true facts
  obtain ⟨member, name⟩ := (reported .postgres "CREATE TABLE t (a int) USING heap" "u" _).mpr
    ⟨[0], 2, table, node, reached, child, method, .inl kind, rfl⟩
  refine ⟨known, catalog, loaded, _, member, name, ?_⟩
  show Rule.render _ node.value node.kind none = _
  rw [method, heap]
  decide +kernel

/-- The index method of a constraint is reported as that of the table by every version. -/
theorem exclusion_method_reported :
    let text := "CREATE TABLE t (c int, EXCLUDE USING gist (c WITH =))"
    ∃ constraint node, (Script.read .postgres text).root.at? [0, 2] = some constraint ∧
      constraint.kind = .tableConstraint ∧ constraint.children[0]? = some node ∧
      node.kind = .accessMethod ∧
      ∀ version, Catalog.Builtin.IsVersion version → ∃ catalog,
        Catalog.builtin version = .ok catalog ∧ ∀ id,
          ∃ finding ∈ (Assessment.assess catalog .postgres ⟨id, text⟩).findings,
            finding.ruleId = "parameter-using-method" ∧ finding.span = node.span ∧
            finding.message = "Table access method gist is not supported" := by
  intro text
  have parsed : ((Script.read .postgres text).root.at? [0, 2]).any (fun constraint =>
      constraint.kind = .tableConstraint ∧
      ((Script.read .postgres text).root.ancestors [0, 2, 0]).any (·.kind = .createTable) = true ∧
      (constraint.children[0]?).any (fun method =>
        method.kind = .accessMethod ∧ method.value = some "gist") = true) = true := by
    decide +kernel
  obtain ⟨constraint, above, facts⟩ := (Option.any_eq_true ..).mp parsed
  obtain ⟨kind, around, inside⟩ := of_decide_eq_true facts
  obtain ⟨node, child, facts⟩ := (Option.any_eq_true ..).mp inside
  obtain ⟨method, gist⟩ := of_decide_eq_true facts
  obtain ⟨table, member, create⟩ := List.any_eq_true.mp around
  have reached : (Script.read .postgres text).root.at? [0, 2, 0] = some node := by
    rw [show [0, 2, 0] = [0, 2] ++ [0] from rfl, Node.at?_append, above]
    exact Node.at?_cons.mpr ⟨node, child, rfl⟩
  refine ⟨constraint, node, above, kind, child, method, fun version known => ?_⟩
  obtain ⟨catalog, loaded, named, listed⟩ := Catalog.Builtin.exists_methodRule known
  refine ⟨catalog, loaded, fun id => ?_⟩
  have applied := (Catalog.Builtin.applyRule_methodRule ⟨catalog, id, .ofText text⟩ _ node).mpr
    ⟨⟨table, member, of_decide_eq_true create⟩, rfl⟩
  obtain ⟨reported, name⟩ := (Assessment.mem_findings_iff named listed .postgres ⟨id, text⟩).mpr
    ⟨[0, 2, 0], node, reached, by simp [method], method.symm, applied⟩
  refine ⟨_, reported, name, rfl, ?_⟩
  show Rule.render _ node.value node.kind none = _
  rw [method, gist]
  decide +kernel

end SqlAudit
