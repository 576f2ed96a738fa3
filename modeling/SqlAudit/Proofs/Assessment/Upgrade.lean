import SqlAudit.Catalog.Builtin
import SqlAudit.Proofs.Assessment.WellFormed
import SqlAudit.Proofs.Catalog.Resolution
import SqlAudit.Proofs.Evaluation.Distinct
import SqlAudit.Proofs.Evaluation.Narrowing
import SqlAudit.Proofs.Script.Distinct
/-!
Newer versions of the engine stop no script that older ones run: their rules that block are those of
the version before, but for some that are gone and some with more exceptions.
-/
namespace SqlAudit

namespace Assessment

/-- What stops a unit from running. -/
def blockers (catalog : Catalog) (d : Dialect) (unit : SourceUnit) : List Finding :=
  (assess catalog d unit).findings.filter (·.severity = .blocker)

open Evaluation in
theorem mem_blockers {catalog : Catalog} (named : Named catalog) {d : Dialect}
    {unit : SourceUnit} {finding : Finding} : finding ∈ blockers catalog d unit ↔
      finding ∈ evaluate ⟨catalog, unit.id, .ofText unit.text⟩ (Script.read d unit.text).root ∧
        finding.severity = .blocker := by
  have all : (Finding.aggregate (evaluate ⟨catalog, unit.id, .ofText unit.text⟩
      (Script.read d unit.text).root)).Perm _ :=
    aggregate_evaluate named (Script.read_distinct d unit.text)
  rw [blockers, List.mem_filter, (assess_read catalog d unit).2, all.mem_iff, decide_eq_true_eq]

/-- A catalog that relaxes another one stops no unit that the other one runs. -/
theorem blockers_subset {c c' : Catalog} (named : Evaluation.Named c)
    (named' : Evaluation.Named c') (relax : Rule.Relax c.rules c'.rules) (d : Dialect)
    (unit : SourceUnit) : blockers c d unit ⊆ blockers c' d unit := by
  intro finding member
  obtain ⟨found, blocks⟩ := (mem_blockers named).mp member
  exact (mem_blockers named').mpr ⟨Evaluation.evaluate_relax relax found blocks, blocks⟩

end Assessment

/-- A version keeps the rules that it neither replaces nor drops. -/
theorem Catalog.Version.mem_applied {version : Version} {inherited : List Rule} {rule : Rule}
    (listed : rule ∈ inherited) (kept : rule.id ∉ version.declarations.map (·.rule.id))
    (enabled : rule.id ∉ version.disabled) : rule ∈ version.applied inherited := by
  refine List.mem_filter.mpr ⟨List.mem_append_left _ ?_, by simpa using enabled⟩
  rw [← Declaration.replacement_of_new kept]
  exact List.mem_map_of_mem listed

namespace Catalog.Builtin

def rules15_5 : List Rule := version15_5.applied []

def rules16_2 : List Rule := version16_2.applied rules15_5

def rules16_4 : List Rule := version16_4.applied rules16_2

theorem resolve15_5 : definition.resolve "15.5" = .ok rules15_5 := by
  rw [Definition.resolve_root rfl rfl]
  exact (Definition.apply_eq_ok_iff rfl).mpr ⟨by decide +kernel, rfl⟩

theorem resolve16_2 : definition.resolve "16.2" = .ok rules16_2 := by
  rw [Definition.resolve_of_inherited rfl rfl resolve15_5]
  exact (Definition.apply_eq_ok_iff rfl).mpr ⟨by decide +kernel, rfl⟩

theorem resolve16_4 : definition.resolve "16.4" = .ok rules16_4 := by
  rw [Definition.resolve_of_inherited rfl rfl resolve16_2]
  exact (Definition.apply_eq_ok_iff rfl).mpr ⟨by decide +kernel, rfl⟩

theorem relax16_2 : Rule.Relax rules16_2 rules15_5 := by
  apply Version.applied_relax
  intro rule member _
  rcases List.mem_pair.mp member with rfl | rfl
  · exact ⟨_, List.mem_of_getElem? (i := 27) rfl,
      Rule.narrows_valueNotIn (by decide) _ _ _ _⟩
  · exact ⟨_, List.mem_of_getElem? (i := 28) rfl,
      Rule.narrows_valueNotIn (by decide) _ _ _ _⟩

/-- The only rule that is new warns. -/
theorem relax16_4 : Rule.Relax rules16_4 rules16_2 := by
  apply Version.applied_relax
  intro rule member blocks
  cases List.mem_singleton.mp member
  cases blocks

open Evaluation in
theorem builtin_named {name : String} {rules : List Rule}
    (resolved : definition.resolve name = .ok rules)
    (quiet : ∀ id ∈ ids rules, id ≠ unparsedRule) :
    ∃ catalog, builtin (some name) = .ok catalog ∧ Named catalog ∧ catalog.rules.Perm rules := by
  obtain ⟨catalog, loaded, built, -⟩ :=
    @ofDefinition_resolved definition (some name) rules resolved
  obtain ⟨own, perm⟩ := ofRules_named built
  refine ⟨catalog, loaded, ⟨own, ?_⟩, perm⟩
  intro rule member
  exact quiet rule.id (List.mem_map_of_mem (perm.mem_iff.mp member))

/-- The versions of the catalog, and the default one. -/
def IsVersion (version : Option String) : Prop :=
  version.getD definition.defaultVersion ∈ definition.versions.map (·.1)

instance (version : Option String) : Decidable (IsVersion version) :=
  inferInstanceAs (Decidable (_ ∈ _))

/-- Every version has the rules of the first one that no later one declares anew or drops. -/
theorem exists_rule {version : Option String} (known : IsVersion version) {rule : Rule}
    (first : rule ∈ rules15_5)
    (kept : rule.id ∉ (version16_2.declarations ++ version16_4.declarations).map (·.rule.id))
    (enabled : rule.id ∉ version16_2.disabled ++ version16_4.disabled) :
    ∃ catalog, builtin version = .ok catalog ∧ Evaluation.Named catalog ∧
      rule ∈ catalog.rules := by
  have loads : ∀ rules, definition.resolve (version.getD definition.defaultVersion) = .ok rules →
      (∀ id ∈ ids rules, id ≠ Evaluation.unparsedRule) → rule ∈ rules →
      ∃ catalog, builtin version = .ok catalog ∧ Evaluation.Named catalog ∧
        rule ∈ catalog.rules := by
    intro rules resolved quiet listed
    obtain ⟨catalog, loaded, named, perm⟩ := builtin_named resolved quiet
    exact ⟨catalog, by cases version <;> exact loaded, named, perm.mem_iff.mpr listed⟩
  simp only [List.map_append, List.mem_append, not_or] at kept enabled
  have second : rule ∈ rules16_2 := Version.mem_applied first kept.1 enabled.1
  have third : rule ∈ rules16_4 := Version.mem_applied second kept.2 enabled.2
  have names : definition.versions.map (·.1) = ["15.5", "16.2", "16.4"] := rfl
  rw [IsVersion, names] at known
  simp only [List.mem_cons, List.not_mem_nil, or_false] at known
  rcases known with same | same | same
  · exact loads rules15_5 (same ▸ resolve15_5) (by decide +kernel) first
  · exact loads rules16_2 (same ▸ resolve16_2) (by decide +kernel) second
  · exact loads rules16_4 (same ▸ resolve16_4) (by decide +kernel) third

end Catalog.Builtin

open Catalog Assessment in
/-- Each version of the engine runs what the one before it runs: what stops a unit by the rules of
the newer one stops it by those of the older one, in the same words at the same place. -/
theorem upgrade_blocks_no_more : ∃ c15_5 c16_2 c16_4,
    builtin (some "15.5") = .ok c15_5 ∧ builtin (some "16.2") = .ok c16_2 ∧
    builtin (some "16.4") = .ok c16_4 ∧ ∀ (d : Dialect) (unit : SourceUnit),
      blockers c16_4 d unit ⊆ blockers c16_2 d unit ∧
      blockers c16_2 d unit ⊆ blockers c15_5 d unit := by
  obtain ⟨c15_5, loaded15_5, named15_5, perm15_5⟩ :=
    Builtin.builtin_named Builtin.resolve15_5 (by decide +kernel)
  obtain ⟨c16_2, loaded16_2, named16_2, perm16_2⟩ :=
    Builtin.builtin_named Builtin.resolve16_2 (by decide +kernel)
  obtain ⟨c16_4, loaded16_4, named16_4, perm16_4⟩ :=
    Builtin.builtin_named Builtin.resolve16_4 (by decide +kernel)
  refine ⟨c15_5, c16_2, c16_4, loaded15_5, loaded16_2, loaded16_4, ?_⟩
  intro d unit
  constructor
  · exact blockers_subset named16_4 named16_2 (Builtin.relax16_4.perm perm16_4 perm16_2) d unit
  · exact blockers_subset named16_2 named15_5 (Builtin.relax16_2.perm perm16_2 perm15_5) d unit

end SqlAudit
