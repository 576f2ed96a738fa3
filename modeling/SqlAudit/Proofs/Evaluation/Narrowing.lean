import SqlAudit.Proofs.Catalog.Layer
import SqlAudit.Proofs.Evaluation.Visit
/-!
Rules that apply less often. If each rule that blocks is a narrower form of one in another catalog,
then whatever stops a tree by the first catalog stops it by the second, in the same words.
-/
namespace SqlAudit

/-- Where the rule applies, `wide` says the same. -/
structure Rule.Narrows (rule wide : Rule) : Prop where
  id : rule.id = wide.id
  target : rule.target = wide.target
  severity : rule.severity = wide.severity
  message : rule.message = wide.message
  check : ∀ node ancestors, rule.check.evaluate node ancestors = .ok none ∨
    rule.check.evaluate node ancestors = wide.check.evaluate node ancestors

/-- Every rule that blocks narrows one of the others. -/
def Rule.Relax (rules others : List Rule) : Prop :=
  ∀ rule ∈ rules, rule.severity = .blocker → ∃ wide ∈ others, rule.Narrows wide

theorem Rule.Narrows.refl (rule : Rule) : rule.Narrows rule :=
  ⟨rfl, rfl, rfl, rfl, fun _ _ => .inr rfl⟩

theorem Rule.Relax.perm {rules rules' others others' : List Rule} (relax : Rule.Relax rules others)
    (perm : rules'.Perm rules) (perm' : others'.Perm others) : Rule.Relax rules' others' := by
  intro rule member blocks
  obtain ⟨wide, inside, narrows⟩ := relax rule (perm.mem_iff.mp member) blocks
  exact ⟨wide, perm'.mem_iff.mpr inside, narrows⟩

namespace Check

theorem valueAmong_mono {fewer more : List String} (subset : fewer ⊆ more) {value : Option String}
    (among : valueAmong value fewer = true) : valueAmong value more = true := by
  obtain ⟨text, found, listed⟩ := (Option.any_eq_true ..).mp among
  obtain ⟨other, member, same⟩ := List.any_eq_true.mp listed
  exact (Option.any_eq_true ..).mpr
    ⟨text, found, List.any_eq_true.mpr ⟨other, subset member, same⟩⟩

/-- A longer list of exceptions makes a check match less often. -/
theorem valueNotIn_narrows {fewer more : List String} (subset : fewer ⊆ more) (node : Node)
    (ancestors : List Node) :
    (valueNotIn more).evaluate node ancestors = .ok none ∨
      (valueNotIn more).evaluate node ancestors = (valueNotIn fewer).evaluate node ancestors := by
  rw [evaluate, evaluate]
  by_cases excepted : valueAmong node.value more = true
  · left
    simp [excepted, matchIf]
  · right
    have strict : ¬ valueAmong node.value fewer = true := mt (valueAmong_mono subset) excepted
    simp [excepted, strict]

end Check

theorem Rule.narrows_valueNotIn {fewer more : List String} (subset : fewer ⊆ more)
    (id : String) (target : NodeKind) (severity : Severity) (message : String) :
    (⟨id, target, .valueNotIn more, severity, message⟩ : Rule).Narrows
      ⟨id, target, .valueNotIn fewer, severity, message⟩ :=
  ⟨rfl, rfl, rfl, rfl, Check.valueNotIn_narrows subset⟩

/-- A version relaxes the rules that it inherits if each of its own that blocks narrows one. -/
theorem Catalog.Version.applied_relax {version : Version} {inherited : List Rule}
    (own : Rule.Relax (version.declarations.map (·.rule)) inherited) :
    Rule.Relax (version.applied inherited) inherited := by
  intro rule member blocks
  rcases List.mem_append.mp (List.mem_filter.mp member).1 with old | new
  · obtain ⟨other, listed, rfl⟩ := List.mem_map.mp old
    rcases Declaration.replacement_eq_or version.declarations other with kept | declared
    · exact ⟨other, listed, kept.symm ▸ .refl other⟩
    · obtain ⟨declaration, inside, same⟩ := declared
      exact own _ (List.mem_map.mpr ⟨declaration, inside, same⟩) blocks
  · obtain ⟨declaration, inside, rfl⟩ := List.mem_map.mp new
    exact own _ (List.mem_map_of_mem (List.mem_filter.mp inside).1) blocks

namespace Evaluation

variable {c c' : Catalog} {unitId : String} {lines : LineIndex} {above : List Node} {node : Node}
  {finding : Finding}

theorem applyRule_narrows {rule wide : Rule} (narrows : rule.Narrows wide)
    (applied : applyRule ⟨c, unitId, lines⟩ above node rule = some finding) :
    applyRule ⟨c', unitId, lines⟩ above node wide = some finding := by
  unfold applyRule at applied ⊢
  rw [← narrows.id, ← narrows.severity, ← narrows.message]
  rcases narrows.check node above with none | same
  · rw [none] at applied
    cases applied
  · rwa [← same]

/-- A failure does not block. -/
theorem applyRule_blocks {context : Context} {rule : Rule}
    (applied : applyRule context above node rule = some finding)
    (blocks : finding.severity = .blocker) : rule.severity = .blocker := by
  unfold applyRule at applied
  dsimp only at applied
  split at applied
  · cases applied
  · cases applied
    exact blocks
  · cases applied
    cases blocks

theorem nodeFindings_relax (relax : Rule.Relax c.rules c'.rules)
    (member : finding ∈ nodeFindings ⟨c, unitId, lines⟩ above node)
    (blocks : finding.severity = .blocker) :
    finding ∈ nodeFindings ⟨c', unitId, lines⟩ above node := by
  rcases mem_nodeFindings_cases member with ⟨unread, rfl⟩ | ⟨parsed, rule, inside, target, applied⟩
  · rw [nodeFindings, if_pos unread]
    exact .head _
  · obtain ⟨wide, listed, narrows⟩ := relax rule inside (applyRule_blocks applied blocks)
    rw [nodeFindings, if_neg parsed]
    apply List.mem_filterMap.mpr
    refine ⟨wide, Catalog.mem_rulesFor.mpr ⟨listed, ?_⟩, applyRule_narrows narrows applied⟩
    exact narrows.target.symm.trans target

theorem evaluate_relax (relax : Rule.Relax c.rules c'.rules) {root : Node}
    (member : finding ∈ evaluate ⟨c, unitId, lines⟩ root) (blocks : finding.severity = .blocker) :
    finding ∈ evaluate ⟨c', unitId, lines⟩ root := by
  obtain ⟨path, part, reached, about⟩ := mem_evaluate.mp member
  exact mem_evaluate.mpr ⟨path, part, reached, nodeFindings_relax relax about blocks⟩

end Evaluation
end SqlAudit
