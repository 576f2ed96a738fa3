import SqlAudit.Proofs.Assessment.WellFormed
import SqlAudit.Proofs.Catalog.Named
import SqlAudit.Proofs.Finding.Canonical
import SqlAudit.Proofs.Script.Regions
/-!
Statements that are counted because they cannot run. They are told by the spans of what was found,
after aggregation; as statements do not overlap and nothing spans the empty text, this finds the
statements that have a blocker in them, and one more where a statement is all that a text consists
of: what stops the script as a whole spans no more than that statement does.
-/
namespace SqlAudit

/-- Elements with one of two properties are as many as those with the first one exactly if the first
one follows from the second. -/
theorem countP_or_eq_iff {α : Type} {p q : α → Bool} {xs : List α} :
    xs.countP (fun x => p x || q x) = xs.countP p ↔ ∀ x ∈ xs, q x = true → p x = true := by
  have fewer : ∀ ys : List α, ys.countP p ≤ ys.countP fun y => p y || q y := by
    intro ys
    apply List.countP_mono_left
    intro y _ holds
    simp [holds]
  induction xs with
  | nil => simp
  | cons x xs ih =>
      have rest := fewer xs
      rw [List.forall_mem_cons, ih.symm]
      cases holds : p x <;> cases other : q x <;> simp [holds, other]
      omega

theorem Span.eq_of_contains {a b : Span} (outer : a.contains b = true)
    (inner : b.contains a = true) : b = a := by
  simp only [contains, Bool.and_eq_true, decide_eq_true_eq] at outer inner
  cases a
  cases b
  simp only [Span.mk.injEq]
  exact ⟨Nat.le_antisymm inner.1 outer.1, Nat.le_antisymm outer.2 inner.2⟩

namespace Finding

/-- One of the findings stops the unit from running. -/
def anyBlocks (findings : List Finding) : Bool := findings.any fun finding =>
  finding.severity = .blocker

theorem anyBlocks_iff {findings : List Finding} :
    anyBlocks findings = true ↔ ∃ finding ∈ findings, finding.severity = .blocker := by
  simp [anyBlocks]

/-- A blocker is only dropped for another one at the same place. -/
theorem exists_blocker_aggregate {findings : List Finding} {place : Span} :
    (∃ finding ∈ aggregate findings,
      finding.severity = .blocker ∧ place.contains finding.span = true) ↔
      ∃ finding ∈ findings,
        finding.severity = .blocker ∧ place.contains finding.span = true := by
  constructor
  · rintro ⟨finding, member, found⟩
    exact ⟨finding, mem_of_aggregate member, found⟩
  · rintro ⟨finding, member, blocks, within⟩
    obtain ⟨kept, among, same, least⟩ := exists_first member
    have rank : kept.severity.rank ≤ finding.severity.rank :=
      rank_le_of_isLE (least finding member (repeats_refl finding))
    rw [blocks] at rank
    have severe : kept.severity = .blocker := Severity.rank_injective (Nat.le_zero.mp rank)
    refine ⟨kept, among, severe, ?_⟩
    rwa [(repeats_iff.mp same).2.1]

end Finding

namespace Evaluation

open Finding (anyBlocks)

/-- Something found in a statement, at its node or at one below it, stops the unit. -/
def blocked (context : Context) (root statement : Node) : Bool :=
  anyBlocks (visit context [root] statement)

/-- The statement is the whole text, and something found about that stops the unit. -/
def blockedAsWhole (context : Context) (root statement : Node) : Bool :=
  anyBlocks (nodeFindings context [] root) && statement.span == root.span

variable {context : Context}

theorem blocked_iff {root statement : Node} : blocked context root statement = true ↔
    ∃ path part, statement.at? path = some part ∧
      ∃ finding ∈ nodeFindings context (root :: statement.ancestors path) part,
        finding.severity = .blocker := by
  rw [blocked, Finding.anyBlocks_iff]
  constructor
  · rintro ⟨finding, member, blocks⟩
    obtain ⟨path, part, reached, about⟩ := exists_path_of_visit statement member
    exact ⟨path, part, reached, finding, about, blocks⟩
  · rintro ⟨path, part, reached, finding, about, blocks⟩
    exact ⟨finding, mem_visit_of_path reached about, blocks⟩

/-- A blocker lies in the span of a statement if it is about a node of that statement, or about a
script that is no more than the statement. -/
theorem blocker_within_iff (d : Dialect) (text : String) {statement : Node}
    (listed : statement ∈ (Script.read d text).root.children) :
    (∃ finding ∈ evaluate context (Script.read d text).root,
      finding.severity = .blocker ∧ statement.span.contains finding.span = true) ↔
      blocked context (Script.read d text).root statement = true ∨
        blockedAsWhole context (Script.read d text).root statement = true := by
  have nested := Script.read_nested d text
  have inner := Node.nested_contains nested statement listed
  have row := Node.row_mem ((Node.nested_iff_row _).mp nested)
  obtain ⟨apart, solid⟩ := Script.read_disjoint d text
  rw [blocked_iff, blockedAsWhole, Bool.and_eq_true, beq_iff_eq, Finding.anyBlocks_iff]
  constructor
  · rintro ⟨finding, member, blocks, within⟩
    obtain ⟨path, part, reached, about⟩ := mem_evaluate.mp member
    rw [(mem_nodeFindings_about about).1] at within
    cases path with
    | nil =>
        cases reached
        exact .inr ⟨⟨finding, about, blocks⟩, Span.eq_of_contains inner within⟩
    | cons i path =>
        obtain ⟨other, found, reached⟩ := Node.at?_cons.mp reached
        have among := List.mem_of_getElem? found
        have own := (Node.nested_at? (row other among).1 reached).2
        have nonempty := ((Script.read_solid d text other among).at? reached).here
        obtain rfl := Script.contains_unique apart nonempty among listed own within
        refine .inl ⟨path, part, reached, finding, ?_, blocks⟩
        rwa [Node.ancestors, found] at about
  · rintro (⟨path, part, reached, finding, about, blocks⟩ | ⟨⟨finding, about, blocks⟩, same⟩)
    · obtain ⟨i, found⟩ := List.getElem?_of_mem listed
      refine ⟨finding, mem_evaluate.mpr ⟨i :: path, part, ?_, ?_⟩, blocks, ?_⟩
      · exact Node.at?_cons.mpr ⟨statement, found, reached⟩
      · rwa [Node.ancestors, found]
      · rw [(mem_nodeFindings_about about).1]
        exact (Node.nested_at? (row statement listed).1 reached).2
    · refine ⟨finding, mem_evaluate.mpr ⟨[], _, rfl, about⟩, blocks, ?_⟩
      rw [(mem_nodeFindings_about about).1, same]
      simp [Span.contains]

end Evaluation

namespace Assessment

theorem unsupported_read (catalog : Catalog) (d : Dialect) (unit : SourceUnit) :
    (assess catalog d unit).unsupported =
      (unsupportedStatements (Script.read d unit.text).root
        (assess catalog d unit).findings).length := by
  have nested := Script.read_nested d unit.text
  have shape := Node.shapeError?_nested nested
  have inside := fun context => Evaluation.outside?_evaluate context nested
  simp [assess, assessScript, shape, inside]

end Assessment

open Evaluation in
/-- The statements counted as unsupported are those in which evaluation finds a blocker and, where
the script as a whole has one, the statement that is all of its text. So the count is that of the
statements with a blocker in them exactly if no such statement is without one. -/
theorem unsupported_counted (d : Dialect) (text : String) (catalog : Catalog) (id : String) :
    let context : Context := ⟨catalog, id, .ofText text⟩
    let root := (Script.read d text).root
    let result := Assessment.assess catalog d ⟨id, text⟩
    result.unsupported = root.children.countP (fun statement =>
      blocked context root statement || blockedAsWhole context root statement) ∧
    (result.unsupported = root.children.countP (blocked context root) ↔
      ∀ statement ∈ root.children, blockedAsWhole context root statement = true →
        blocked context root statement = true) := by
  intro context root result
  have counted : result.unsupported = root.children.countP (fun statement =>
      blocked context root statement || blockedAsWhole context root statement) := by
    rw [Assessment.unsupported_read, (Assessment.assess_read catalog d ⟨id, text⟩).2,
      Assessment.unsupportedStatements, ← List.countP_eq_length_filter]
    apply List.countP_congr
    intro statement listed
    rw [Bool.or_eq_true, ← blocker_within_iff d text listed, ← Finding.exists_blocker_aggregate]
    simp only [List.any_eq_true, Bool.and_eq_true, decide_eq_true_eq]
    rfl
  refine ⟨counted, ?_⟩
  rw [counted]
  exact countP_or_eq_iff

open Evaluation in
/-- A rule that blocks every script makes the only statement of a text count, though nothing is
found in it, but not that of the text with a line break after it. -/
theorem whole_script_counted : ∃ (rule : Rule) (catalog : Catalog) (root : Node),
    rule = ⟨"script", .script, .present, .blocker, "a script"⟩ ∧
    Catalog.ofRules "test" [rule] = .ok catalog ∧
    root = (Script.read .postgres "SELECT 1").root ∧
    root.children.countP (blocked ⟨catalog, "u", .ofText "SELECT 1"⟩ root) = 0 ∧
    (Assessment.assess catalog .postgres ⟨"u", "SELECT 1"⟩).unsupported = 1 ∧
    (Assessment.assess catalog .postgres ⟨"u", "SELECT 1\n"⟩).unsupported = 0 := by
  have built := @Catalog.ofRules_ranked "test" [⟨"script", .script, .present, .blocker, "a script"⟩]
    rfl (by decide)
  refine ⟨_, _, _, rfl, built, rfl, by decide +kernel, ?_, ?_⟩
  · rw [Assessment.unsupported_read, (Assessment.assess_read ..).2,
      Finding.aggregate_eq_insertionSort]
    decide +kernel
  · rw [Assessment.unsupported_read, (Assessment.assess_read ..).2,
      Finding.aggregate_eq_insertionSort]
    decide +kernel

end SqlAudit
