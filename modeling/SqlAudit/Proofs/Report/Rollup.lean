import Mathlib.Algebra.BigOperators.Group.List.Basic
import Mathlib.Algebra.GroupWithZero.Nat
import SqlAudit.Report.Basic
/-!
What a report says in total. Counts, verdicts and statements are kept for the run and for each unit;
both are what the findings themselves come to, so it does not matter in which order the units stand
or in how many runs they are assessed.
-/
namespace SqlAudit

namespace SeverityCounts

/-- How many findings there are of each severity. -/
def tally (findings : List Finding) : SeverityCounts :=
  ⟨findings.countP (·.severity = .blocker), findings.countP (·.severity = .warning),
    findings.countP (·.severity = .info)⟩

theorem tally_append (first second : List Finding) :
    tally (first ++ second) = (tally first).add (tally second) := by
  simp only [tally, add, List.countP_append]

theorem tally_perm {first second : List Finding} (same : first.Perm second) :
    tally first = tally second := by
  simp only [tally, same.countP_eq]

theorem tally_singleton (finding : Finding) : tally [finding] = one finding.severity := by
  cases severity : finding.severity <;> simp [tally, one, severity]

theorem add_assoc (a b c : SeverityCounts) : (a.add b).add c = a.add (b.add c) := by
  simp only [add, Nat.add_assoc]

theorem zero_add (a : SeverityCounts) : zero.add a = a := by
  simp only [zero, add, Nat.zero_add]

/-- Findings are counted one by one, on top of what was counted before. -/
theorem foldl_one (findings : List Finding) (counts : SeverityCounts) :
    findings.foldl (fun counts finding => counts.add (one finding.severity)) counts =
      counts.add (tally findings) := by
  induction findings generalizing counts with
  | nil => rfl
  | cons finding findings ih =>
      rw [List.foldl_cons, ih, add_assoc, ← tally_singleton, ← tally_append]
      rfl

theorem ofFindings_eq_tally (findings : List Finding) : ofFindings findings = tally findings := by
  rw [ofFindings, foldl_one, zero_add]

end SeverityCounts

namespace Status

/-- The more a status weighs, the worse it is. -/
def weight : Status → Nat
  | .pass => 0
  | .failWithWarnings => 1
  | .fail => 2

def worse (a b : Status) : Status := if a.weight ≤ b.weight then b else a

theorem ofCounts_add (a b : SeverityCounts) :
    ofCounts (a.add b) = (ofCounts a).worse (ofCounts b) := by
  grind [ofCounts, SeverityCounts.add, worse, weight]

variable (findings : List Finding)

theorem ofCounts_eq_fail : ofCounts (.tally findings) = .fail ↔
    ∃ finding ∈ findings, finding.severity = .blocker := by
  have some : 0 < findings.countP (·.severity = .blocker) ↔
      ∃ finding ∈ findings, finding.severity = .blocker := by
    simp [List.countP_pos_iff]
  rw [← some, ofCounts, SeverityCounts.tally]
  split_ifs <;> simp_all

theorem ofCounts_eq_failWithWarnings : ofCounts (.tally findings) = .failWithWarnings ↔
    (∀ finding ∈ findings, finding.severity ≠ .blocker) ∧
      ∃ finding ∈ findings, finding.severity = .warning := by
  have none : ¬ 0 < findings.countP (·.severity = .blocker) ↔
      ∀ finding ∈ findings, finding.severity ≠ .blocker := by
    simp
  have some : 0 < findings.countP (·.severity = .warning) ↔
      ∃ finding ∈ findings, finding.severity = .warning := by
    simp [List.countP_pos_iff]
  rw [← none, ← some, ofCounts, SeverityCounts.tally]
  split_ifs <;> simp_all

theorem ofCounts_eq_pass : ofCounts (.tally findings) = .pass ↔
    ∀ finding ∈ findings, finding.severity = .info := by
  have otherwise : ofCounts (.tally findings) = .pass ↔
      ofCounts (.tally findings) ≠ .fail ∧ ofCounts (.tally findings) ≠ .failWithWarnings := by
    cases ofCounts (.tally findings) <;> simp
  rw [otherwise, Ne, Ne, ofCounts_eq_fail, ofCounts_eq_failWithWarnings]
  constructor
  · rintro ⟨noBlocker, noWarning⟩ finding member
    cases severity : finding.severity with
    | blocker => exact absurd ⟨finding, member, severity⟩ noBlocker
    | warning =>
        refine absurd ⟨?_, finding, member, severity⟩ noWarning
        exact fun other listed blocks => noBlocker ⟨other, listed, blocks⟩
    | info => rfl
  · intro infos
    constructor
    · rintro ⟨finding, member, severity⟩
      cases severity.symm.trans (infos finding member)
    · rintro ⟨-, finding, member, severity⟩
      cases severity.symm.trans (infos finding member)

end Status

namespace Summary

/-- The summary of two runs together. -/
def add (a b : Summary) : Summary :=
  ⟨a.counts.add b.counts, a.status.worse b.status, a.units + b.units,
    a.statements + b.statements, a.unsupported + b.unsupported⟩

end Summary

namespace Report

theorem foldl_counts (results : List UnitResult) (counts : SeverityCounts) :
    results.foldl (fun counts result => counts.add result.counts) counts =
      counts.add (.tally (results.flatMap (·.findings))) := by
  induction results generalizing counts with
  | nil => rfl
  | cons result results ih =>
      rw [List.foldl_cons, ih, SeverityCounts.add_assoc, UnitResult.counts,
        SeverityCounts.ofFindings_eq_tally, ← SeverityCounts.tally_append]
      rfl

theorem total_eq_tally (results : List UnitResult) :
    total results = .tally (results.flatMap (·.findings)) := by
  rw [total, foldl_counts, SeverityCounts.zero_add]

theorem count_eq_sum (measure : UnitResult → Nat) (results : List UnitResult) :
    count measure results = (results.map measure).sum := by
  have onTop (n : Nat) : results.foldl (fun n result => n + measure result) n =
      n + (results.map measure).sum := by
    induction results generalizing n with
    | nil => rfl
    | cons result results ih =>
        rw [List.foldl_cons, ih, List.map_cons, List.sum_cons, Nat.add_assoc]
  rw [count, onTop, Nat.zero_add]

theorem summary_build (results : List UnitResult) : (build results).summary =
    ⟨.tally (results.flatMap (·.findings)), .ofCounts (.tally (results.flatMap (·.findings))),
      results.length, (results.map (·.statements)).sum, (results.map (·.unsupported)).sum⟩ := by
  rw [build, total_eq_tally, count_eq_sum, count_eq_sum]

theorem findings_build (results : List UnitResult) :
    (build results).findings = results.flatMap (·.findings) := by
  rw [findings, build, List.flatMap_map]
  rfl

/-- The counts and verdicts of a report agree with each other and with its findings. -/
structure RollsUp (report : Report) : Prop where
  unitCounts : ∀ unit ∈ report.units, unit.counts = .tally unit.result.findings
  unitStatus : ∀ unit ∈ report.units, unit.status = .ofCounts unit.counts
  blockers : report.summary.counts.blockers = (report.units.map (·.counts.blockers)).sum
  warnings : report.summary.counts.warnings = (report.units.map (·.counts.warnings)).sum
  infos : report.summary.counts.infos = (report.units.map (·.counts.infos)).sum
  findings : report.summary.counts = .tally report.findings
  units : report.summary.units = report.units.length
  statements : report.summary.statements = (report.units.map (·.result.statements)).sum
  unsupported : report.summary.unsupported = (report.units.map (·.result.unsupported)).sum
  fails : report.status = .fail ↔
    ∃ unit ∈ report.units, ∃ finding ∈ unit.result.findings, finding.severity = .blocker
  warns : report.status = .failWithWarnings ↔
    (∀ unit ∈ report.units, ∀ finding ∈ unit.result.findings, finding.severity ≠ .blocker) ∧
      ∃ unit ∈ report.units, ∃ finding ∈ unit.result.findings, finding.severity = .warning
  passes : report.status = .pass ↔
    ∀ unit ∈ report.units, ∀ finding ∈ unit.result.findings, finding.severity = .info
  worst : report.status = (report.units.map (·.status)).foldr Status.worse .pass

/-- The verdict on all findings is the worst verdict on those of a unit. -/
theorem ofCounts_flatMap (results : List UnitResult) :
    Status.ofCounts (.tally (results.flatMap (·.findings))) =
      (results.map fun result => Status.ofCounts (.tally result.findings)).foldr .worse .pass := by
  induction results with
  | nil => rfl
  | cons result results ih =>
      rw [List.flatMap_cons, SeverityCounts.tally_append, Status.ofCounts_add, ih]
      rfl

theorem countP_findings (p : Finding → Bool) (results : List UnitResult) :
    (results.flatMap (·.findings)).countP p = (results.map (·.findings.countP p)).sum := by
  rw [List.countP_flatMap]
  rfl

theorem rollsUp_build (results : List UnitResult) : (build results).RollsUp := by
  have counts (result : UnitResult) : result.counts = .tally result.findings :=
    SeverityCounts.ofFindings_eq_tally result.findings
  have status : (build results).status = .ofCounts (.tally (results.flatMap (·.findings))) := by
    rw [Report.status, summary_build]
  have everywhere (p : Finding → Prop) : (∀ unit ∈ (build results).units,
      ∀ finding ∈ unit.result.findings, p finding) ↔
        ∀ finding ∈ results.flatMap (·.findings), p finding := by
    simp only [build, ofResult, List.forall_mem_map, List.mem_flatMap]
    constructor
    · rintro all finding ⟨result, listed, member⟩
      exact all result listed finding member
    · intro all result listed finding member
      exact all finding ⟨result, listed, member⟩
  have somewhere (p : Finding → Prop) : (∃ unit ∈ (build results).units,
      ∃ finding ∈ unit.result.findings, p finding) ↔
        ∃ finding ∈ results.flatMap (·.findings), p finding := by
    simp only [build, ofResult, List.mem_map, exists_exists_and_eq_and, List.mem_flatMap]
    constructor
    · rintro ⟨result, listed, finding, member, holds⟩
      exact ⟨finding, ⟨result, listed, member⟩, holds⟩
    · rintro ⟨finding, ⟨result, listed, member⟩, holds⟩
      exact ⟨result, listed, finding, member, holds⟩
  constructor
  case unitCounts => simp [build, ofResult, counts]
  case unitStatus => simp [build, ofResult]
  case blockers | warnings | infos =>
    rw [summary_build]
    simp [SeverityCounts.tally, countP_findings, build, ofResult, counts, Function.comp_def]
  case findings => rw [summary_build, findings_build]
  case units => simp [build]
  case statements | unsupported =>
    rw [summary_build]
    simp [build, ofResult, Function.comp_def]
  case fails => rw [status, Status.ofCounts_eq_fail, somewhere]
  case warns => rw [status, Status.ofCounts_eq_failWithWarnings, everywhere, somewhere]
  case passes => rw [status, Status.ofCounts_eq_pass, everywhere]
  case worst =>
    rw [status, ofCounts_flatMap]
    simp [build, ofResult, counts, Function.comp_def]

/-- A report holds the units in their order, and whatever it says in total is what they come to. The
summary does not depend on their order, and that of two runs is the sum of theirs. -/
theorem build_rolls_up (results : List UnitResult) :
    (build results).units.map (·.result) = results ∧ (build results).RollsUp ∧
    (∀ other, results.Perm other → (build results).summary = (build other).summary) ∧
    ∀ others, (build (results ++ others)).summary =
      (build results).summary.add (build others).summary := by
  refine ⟨?_, rollsUp_build results, ?_, ?_⟩
  · simp [build, ofResult, Function.comp_def]
  · intro other same
    have counts := SeverityCounts.tally_perm (same.flatMap_right (·.findings))
    rw [summary_build, summary_build, counts, same.length_eq, (same.map _).sum_eq,
      (same.map _).sum_eq]
  · intro others
    simp only [summary_build, Summary.add, List.flatMap_append, SeverityCounts.tally_append,
      Status.ofCounts_add, List.length_append, List.map_append, List.sum_append]

/-- A unit that was not started, before and after one with a warning. -/
theorem late_unit_swapped :
    let warned : UnitResult := ⟨"a", .assessed, [],
      [⟨"r", .warning, "m", ⟨1, 1⟩, ⟨0, 1⟩, "a"⟩], 1, 0⟩
    [.ofOutcome "b" .timeout, warned].Perm [warned, .ofOutcome "b" .timeout] ∧
      (build [.ofOutcome "b" .timeout, warned]).summary =
        (build [warned, .ofOutcome "b" .timeout]).summary ∧
      (build [.ofOutcome "b" .timeout, warned]).status = .failWithWarnings := by
  intro warned
  have swapped : [.ofOutcome "b" .timeout, warned].Perm [warned, .ofOutcome "b" .timeout] :=
    .swap ..
  exact ⟨swapped, (build_rolls_up _).2.2.1 _ swapped, by decide⟩

end Report
end SqlAudit
