import SqlAudit.Finding
import SqlAudit.Report.Timestamp
/-! What is reported about the units of a run: counts, verdicts and totals. -/
namespace SqlAudit

structure SeverityCounts where
  blockers : Nat
  warnings : Nat
  infos : Nat
  deriving DecidableEq, Repr

namespace SeverityCounts

def zero : SeverityCounts := ⟨0, 0, 0⟩

def add (a b : SeverityCounts) : SeverityCounts :=
  ⟨a.blockers + b.blockers, a.warnings + b.warnings, a.infos + b.infos⟩

def one : Severity → SeverityCounts
  | .blocker => ⟨1, 0, 0⟩
  | .warning => ⟨0, 1, 0⟩
  | .info => ⟨0, 0, 1⟩

def ofFindings (findings : List Finding) : SeverityCounts :=
  findings.foldl (fun counts finding => counts.add (one finding.severity)) zero

end SeverityCounts

inductive Status where
  | pass
  | failWithWarnings
  | fail
  deriving DecidableEq, Repr

namespace Status

def ofCounts (counts : SeverityCounts) : Status :=
  if 0 < counts.blockers then .fail
  else if 0 < counts.warnings then .failWithWarnings
  else .pass

def name : Status → String
  | .pass => "PASS"
  | .failWithWarnings => "FAIL_WITH_WARNINGS"
  | .fail => "FAIL"

end Status

/-- How the assessment of a unit ended. -/
inductive Outcome where
  | assessed
  | syntaxErrors
  | failed (reason : String)
  | timeout
  deriving DecidableEq, Repr

namespace Outcome

def name : Outcome → String
  | .assessed => "ASSESSED"
  | .syntaxErrors => "SYNTAX_ERRORS"
  | .failed _ => "FAILED"
  | .timeout => "TIMEOUT"

def failure? : Outcome → Option String
  | .failed reason => some reason
  | _ => none

end Outcome

/-- A syntax error at its place. -/
structure LocatedError where
  message : String
  position : Position
  deriving DecidableEq, Repr

/-- What became of a unit. -/
structure UnitResult where
  unitId : String
  outcome : Outcome
  syntaxErrors : List LocatedError
  findings : List Finding
  statements : Nat
  unsupported : Nat
  deriving DecidableEq, Repr

namespace UnitResult

/-- Nothing is known of a unit but how it ended. -/
def ofOutcome (unitId : String) (outcome : Outcome) : UnitResult := ⟨unitId, outcome, [], [], 0, 0⟩

def counts (result : UnitResult) : SeverityCounts := .ofFindings result.findings

end UnitResult

/-- The part of a report on one unit. -/
structure UnitReport where
  result : UnitResult
  counts : SeverityCounts
  status : Status
  deriving DecidableEq, Repr

structure Summary where
  counts : SeverityCounts
  status : Status
  units : Nat
  statements : Nat
  unsupported : Nat
  deriving DecidableEq, Repr

/-- What is true of a run but not of another one over the same units. -/
structure Metadata where
  catalogVersion : String
  startedAt : Timestamp
  elapsedMs : Nat
  deriving DecidableEq, Repr

structure Report where
  summary : Summary
  units : List UnitReport
  metadata : Option Metadata
  deriving DecidableEq, Repr

namespace Report

def ofResult (result : UnitResult) : UnitReport := ⟨result, result.counts, .ofCounts result.counts⟩

def total (results : List UnitResult) : SeverityCounts :=
  results.foldl (fun counts result => counts.add result.counts) .zero

def count (measure : UnitResult → Nat) (results : List UnitResult) : Nat :=
  results.foldl (fun n result => n + measure result) 0

/-- The report on these units, in their order. -/
def build (results : List UnitResult) : Report :=
  ⟨⟨total results, .ofCounts (total results), results.length,
      count UnitResult.statements results, count UnitResult.unsupported results⟩,
    results.map ofResult, none⟩

def withMetadata (report : Report) (metadata : Metadata) : Report :=
  { report with metadata := some metadata }

def status (report : Report) : Status := report.summary.status

/-- Every finding of every unit, in the order of the report. -/
def findings (report : Report) : List Finding :=
  report.units.flatMap fun unit => unit.result.findings

end Report
end SqlAudit
