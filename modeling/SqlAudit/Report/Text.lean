import SqlAudit.Report.Basic
/-! Reports as lines for people to read. -/
namespace SqlAudit

def Position.render (p : Position) : String := toString p.line ++ ":" ++ toString p.column

def LocatedError.line (error : LocatedError) : String :=
  "  " ++ error.position.render ++ ": syntax error: " ++ error.message

def Finding.line (finding : Finding) : String :=
  "  " ++ finding.position.render ++ ": " ++ finding.severity.name ++ " [" ++ finding.ruleId ++
    "] " ++ finding.message

def UnitReport.lines (unit : UnitReport) : List String :=
  [unit.result.unitId ++ " [" ++ unit.result.outcome.name ++ "] " ++ unit.status.name] ++
    (unit.result.outcome.failure?.map fun reason => "  failure: " ++ reason).toList ++
    unit.result.syntaxErrors.map LocatedError.line ++ unit.result.findings.map Finding.line

def Summary.lines (summary : Summary) : List String :=
  [toString summary.units ++ " unit(s), " ++ toString summary.statements ++ " statement(s), " ++
      toString summary.unsupported ++ " unsupported",
    toString summary.counts.blockers ++ " blocker(s), " ++ toString summary.counts.warnings ++
      " warning(s), " ++ toString summary.counts.infos ++ " info"]

def Metadata.line (metadata : Metadata) : String :=
  "catalog " ++ metadata.catalogVersion ++ " | started " ++ metadata.startedAt.render ++
    "+00:00 | " ++ toString metadata.elapsedMs ++ " ms"

def Report.lines (report : Report) : List String :=
  report.units.flatMap UnitReport.lines ++ report.summary.lines ++
    (report.metadata.map Metadata.line).toList ++ ["status: " ++ report.status.name]

/-- The lines of a report; the last one is not ended. -/
def Report.render (report : Report) : String := "\n".intercalate report.lines

end SqlAudit
