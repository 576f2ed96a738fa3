import SqlAudit.Json.Printer
import SqlAudit.Report.Basic
/-! Reports as JSON. -/
namespace SqlAudit

def SeverityCounts.fields (counts : SeverityCounts) : List (String × Json) :=
  [("blockerCount", .ofNat counts.blockers), ("warningCount", .ofNat counts.warnings),
    ("infoCount", .ofNat counts.infos)]

def LocatedError.toJson (error : LocatedError) : Json :=
  .object [("message", .string error.message), ("line", .ofNat error.position.line),
    ("column", .ofNat error.position.column)]

/-- A finding as a report shows it. Its span and unit are left out. -/
def Finding.toJson (finding : Finding) : Json :=
  .object [("ruleId", .string finding.ruleId), ("severity", .string finding.severity.name),
    ("message", .string finding.message), ("line", .ofNat finding.position.line),
    ("column", .ofNat finding.position.column)]

def UnitReport.toJson (unit : UnitReport) : Json :=
  .object ([("unitId", .string unit.result.unitId), ("outcome", .string unit.result.outcome.name),
    ("status", .string unit.status.name)] ++ unit.counts.fields ++
    [("statements", .ofNat unit.result.statements),
      ("unsupportedStatements", .ofNat unit.result.unsupported),
      ("syntaxErrors", .ofList LocatedError.toJson unit.result.syntaxErrors),
      ("findings", .ofList Finding.toJson unit.result.findings)] ++
    match unit.result.outcome.failure? with
    | some reason => [("failure", .string reason)]
    | none => [])

def Summary.toJson (summary : Summary) : Json :=
  .object (summary.counts.fields ++
    [("status", .string summary.status.name), ("units", .ofNat summary.units),
      ("statements", .ofNat summary.statements),
      ("unsupportedStatements", .ofNat summary.unsupported)])

def Metadata.toJson (metadata : Metadata) : Json :=
  .object [("catalogVersion", .string metadata.catalogVersion),
    ("startedAt", .string (metadata.startedAt.render ++ "Z")),
    ("elapsedMs", .ofNat metadata.elapsedMs)]

def Report.toJson (report : Report) : Json :=
  .object ([("summary", report.summary.toJson),
      ("units", .ofList UnitReport.toJson report.units)] ++
    match report.metadata with
    | some metadata => [("metadata", metadata.toJson)]
    | none => [])

end SqlAudit
