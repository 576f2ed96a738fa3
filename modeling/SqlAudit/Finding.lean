import SqlAudit.Severity
import SqlAudit.Text.LineIndex
import SqlAudit.Tree.Shape
/-!
What a rule has to say about one place of a unit. The findings of a unit are put in order, the most
severe first, and said once each.
-/
namespace SqlAudit

structure Finding where
  ruleId : String
  severity : Severity
  message : String
  position : Position
  span : Span
  unitId : String
  deriving DecidableEq, Repr

namespace Finding

/-- A finding on a span of the text that `lines` indexes. -/
def locate (lines : LineIndex) (unitId ruleId : String) (severity : Severity) (message : String)
    (span : Span) : Finding :=
  ⟨ruleId, severity, message, lines.position span.start, span, unitId⟩

/-- By severity, then by place and rule. -/
def order (a b : Finding) : Ordering :=
  (compare a.severity.rank b.severity.rank).then <|
  (compare a.span.start b.span.start).then <|
  (compare a.ruleId b.ruleId).then <|
  (compare a.unitId b.unitId).then <|
  (compare a.span.stop b.span.stop).then <|
  compare a.message b.message

/-- Both say the same: one rule about one place of one unit. -/
def repeats (a b : Finding) : Bool :=
  a.ruleId == b.ruleId && a.span == b.span && a.unitId == b.unitId

/-- The findings after `kept` without those that repeat the one kept before them. -/
def dropRepeatsAfter (kept : Finding) : List Finding → List Finding
  | [] => []
  | finding :: findings =>
    if finding.repeats kept then dropRepeatsAfter kept findings
    else finding :: dropRepeatsAfter finding findings

def dropRepeats : List Finding → List Finding
  | [] => []
  | finding :: findings => finding :: dropRepeatsAfter finding findings

/-- The findings in order, neighbours that repeat each other said once. -/
def aggregate (findings : List Finding) : List Finding :=
  dropRepeats (findings.mergeSort fun a b => (a.order b).isLE)

/-- The first finding that lies outside the text. -/
def outside? (root : Span) (findings : List Finding) : Option ShapeError :=
  (findings.find? fun finding => !root.contains finding.span).map fun finding =>
    .findingOutsideRoot finding.ruleId finding.span root

end Finding
end SqlAudit
