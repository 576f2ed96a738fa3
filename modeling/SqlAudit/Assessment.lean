import SqlAudit.Evaluation
import SqlAudit.Report.Basic
import SqlAudit.Script
/-!
Units assessed against a catalog: each is read, its tree is checked, rules are applied to it, and
what they say is put in order. Units share nothing but the catalog.
-/
namespace SqlAudit.Assessment

/-- A script and the name it goes by. -/
structure SourceUnit where
  id : String
  text : String
  deriving DecidableEq, Repr

/-- The statements that hold a finding which stops them from running. -/
def unsupportedStatements (root : Node) (findings : List Finding) : List Node :=
  root.children.filter fun statement => findings.any fun finding =>
    finding.severity = .blocker && statement.span.contains finding.span

def locateError (lines : LineIndex) (error : SyntaxError) : LocatedError :=
  ⟨error.message, lines.position error.span.start⟩

/-- The result of a unit that was read as `script`. A tree of the wrong shape gives a failure and
no findings. -/
def assessScript (catalog : Catalog) (unit : SourceUnit) (script : Script) : UnitResult :=
  let lines := LineIndex.ofText unit.text
  match script.root.shapeError? with
  | some error => .ofOutcome unit.id (.failed error.message)
  | none =>
    let found := Evaluation.evaluate ⟨catalog, unit.id, lines⟩ script.root
    match Finding.outside? script.root.span found with
    | some error => .ofOutcome unit.id (.failed error.message)
    | none =>
      let findings := Finding.aggregate found
      ⟨unit.id, if script.isComplete then .assessed else .syntaxErrors,
        script.errors.map (locateError lines), findings, script.root.children.length,
        (unsupportedStatements script.root findings).length⟩

def assess (catalog : Catalog) (d : Dialect) (unit : SourceUnit) : UnitResult :=
  assessScript catalog unit (Script.read d unit.text)

/-- The report on all units. After the deadline no unit is started. -/
def run (catalog : Catalog) (d : Dialect) (isLate : Bool) (units : List SourceUnit) : Report :=
  .build (units.map fun unit =>
    if isLate then .ofOutcome unit.id .timeout else assess catalog d unit)

end SqlAudit.Assessment
