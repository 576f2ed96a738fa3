import SqlAudit.Assessment
import SqlAudit.Catalog.Builtin
import SqlAudit.Catalog.Reader
import SqlAudit.CommandLine.Files
import SqlAudit.CommandLine.Options
import SqlAudit.Report.Json
import SqlAudit.Report.Text
/-!
A run of the program: the catalog is loaded, the units are read, and the report on them is printed
or written to a file. The exit code says whether a blocker was found.
-/
namespace SqlAudit.CommandLine

/-- A failure and what caused it, from the outside in. -/
structure Failure where
  causes : List String
  deriving DecidableEq, Repr

def Failure.message (failure : Failure) : String := "error: " ++ ": ".intercalate failure.causes

def catalogCauses : CatalogError → List String
  | .unreadable path reason => [(CatalogError.unreadable path reason).message, reason]
  | error => [error.message]

def loadCatalog (files : Files) (options : Options) : Except Failure Catalog :=
  match options.catalog with
  | none =>
    (Catalog.builtin options.engineVersion).mapError fun error =>
      ⟨"failed to load built-in catalog" :: catalogCauses error⟩
  | some path =>
    let catalog := match files.read path with
      | .ok text => Catalog.ofText text options.engineVersion
      | .error error => .error (.unreadable path error.message)
    catalog.mapError fun error => ⟨("failed to load catalog " ++ path) :: catalogCauses error⟩

/-- The part of a name after its last dot, unless that is how the name starts. -/
def extension? (name : String) : Option String :=
  let after := name.toList.reverse.takeWhile (· != '.')
  if after.length + 1 < name.length then some (String.ofList after.reverse) else none

def isScript (parts : List String) : Bool :=
  (parts.getLast?.bind extension?).any fun extension => Text.smallLetters extension == "sql"

/-- The scripts below a directory, in the order of the names on the way to them. -/
def scriptsBelow (below : List (List String)) : List (List String) :=
  (below.filter isScript).mergeSort fun a b => (compare a b).isLE

/-- The paths that an input stands for: the scripts in a directory, or itself. -/
def expand (files : Files) (input : String) : List String :=
  match files input with
  | .ok (.directory below) => (scriptsBelow below).map (joinPath input)
  | _ => [input]

def readUnit (files : Files) (path : String) : Except Failure Assessment.SourceUnit :=
  match files.read path with
  | .ok text => .ok ⟨path, text⟩
  | .error error => .error ⟨["failed to read " ++ path, error.message]⟩

def collectUnits (files : Files) (inputs : List String) :
    Except Failure (List Assessment.SourceUnit) :=
  (inputs.flatMap (expand files)).mapM (readUnit files)

/-- Text in a column of at least `width` characters. -/
def column (width : Nat) (text : String) : String :=
  text ++ String.ofList (List.replicate (width - text.length) ' ')

def ruleLine (rule : Rule) : String :=
  column 8 rule.severity.name ++ " " ++ column 36 rule.id ++ " " ++ column 20 rule.target.name ++
    " " ++ rule.message ++ "\n"

def listRules (catalog : Catalog) : String :=
  "engine version " ++ catalog.version ++ "\n" ++ String.join (catalog.rules.map ruleLine)

/-- What a run comes to. A deadline that no clock reaches breaks it off. -/
inductive Ending where
  | listing (catalog : Catalog)
  | assessed (catalog : Catalog) (report : Report)
  | failed (failure : Failure)
  | aborted

/-- A run on a machine that was started `uptime` seconds ago. Its clock counts seconds from then on
in 63 bits, and a deadline has to be a time of that clock. -/
def run (files : Files) (options : Options) (uptime : Nat) : Ending :=
  match loadCatalog files options with
  | .error failure => .failed failure
  | .ok catalog =>
    if options.listRules then .listing catalog
    else match collectUnits files options.inputs with
      | .error failure => .failed failure
      | .ok units =>
        if options.timeoutSecs.any fun seconds => Nat.pow 2 63 ≤ uptime + seconds then .aborted
        else .assessed catalog (Assessment.run catalog (options.dialect.getD .postgres)
          (options.timeoutSecs == some 0) units)

namespace Ending

/-- The run ends with a message instead of a result. -/
def isError : Ending → Bool
  | .listing _ | .assessed _ _ => false
  | .failed _ | .aborted => true

/-- A blocker is told by the exit code; warnings are not. -/
def code : Ending → Nat
  | .listing _ => 0
  | .assessed _ report => if report.status = .fail then 2 else 0
  | .failed _ => 1
  | .aborted => 101

/-- The result or the message, for a run that began at `startedAt` and took `elapsedMs`. -/
def text (options : Options) (startedAt : Timestamp) (elapsedMs : Nat) : Ending → String
  | .listing catalog => listRules catalog
  | .assessed catalog report =>
    let report := report.withMetadata ⟨catalog.version, startedAt, elapsedMs⟩
    match options.format.getD .json with
    | .json => report.toJson.pretty
    | .text => report.render
  | .failed failure => failure.message
  | .aborted => "error: the deadline is out of range"

end Ending

def writeFailure (path : String) (error : FileError) : Failure :=
  ⟨["failed to write " ++ path, error.message]⟩

end SqlAudit.CommandLine
