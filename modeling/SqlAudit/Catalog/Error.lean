/-! Why a catalog could not be loaded. -/
namespace SqlAudit

/-- What is wrong with a rule by itself. -/
inductive RuleDefect where
  | blankId
  | blankMessage
  | reservedTarget
  | blank
  deriving DecidableEq, Repr

def RuleDefect.message : RuleDefect → String
  | .blankId => "identifier is empty"
  | .blankMessage => "message is empty"
  | .reservedTarget => "unparsed regions are reported by the engine itself"
  | .blank => "identifier and message must not be empty"

inductive CatalogError where
  | malformed
  | unreadable (path reason : String)
  | unknownVersion (version : String)
  | unknownParent (version parent : String)
  | inheritanceCycle (path : List String)
  | duplicateRule (id version : String)
  | unknownOverride (id version : String)
  | unknownDisabled (id version : String)
  | invalidRule (id : String) (defect : RuleDefect)
  deriving DecidableEq, Repr

def CatalogError.message : CatalogError → String
  | .malformed => "Invalid catalog definition"
  | .unreadable path reason => "Failed to read catalog '" ++ path ++ "': " ++ reason
  | .unknownVersion version =>
    "Engine version '" ++ version ++ "' is not defined in the catalog"
  | .unknownParent version parent =>
    "Version '" ++ version ++ "' inherits from '" ++ parent ++ "' which doesn't exist"
  | .inheritanceCycle path => "Circular inheritance detected: " ++ " -> ".intercalate path
  | .duplicateRule id version => "Duplicate rule '" ++ id ++ "' in version '" ++ version ++ "'"
  | .unknownOverride id version =>
    "Rule '" ++ id ++ "' in version '" ++ version ++ "' overrides a rule that is not inherited"
  | .unknownDisabled id version =>
    "Version '" ++ version ++ "' disables unknown rule '" ++ id ++ "'"
  | .invalidRule id defect => "Invalid rule '" ++ id ++ "': " ++ defect.message

end SqlAudit
