import SqlAudit.Tree.Kind
/-! Why a rule could not be applied to a construct. -/
namespace SqlAudit

inductive RuleFault where
  | wrongTarget (expected found : NodeKind)
  | invalidNumber (option value : String)
  | missingArgument (option : String)
  | invalidCheck (reason : String)
  | custom (text : String)
  deriving DecidableEq, Repr

def RuleFault.message : RuleFault → String
  | .wrongTarget expected found =>
    "check applies to " ++ expected.name ++ " nodes, not " ++ found.name
  | .invalidNumber option value => option ++ " has a non-integer argument '" ++ value ++ "'"
  | .missingArgument option => option ++ " has no argument"
  | .invalidCheck reason => "invalid check configuration: " ++ reason
  | .custom text => text

end SqlAudit
