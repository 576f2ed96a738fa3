import SqlAudit.Text.Case
/-! How much a finding weighs, from what cannot run to what is worth knowing. -/
namespace SqlAudit

inductive Severity where
  | blocker
  | warning
  | info
  deriving DecidableEq, Repr, Inhabited

namespace Severity

def all : List Severity := [.blocker, .warning, .info]

def name : Severity → String
  | .blocker => "BLOCKER"
  | .warning => "WARNING"
  | .info => "INFO"

/-- Zero is the most severe. -/
def rank : Severity → Nat
  | .blocker => 0
  | .warning => 1
  | .info => 2

/-- The severity that is written exactly so. -/
def ofExactName? (text : String) : Option Severity :=
  all.find? fun severity => severity.name == text

/-- The severity of a name in any case. -/
def ofName? (text : String) : Option Severity := ofExactName? (Text.capitals text)

def unknownMessage (text : String) : String := "unknown severity: " ++ Text.capitals text

end Severity
end SqlAudit
