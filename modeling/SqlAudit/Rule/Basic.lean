import SqlAudit.Rule.Check
import SqlAudit.Severity
import SqlAudit.Text.Substitution
/-! Rules: which constructs they look at, when they apply, and what they say then. -/
namespace SqlAudit

structure Rule where
  id : String
  target : NodeKind
  check : Check
  severity : Severity
  message : String

namespace Rule

/-- Fills in the placeholders of a message one after the other: the value of the node, its kind,
and the detail of the match. -/
def render (message : String) (value : Option String) (kind : NodeKind)
    (detail : Option String) : String :=
  let message := Text.substitute "\x7bvalue\x7d" (value.getD "") message
  let message := Text.substitute "\x7bkind\x7d" kind.name message
  Text.substitute "\x7bdetail\x7d" (detail.getD "") message

end Rule
end SqlAudit
