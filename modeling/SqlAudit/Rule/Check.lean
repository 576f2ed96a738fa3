import SqlAudit.Sequence.Options
import SqlAudit.Text.Case
/-! The predicates that decide whether a rule applies to a node. -/
namespace SqlAudit

/-- A rule applies; `detail` is text for its message. -/
structure Match where
  detail : Option String
  deriving DecidableEq, Repr

abbrev CheckResult := Except RuleFault (Option Match)

inductive Check where
  | present
  | valueIn (values : List String)
  | valueNotIn (values : List String)
  | hasChild (kind : NodeKind) (values : Option (List String))
  | lacksChild (kind : NodeKind)
  | parentHasChild (kind : NodeKind) (values : Option (List String))
  | within (kind : NodeKind) (having : Option NodeKind)
  | not (check : Check)
  | all (checks : List Check)
  | any (checks : List Check)
  | sequenceCapacity (limits : Sequence.Limits)
  | custom (run : Node → List Node → CheckResult)

namespace Check

/-- The value is one of `values`, whatever the case of its letters. -/
def valueAmong (value : Option String) (values : List String) : Bool :=
  value.any fun value => values.any fun other => Text.capitals other == Text.capitals value

def hasChildAmong (node : Node) (kind : NodeKind) (values : Option (List String)) : Bool :=
  (node.childrenOf kind).any fun child => values.all fun values => valueAmong child.value values

/-- A match without detail if `condition` holds. -/
def matchIf (condition : Bool) : CheckResult := .ok (if condition then some ⟨none⟩ else none)

mutual

/-- Applies a check to `node`, whose ancestors are given from the root on. -/
def evaluate (node : Node) (ancestors : List Node) : Check → CheckResult
  | .present => matchIf true
  | .valueIn values => matchIf (valueAmong node.value values)
  | .valueNotIn values => matchIf (node.value.isSome && !valueAmong node.value values)
  | .hasChild kind values => matchIf (hasChildAmong node kind values)
  | .lacksChild kind => matchIf (!node.hasChild kind)
  | .parentHasChild kind values =>
    matchIf (ancestors.getLast?.any fun parent => hasChildAmong parent kind values)
  | .within kind having =>
    matchIf (ancestors.any fun ancestor => ancestor.kind = kind && having.all ancestor.hasChild)
  | .not check =>
    match evaluate node ancestors check with
    | .ok found => matchIf found.isNone
    | .error fault => .error fault
  | .all checks => evaluateAll node ancestors none checks
  | .any checks => evaluateAny node ancestors checks
  | .sequenceCapacity limits =>
    (Sequence.capacity node limits).map fun problem =>
      problem.map fun problem => ⟨some problem.message⟩
  | .custom run => run node ancestors

/-- Every check has to match; the first detail is kept, and later checks are not tried once one
does not match. -/
def evaluateAll (node : Node) (ancestors : List Node) (detail : Option String) :
    List Check → CheckResult
  | [] => .ok (some ⟨detail⟩)
  | check :: checks =>
    match evaluate node ancestors check with
    | .ok (some found) => evaluateAll node ancestors (detail <|> found.detail) checks
    | .ok none => .ok none
    | .error fault => .error fault

/-- The first match counts. -/
def evaluateAny (node : Node) (ancestors : List Node) : List Check → CheckResult
  | [] => .ok none
  | check :: checks =>
    match evaluate node ancestors check with
    | .ok none => evaluateAny node ancestors checks
    | result => result

end

end Check
end SqlAudit
