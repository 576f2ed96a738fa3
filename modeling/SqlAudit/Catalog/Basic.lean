import SqlAudit.Catalog.Error
import SqlAudit.Rule.Basic
import SqlAudit.Text.Blank
/-! The rules in force for one version of the engine. -/
namespace SqlAudit

/-- The rules stand in the order of the kinds that they look at. -/
structure Catalog where
  version : String
  rules : List Rule

namespace Catalog

/-- The first rule that lacks an identifier or a message, or repeats an identifier in `seen`. -/
def firstFault? (version : String) (seen : List String) : List Rule → Option CatalogError
  | [] => none
  | rule :: rules =>
    if Text.isBlankText rule.id || Text.isBlankText rule.message then
      some (.invalidRule rule.id .blank)
    else if seen.contains rule.id then some (.duplicateRule rule.id version)
    else firstFault? version (rule.id :: seen) rules

/-- Rules for the same kind keep their order. -/
def ofRules (version : String) (rules : List Rule) : Except CatalogError Catalog :=
  match firstFault? version [] rules with
  | some error => .error error
  | none => .ok ⟨version, rules.mergeSort fun a b => a.target.rank ≤ b.target.rank⟩

/-- Neighbours that look at one kind, from the place `start` up to before `stop`. -/
structure Stretch where
  kind : NodeKind
  start : Nat
  stop : Nat
  deriving DecidableEq, Repr

/-- The stretches that rules fall into, of which the first begins at `start`. -/
def stretches (start : Nat) : List Rule → List Stretch
  | [] => []
  | rule :: rules =>
    let stop := start + 1 + (rules.takeWhile (·.target = rule.target)).length
    ⟨rule.target, start, stop⟩ :: stretches stop (rules.dropWhile (·.target = rule.target))
  termination_by rules => rules.length
  decreasing_by exact Nat.lt_succ_of_le (List.dropWhile_suffix _).length_le

/-- Where the rules for each kind stand. -/
def byKind (catalog : Catalog) : List Stretch := stretches 0 catalog.rules

/-- Where the rule of each name stands. -/
def byId (catalog : Catalog) : List (String × Nat) :=
  catalog.rules.zipIdx.map fun (rule, place) => (rule.id, place)

/-- The rules in the stretches for a kind; in rules that are in order there is at most one. -/
def rulesFor (catalog : Catalog) (kind : NodeKind) : List Rule :=
  (catalog.byKind.filter (·.kind = kind)).flatMap fun stretch =>
    (catalog.rules.take stretch.stop).drop stretch.start

def rule? (catalog : Catalog) (id : String) : Option Rule :=
  (catalog.byId.lookup id).bind fun place => catalog.rules[place]?

def withoutRule (catalog : Catalog) (id : String) : Except CatalogError Catalog :=
  if (catalog.rule? id).isNone then .error (.unknownDisabled id catalog.version)
  else ofRules catalog.version (catalog.rules.filter fun rule => rule.id != id)

end Catalog
end SqlAudit
