import SqlAudit.Catalog.Basic
/-!
Versioned definitions. A version may start from the rules of another one; it adds rules, replaces
inherited ones that it names, and drops others.
-/
namespace SqlAudit.Catalog

/-- A rule as a version declares it; with `replaces` it takes the place of an inherited one. -/
structure Declaration where
  rule : Rule
  replaces : Bool

structure Version where
  parent : Option String
  declarations : List Declaration
  disabled : List String

structure Definition where
  defaultVersion : String
  versions : List (String × Version)

namespace Definition

def version? (definition : Definition) (name : String) : Option Version :=
  definition.versions.lookup name

/-- Follows the parents from `name`, a version whose descendants are in `path`, the nearest first.
Every step adds a version that is not in `path`, so there are at most as many as versions. -/
def follow (definition : Definition) (path : List String) (name : String) (version : Version) :
    Nat → Except CatalogError (List String)
  | 0 => .error (.inheritanceCycle (path.reverse ++ [name]))
  | fuel + 1 =>
    if path.contains name then .error (.inheritanceCycle (path.reverse ++ [name]))
    else match version.parent with
      | none => .ok (name :: path)
      | some parent =>
        match definition.version? parent with
        | none => .error (.unknownParent name parent)
        | some next => follow definition (name :: path) parent next fuel

/-- The versions whose rules make up those of `name`: one without a parent first, `name` last. -/
def chain (definition : Definition) (name : String) : Except CatalogError (List String) :=
  match definition.version? name with
  | none => .error (.unknownVersion name)
  | some version => definition.follow [] name version (definition.versions.length + 1)

def defect? (rule : Rule) : Option RuleDefect :=
  if Text.isBlankText rule.id then some .blankId
  else if Text.isBlankText rule.message then some .blankMessage
  else if rule.target = .unparsed then some .reservedTarget
  else none

/-- The rules with `rule` in the place of the one of the same name. -/
def replaceRule (rule : Rule) (rules : List Rule) : List Rule :=
  rules.map fun other => if other.id == rule.id then rule else other

/-- The rules after the declarations of the version `name`, which has declared `seen` before. -/
def declare (name : String) (seen : List String) (rules : List Rule) :
    List Declaration → Except CatalogError (List Rule)
  | [] => .ok rules
  | ⟨rule, replaces⟩ :: declarations =>
    match defect? rule with
    | some defect => .error (.invalidRule rule.id defect)
    | none =>
      let isKnown := rules.any fun other => other.id == rule.id
      if seen.contains rule.id || (isKnown && !replaces) then
        .error (.duplicateRule rule.id name)
      else if replaces && !isKnown then .error (.unknownOverride rule.id name)
      else
        declare name (rule.id :: seen)
          (if replaces then replaceRule rule rules else rules ++ [rule]) declarations

/-- The rules without those that the version `name` disables. -/
def disable (name : String) (rules : List Rule) : List String → Except CatalogError (List Rule)
  | [] => .ok rules
  | id :: ids =>
    if rules.any fun rule => rule.id == id then
      disable name (rules.filter fun rule => rule.id != id) ids
    else .error (.unknownDisabled id name)

/-- What the version `name` makes of the rules that it inherits. -/
def apply (definition : Definition) (rules : List Rule) (name : String) :
    Except CatalogError (List Rule) :=
  match definition.version? name with
  | none => .error (.unknownVersion name)
  | some version => do
    let rules ← declare name [] rules version.declarations
    disable name rules version.disabled

/-- The rules in force for the version `name`. -/
def resolve (definition : Definition) (name : String) : Except CatalogError (List Rule) := do
  (← definition.chain name).foldlM definition.apply []

end Definition

/-- The catalog of a version, or of the default one. -/
def ofDefinition (definition : Definition) (version : Option String) :
    Except CatalogError Catalog := do
  let version := version.getD definition.defaultVersion
  ofRules version (← definition.resolve version)

end SqlAudit.Catalog
