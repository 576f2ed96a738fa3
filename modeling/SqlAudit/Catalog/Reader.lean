import SqlAudit.Catalog.Definition
import SqlAudit.Json.Reader
import SqlAudit.Rule.Reader
/-!
Definitions in their JSON form. A definition, a version and a rule hold no field that is not
theirs and none twice; of a version that is written twice the last one counts.
-/
namespace SqlAudit.Catalog

def Declaration.ofJson? (json : Json) : Option Declaration := do
  let fields : Json.Fields ← json.fields?
  let rule ← Rule.ofFields? Check.noCustom fields
  let replaces ← fields.optional "override" false Json.bool?
  if fields.haveOnly ["id", "target", "when", "severity", "message", "override"] then
    some ⟨rule, replaces⟩
  else none

def Version.ofJson? (json : Json) : Option Version := do
  let fields : Json.Fields ← json.fields?
  let parent ← fields.optional "inherit_from" none (Json.nullable Json.string?)
  let declarations ← fields.optional "rules" [] (Json.list? Declaration.ofJson?)
  let disabled ← fields.optional "disable" [] (Json.list? Json.string?)
  if fields.haveOnly ["inherit_from", "rules", "disable"] then
    some ⟨parent, declarations, disabled⟩
  else none

namespace Definition

/-- Every version once, with what it was given last. -/
def lastOfEach : List (String × Version) → List (String × Version)
  | [] => []
  | (name, version) :: versions =>
    let rest := lastOfEach versions
    if versions.any fun other => other.1 == name then rest else (name, version) :: rest

def ofJson? (json : Json) : Option Definition := do
  let fields : Json.Fields ← json.fields?
  let defaultVersion ← fields.required "default_version" Json.string?
  let versions ← fields.required "versions" fun json => json.fields?.bind fun versions =>
    versions.mapM fun (name, json) => (Version.ofJson? json).map fun version => (name, version)
  if fields.haveOnly ["default_version", "versions"] then
    some ⟨defaultVersion, lastOfEach versions⟩
  else none

def ofText (text : String) : Except CatalogError Definition :=
  match (Json.read text).bind ofJson? with
  | some definition => .ok definition
  | none => .error .malformed

end Definition

/-- The catalog of a version of the definition that a text holds, or of its default version. -/
def ofText (text : String) (version : Option String) : Except CatalogError Catalog := do
  ofDefinition (← Definition.ofText text) version

end SqlAudit.Catalog
