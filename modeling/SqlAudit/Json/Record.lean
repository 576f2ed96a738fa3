import SqlAudit.Json.Basic
/-! The fields of an object that is read as a record. -/
namespace SqlAudit.Json

abbrev Fields := List (String × Json)

namespace Fields

/-- None of these fields comes twice. -/
def haveOnce (fields : Fields) (names : List String) : Bool :=
  names.all fun name => (fields.filter fun field => field.1 == name).length ≤ 1

/-- There are no other fields than these, and none of them comes twice. -/
def haveOnly (fields : Fields) (names : List String) : Bool :=
  fields.haveOnce names && fields.all fun field => names.contains field.1

/-- A field that may be left out: `absent` stands for it then. -/
def optional {α : Type} (fields : Fields) (name : String) (absent : α) (decode : Json → Option α) :
    Option α :=
  match fields.lookup name with
  | none => some absent
  | some json => decode json

def required {α : Type} (fields : Fields) (name : String) (decode : Json → Option α) : Option α :=
  (fields.lookup name).bind decode

end Fields

/-- `null` stands for nothing. -/
def nullable {α : Type} (decode : Json → Option α) : Json → Option (Option α)
  | .null => some none
  | json => (decode json).map some

def list? {α : Type} (decode : Json → Option α) (json : Json) : Option (List α) :=
  json.items?.bind fun items => items.mapM decode

end SqlAudit.Json
