import SqlAudit.Text.Decimal
/-!
JSON values as they are written: a number keeps its text and an object its fields in order, also
those that come twice.
-/
namespace SqlAudit

inductive Json where
  | null
  | bool (value : Bool)
  | number (text : String)
  | string (value : String)
  | array (items : List Json)
  | object (fields : List (String × Json))
  deriving Repr, Inhabited

namespace Json

def ofNat (n : Nat) : Json := .number (toString n)

/-- `null` for a missing value. -/
def ofOption {α : Type} (write : α → Json) : Option α → Json
  | some a => write a
  | none => .null

def ofList {α : Type} (write : α → Json) (items : List α) : Json := .array (items.map write)

def fields? : Json → Option (List (String × Json))
  | .object fields => some fields
  | _ => none

def items? : Json → Option (List Json)
  | .array items => some items
  | _ => none

def string? : Json → Option String
  | .string value => some value
  | _ => none

def bool? : Json → Option Bool
  | .bool value => some value
  | _ => none

/-- The value of a number written without a fraction or an exponent; `-0` has none. -/
def int? : Json → Option Int
  | .number text => if text == "-0" then none else Text.integer? text.toList
  | _ => none

def nat? (json : Json) : Option Nat := json.int?.bind fun n => if 0 ≤ n then some n.toNat else none

/-- The first field called `name`; absent and `null` are told apart. -/
def field? (json : Json) (name : String) : Option Json :=
  json.fields?.bind fun fields => (fields.find? fun field => field.1 == name).map (·.2)

/-- The first field called `name` unless it is `null`. -/
def get? (json : Json) (name : String) : Option Json :=
  match json.field? name with
  | some .null => none
  | value => value

end Json
end SqlAudit
