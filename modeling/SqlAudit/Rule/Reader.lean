import SqlAudit.Json.Record
import SqlAudit.Rule.Basic
/-!
Rules in their JSON form. A check is an object whose field `check` names it; what else it holds is
left alone unless the check has a field of that name. A rule holds nothing but its own fields.
-/
namespace SqlAudit

def NodeKind.ofJson? (json : Json) : Option NodeKind := json.string?.bind NodeKind.ofName?

def Severity.ofJson? (json : Json) : Option Severity := json.string?.bind Severity.ofExactName?

namespace Sequence.Limits

/-- A whole number of 64 bits. -/
def bound? (json : Json) : Option Int := json.int?.filter (Text.fitsSigned 64)

def ofFields? (fields : Json.Fields) : Option Limits := do
  let routers ← fields.optional "routers" standard.routers bound?
  let maxChunk ← fields.optional "max_chunk" standard.maxChunk bound?
  let minSize ← fields.optional "min_size" standard.minSize bound?
  if fields.haveOnce ["routers", "max_chunk", "min_size"] then some ⟨routers, maxChunk, minSize⟩
  else none

end Sequence.Limits

namespace Check

def values? : Json → Option (List String) := Json.list? Json.string?

def kindAndValues? (fields : Json.Fields) : Option (NodeKind × Option (List String)) := do
  let kind ← fields.required "kind" NodeKind.ofJson?
  let values ← fields.optional "values" none (Json.nullable values?)
  if fields.haveOnce ["kind", "values"] then some (kind, values) else none

/-- A check that holds no other check. -/
def ofName? (name : String) (fields : Json.Fields) : Option Check :=
  match name with
  | "present" => some .present
  | "value_in" =>
    if fields.haveOnce ["values"] then (fields.required "values" values?).map .valueIn else none
  | "value_not_in" =>
    if fields.haveOnce ["values"] then (fields.required "values" values?).map .valueNotIn else none
  | "has_child" => (kindAndValues? fields).map fun (kind, values) => .hasChild kind values
  | "lacks_child" =>
    if fields.haveOnce ["kind"] then
      (fields.required "kind" NodeKind.ofJson?).map .lacksChild
    else none
  | "parent_has_child" =>
    (kindAndValues? fields).map fun (kind, values) => .parentHasChild kind values
  | "within" => do
    let kind ← fields.required "kind" NodeKind.ofJson?
    let having ← fields.optional "having" none (Json.nullable NodeKind.ofJson?)
    if fields.haveOnce ["kind", "having"] then some (.within kind having) else none
  | "sequence_capacity" => (Sequence.Limits.ofFields? fields).map .sequenceCapacity
  | _ => none

/-- The name of the check that the fields describe. -/
def name? (fields : Json.Fields) : Option String :=
  if fields.haveOnce ["check"] then fields.required "check" Json.string? else none

mutual

/-- A check. Objects that `custom?` knows are its own: a caller may have checks by other names. -/
def ofJson? (custom? : Json.Fields → Option Check) : Json → Option Check
  | .object fields =>
    match custom? fields with
    | some check => some check
    | none =>
      match name? fields with
      | none => none
      | some "not" =>
        if Json.Fields.haveOnce fields ["of"] then (ofField? custom? "of" fields).map .not
        else none
      | some "all" =>
        if Json.Fields.haveOnce fields ["checks"] then
          (listOfField? custom? "checks" fields).map .all
        else none
      | some "any" =>
        if Json.Fields.haveOnce fields ["checks"] then
          (listOfField? custom? "checks" fields).map .any
        else none
      | some name => ofName? name fields
  | _ => none

/-- The check in the field called `name`. -/
def ofField? (custom? : Json.Fields → Option Check) (name : String) :
    List (String × Json) → Option Check
  | [] => none
  | (field, json) :: fields =>
    if field == name then ofJson? custom? json else ofField? custom? name fields

/-- The checks in the field called `name`. -/
def listOfField? (custom? : Json.Fields → Option Check) (name : String) :
    List (String × Json) → Option (List Check)
  | [] => none
  | (field, .array items) :: fields =>
    if field == name then listOfItems? custom? items else listOfField? custom? name fields
  | (field, _) :: fields => if field == name then none else listOfField? custom? name fields

def listOfItems? (custom? : Json.Fields → Option Check) : List Json → Option (List Check)
  | [] => some []
  | json :: items =>
    match ofJson? custom? json, listOfItems? custom? items with
    | some check, some checks => some (check :: checks)
    | _, _ => none

end

/-- No checks but the ones of this library. -/
def noCustom (_ : Json.Fields) : Option Check := none

end Check

/-- The rule that the fields describe; a rule without a condition always applies. -/
def Rule.ofFields? (custom? : Json.Fields → Option Check) (fields : Json.Fields) : Option Rule := do
  let id ← fields.required "id" Json.string?
  let target ← fields.required "target" NodeKind.ofJson?
  let check ← fields.optional "when" .present (Check.ofJson? custom?)
  let severity ← fields.required "severity" Severity.ofJson?
  let message ← fields.required "message" Json.string?
  some ⟨id, target, check, severity, message⟩

end SqlAudit
