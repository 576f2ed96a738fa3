import SqlAudit.Json.Basic
/-! The text of a JSON value: on one line, or indented by two spaces a level. -/
namespace SqlAudit.Json

def hexDigit (n : Nat) : Char := Char.ofNat (if n < 10 then 48 + n else 87 + n)

def escapeChar (c : Char) : List Char :=
  if c = '"' then ['\\', '"']
  else if c = '\\' then ['\\', '\\']
  else if c = '\n' then ['\\', 'n']
  else if c = '\r' then ['\\', 'r']
  else if c = '\t' then ['\\', 't']
  else if c.toNat = 8 then ['\\', 'b']
  else if c.toNat = 12 then ['\\', 'f']
  else if c.toNat < 32 then ['\\', 'u', '0', '0', hexDigit (c.toNat / 16), hexDigit (c.toNat % 16)]
  else [c]

def quote (text : String) : String :=
  "\"" ++ String.ofList (text.toList.flatMap escapeChar) ++ "\""

mutual

/-- Adds a value on one line to `out`. -/
def addCompact (out : String) : Json → String
  | .null => out ++ "null"
  | .bool value => out ++ if value then "true" else "false"
  | .number text => out ++ text
  | .string value => out ++ quote value
  | .array items => addCompactItems (out ++ "[") items ++ "]"
  | .object fields => addCompactFields (out ++ "\x7b") fields ++ "\x7d"

def addCompactItems (out : String) : List Json → String
  | [] => out
  | [item] => addCompact out item
  | item :: items => addCompactItems (addCompact out item ++ ",") items

def addCompactFields (out : String) : List (String × Json) → String
  | [] => out
  | [(name, value)] => addCompact (out ++ quote name ++ ":") value
  | (name, value) :: fields =>
    addCompactFields (addCompact (out ++ quote name ++ ":") value ++ ",") fields

end

/-- A value on one line. -/
def compact (json : Json) : String := addCompact "" json

def indent (depth : Nat) : String := String.ofList (List.replicate (2 * depth) ' ')

mutual

/-- Adds a value to `out`. An empty array or object stays on its line; any other opens a block one
level deeper. -/
def addPretty (depth : Nat) (out : String) : Json → String
  | .null => out ++ "null"
  | .bool value => out ++ if value then "true" else "false"
  | .number text => out ++ text
  | .string value => out ++ quote value
  | .array [] => out ++ "[]"
  | .array items => addPrettyItems depth (out ++ "[\n") items ++ "\n" ++ indent depth ++ "]"
  | .object [] => out ++ "\x7b\x7d"
  | .object fields =>
    addPrettyFields depth (out ++ "\x7b\n") fields ++ "\n" ++ indent depth ++ "\x7d"

def addPrettyItems (depth : Nat) (out : String) : List Json → String
  | [] => out
  | [item] => addPretty (depth + 1) (out ++ indent (depth + 1)) item
  | item :: items =>
    addPrettyItems depth (addPretty (depth + 1) (out ++ indent (depth + 1)) item ++ ",\n") items

def addPrettyFields (depth : Nat) (out : String) : List (String × Json) → String
  | [] => out
  | [(name, value)] =>
    addPretty (depth + 1) (out ++ indent (depth + 1) ++ quote name ++ ": ") value
  | (name, value) :: fields =>
    addPrettyFields depth
      (addPretty (depth + 1) (out ++ indent (depth + 1) ++ quote name ++ ": ") value ++ ",\n")
      fields

end

/-- A value on lines of its own, two spaces deeper at every level. -/
def pretty (json : Json) : String := addPretty 0 "" json

end SqlAudit.Json
