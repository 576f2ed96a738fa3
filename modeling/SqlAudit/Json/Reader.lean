import SqlAudit.Json.Basic
import SqlAudit.Json.Number
import SqlAudit.Text.Letter
/-!
Reading JSON text. A text is one value between blanks. Strings hold no control characters and no
half of a surrogate pair, numbers have to fit a double, and nesting is bounded.
-/
namespace SqlAudit.Json

def isSpace (c : Char) : Bool := c == ' ' || c == '\n' || c == '\r' || c == '\t'

def hexValue (c : Char) : Nat :=
  if c.isDigit then c.toNat - 48 else if c.toNat < 97 then c.toNat - 55 else c.toNat - 87

/-- Four hexadecimal digits. -/
def readUnit : List Char → Option (Nat × List Char)
  | a :: b :: c :: d :: rest =>
    if [a, b, c, d].all Text.isHexDigit then
      some ([a, b, c, d].foldl (fun n digit => 16 * n + hexValue digit) 0, rest)
    else none
  | _ => none

/-- The character after a backslash and `u`; a high surrogate needs its low one. -/
def readUnicode (chars : List Char) : Option (Char × List Char) :=
  match readUnit chars with
  | none => none
  | some (high, rest) =>
    if 0xD800 ≤ high && high < 0xDC00 then
      match rest with
      | '\\' :: 'u' :: more =>
        match readUnit more with
        | some (low, rest) =>
          if 0xDC00 ≤ low && low < 0xE000 then
            some (Char.ofNat (0x10000 + (high - 0xD800) * 0x400 + (low - 0xDC00)), rest)
          else none
        | none => none
      | _ => none
    else if 0xDC00 ≤ high && high < 0xE000 then none
    else some (Char.ofNat high, rest)

def escaped? (c : Char) : Option Char :=
  if c = '"' || c = '\\' || c = '/' then some c
  else if c = 'b' then some (Char.ofNat 8)
  else if c = 'f' then some (Char.ofNat 12)
  else if c = 'n' then some '\n'
  else if c = 'r' then some '\r'
  else if c = 't' then some '\t'
  else none

/-- The rest of a string after its opening quote; `read` holds its characters backwards. Each of
them takes at least one of the characters in `left`. -/
def readString (read : List Char) : List Char → List Char → Option (String × List Char)
  | _ :: left, c :: rest =>
    if c = '"' then some (String.ofList read.reverse, rest)
    else if c.toNat < 32 then none
    else if c = '\\' then
      match rest with
      | 'u' :: more =>
        match readUnicode more with
        | some (c, rest) => readString (c :: read) left rest
        | none => none
      | e :: more =>
        match escaped? e with
        | some c => readString (c :: read) left more
        | none => none
      | [] => none
    else readString (c :: read) left rest
  | _, _ => none

def readWord (word : List Char) (value : Json) (chars : List Char) : Option (Json × List Char) :=
  if word.isPrefixOf chars then some (value, chars.drop word.length) else none

mutual

/-- One value; `depth` more levels of nesting are allowed. -/
def readValue (depth : Nat) : Nat → List Char → Option (Json × List Char)
  | 0, _ => none
  | fuel + 1, chars =>
    match chars.dropWhile isSpace with
    | [] => none
    | '"' :: rest =>
      (readString [] rest rest).map fun (text, rest) => (.string text, rest)
    | '[' :: rest =>
      if depth = 0 then none
      else match rest.dropWhile isSpace with
        | ']' :: rest => some (.array [], rest)
        | rest => readItems (depth - 1) [] fuel rest
    | '\x7b' :: rest =>
      if depth = 0 then none
      else match rest.dropWhile isSpace with
        | '\x7d' :: rest => some (.object [], rest)
        | rest => readFields (depth - 1) [] fuel rest
    | c :: rest =>
      if c = 'n' then readWord "null".toList .null (c :: rest)
      else if c = 't' then readWord "true".toList (.bool true) (c :: rest)
      else if c = 'f' then readWord "false".toList (.bool false) (c :: rest)
      else (readNumber (c :: rest)).map fun (text, rest) => (.number text, rest)

def readItems (depth : Nat) (read : List Json) : Nat → List Char → Option (Json × List Char)
  | 0, _ => none
  | fuel + 1, chars =>
    match readValue depth fuel chars with
    | none => none
    | some (item, rest) =>
      match rest.dropWhile isSpace with
      | ',' :: rest => readItems depth (item :: read) fuel rest
      | ']' :: rest => some (.array (item :: read).reverse, rest)
      | _ => none

def readFields (depth : Nat) (read : List (String × Json)) :
    Nat → List Char → Option (Json × List Char)
  | 0, _ => none
  | fuel + 1, chars =>
    match chars.dropWhile isSpace with
    | '"' :: rest =>
      match readString [] rest rest with
      | none => none
      | some (name, rest) =>
        match rest.dropWhile isSpace with
        | ':' :: rest =>
          match readValue depth fuel rest with
          | none => none
          | some (value, rest) =>
            match rest.dropWhile isSpace with
            | ',' :: rest => readFields depth ((name, value) :: read) fuel rest
            | '\x7d' :: rest => some (.object ((name, value) :: read).reverse, rest)
            | _ => none
        | _ => none
    | _ => none

end

/-- The value that a whole text holds, with at most `depth` levels of nesting. -/
def readWithin (depth : Nat) (text : String) : Option Json :=
  let chars := text.toList
  match readValue depth (2 * chars.length + 2) chars with
  | some (json, rest) => if rest.all isSpace then some json else none
  | none => none

/-- The value of a document of common depth: 127 levels. -/
def read (text : String) : Option Json := readWithin 127 text

end SqlAudit.Json
