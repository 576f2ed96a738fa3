/-! Replacing every occurrence of a word in a text. -/
namespace SqlAudit.Text

/-- Copies a text with `value` for every occurrence of `word`, found from left to right and not
overlapping; `skip` characters of an occurrence are still to be passed. -/
def substituteFrom (word value : List Char) (skip : Nat) : List Char → List Char
  | [] => []
  | c :: rest =>
    match skip with
    | skip + 1 => substituteFrom word value skip rest
    | 0 =>
      if word.isPrefixOf (c :: rest) then value ++ substituteFrom word value (word.length - 1) rest
      else c :: substituteFrom word value 0 rest

/-- `text` with `value` for every occurrence of `word`, which is not empty. -/
def substitute (word value text : String) : String :=
  String.ofList (substituteFrom word.toList value.toList 0 text.toList)

end SqlAudit.Text
