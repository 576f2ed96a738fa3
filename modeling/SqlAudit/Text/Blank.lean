/-! White space: the 25 code points of the property White_Space. -/
namespace SqlAudit.Text

def isBlank (c : Char) : Bool :=
  (9 ≤ c.toNat && c.toNat ≤ 13) || c == ' ' || c.toNat == 133 || c.toNat == 160 ||
    c.toNat == 5760 || (8192 ≤ c.toNat && c.toNat ≤ 8202) || c.toNat == 8232 || c.toNat == 8233 ||
    c.toNat == 8239 || c.toNat == 8287 || c.toNat == 12288

/-- The maximal runs of characters that are not blank, in order. -/
def words (chars : List Char) : List (List Char) :=
  let (word, rest) := chars.foldr
    (fun c (word, rest) =>
      if isBlank c then ([], if word.isEmpty then rest else word :: rest) else (c :: word, rest))
    ([], [])
  if word.isEmpty then rest else word :: rest

/-- Every run of blanks becomes one space; none is left at the ends. -/
def collapse (chars : List Char) : List Char := [' '].intercalate (words chars)

def isBlankText (text : String) : Bool := text.toList.all isBlank

end SqlAudit.Text
