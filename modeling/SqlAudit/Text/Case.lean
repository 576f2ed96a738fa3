import SqlAudit.Text.CasingTable
import SqlAudit.Text.Letter
import SqlAudit.Text.LowercaseTable
/-!
Letter case. Words of the language are compared by their ASCII capitals; names are folded to
lowercase by the full mapping, in which a capital sigma at the end of a word becomes a final sigma
and a dotted capital I becomes two characters.
-/
namespace SqlAudit.Text

/-- ASCII letters become capitals, all else stays. -/
def capitals (text : String) : String := String.ofList (text.toList.map Char.toUpper)

/-- ASCII letters become small, all else stays. -/
def smallLetters (text : String) : String := String.ofList (text.toList.map Char.toLower)

def lowercaseChar (c : Char) : Char :=
  if c.toNat < 128 then c.toLower
  else match lowercaseShifts.find? fun (low, high, step, _) =>
      low ≤ c.toNat && c.toNat ≤ high && (c.toNat - low) % step == 0 with
    | some (_, _, _, shift) => Char.ofNat (c.toNat + shift).toNat
    | none => c

def isCased (c : Char) : Bool :=
  if c.toNat < 128 then c.isAlpha else inRanges casedRanges c.toNat

def isCaseIgnorable (c : Char) : Bool :=
  if c.toNat < 128 then ['\x27', '.', ':', '^', '\x60'].contains c
  else inRanges caseIgnorableRanges c.toNat

/-- The nearest character that does not ignore case has one. -/
def meetsCased (chars : List Char) : Bool :=
  match chars.dropWhile isCaseIgnorable with
  | c :: _ => isCased c
  | [] => false

/-- The lowercase of `c` between `before`, nearest character first, and `after`. -/
def lowercaseBetween (before : List Char) (c : Char) (after : List Char) : List Char :=
  if c = '\u03a3' then [if meetsCased before && !meetsCased after then '\u03c2' else '\u03c3']
  else if c = '\u0130' then ['i', '\u0307']
  else [lowercaseChar c]

def lowercaseAfter (before : List Char) : List Char → List Char
  | [] => []
  | c :: after => lowercaseBetween before c after ++ lowercaseAfter (c :: before) after

def lowercase (text : String) : String := String.ofList (lowercaseAfter [] text.toList)

end SqlAudit.Text
