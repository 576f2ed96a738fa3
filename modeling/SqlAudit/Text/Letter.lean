import SqlAudit.Text.AlphabeticTable
import SqlAudit.Text.NumericTable
/-!
Letters and digits. Below 128 they are the familiar ones; above, the property tables decide.
-/
namespace SqlAudit.Text

def inRanges (ranges : List (Nat × Nat)) (n : Nat) : Bool :=
  ranges.any fun (low, high) => low ≤ n && n ≤ high

def isLetter (c : Char) : Bool :=
  if c.toNat < 128 then c.isAlpha else inRanges alphabeticRanges c.toNat

def isNumeral (c : Char) : Bool :=
  if c.toNat < 128 then c.isDigit else inRanges numericRanges c.toNat

def isLetterOrNumeral (c : Char) : Bool := isLetter c || isNumeral c

def isHexDigit (c : Char) : Bool :=
  c.isDigit || ('a' ≤ c && c ≤ 'f') || ('A' ≤ c && c ≤ 'F')

end SqlAudit.Text
