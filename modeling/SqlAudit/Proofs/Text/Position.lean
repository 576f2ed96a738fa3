import Mathlib.Data.List.DropRight
import SqlAudit.Proofs.Token.Lossless
import SqlAudit.Text.LineIndex
/-!
Positions are exact. Each line of an index is a stretch of the text up to its line break, so the line
and the column of an offset are what one counts on the way through the characters before it.
-/
namespace SqlAudit

namespace Position

/-- Where the count of lines and columns has come to behind these characters. -/
def behind (front : List Char) : Position :=
  ⟨1 + front.count '\n', 1 + (front.rtakeWhile (· != '\n')).length⟩

/-- On an earlier line, or on the same line in an earlier column. -/
def Precedes (p q : Position) : Prop :=
  p.line < q.line ∨ (p.line = q.line ∧ p.column < q.column)

variable {p q : Position} {front more : List Char}

end Position

namespace LineIndex

/-- The offset is that of the end of `front`, or lies beyond the text and that is its end. -/
def Reaches (front back : List Char) (offset : Nat) : Prop :=
  min offset (Lexer.size (front ++ back)) = Lexer.size front

variable {front back : List Char} {offset : Nat} {line : Line} {lines : List Line}

theorem Reaches.cases (reaches : Reaches front back offset) :
    Lexer.size front ≤ offset ∧ (offset = Lexer.size front ∨ back = []) := by
  rw [Reaches, Lexer.size_append] at reaches
  constructor
  · omega
  · by_cases last : back = []
    · exact .inr last
    · have more := Lexer.size_pos last
      left
      omega

variable {text : String}

end LineIndex

end SqlAudit
