/-!
Positions in a text as people count them: lines and columns start at one, and a column counts
characters rather than bytes. The index of a text is the list of its lines.
-/
namespace SqlAudit

structure Position where
  line : Nat
  column : Nat
  deriving DecidableEq, Repr, Inhabited

/-- A line with the line break that ends it. -/
structure Line where
  bytes : Nat
  text : List Char
  deriving DecidableEq, Repr

namespace Line

def empty : Line := ⟨0, []⟩

/-- The line with `c` in front. -/
def cons (c : Char) (line : Line) : Line := ⟨c.utf8Size + line.bytes, c :: line.text⟩

end Line

/-- The number of characters in the first `offset` bytes, of all if there are no more bytes. There
is none if they end within a character. -/
def charactersIn : List Char → Nat → Option Nat
  | [], _ => some 0
  | _, 0 => some 0
  | c :: rest, offset =>
    if offset < c.utf8Size then none
    else (charactersIn rest (offset - c.utf8Size)).map (· + 1)

/-- The lines of a text, of which there is at least one: the text after the last line break is a
line even if it is empty. -/
structure LineIndex where
  lines : List Line
  deriving DecidableEq, Repr

namespace LineIndex

/-- The lines of a text with `c` in front of these. -/
def addFront (c : Char) : List Line → List Line
  | [] => [Line.empty.cons c]
  | line :: lines =>
    if c = '\n' then Line.empty.cons c :: line :: lines else line.cons c :: lines

def ofText (text : String) : LineIndex := ⟨text.toList.foldr addFront [.empty]⟩

def lineCount (index : LineIndex) : Nat := index.lines.length

/-- The position of an offset in these lines, the first of which has the number `n`. Past the last
one it is the end of the text; within a character, bytes stand for the characters before it. -/
def positionIn (n : Nat) : List Line → Nat → Position
  | [], _ => ⟨n, 1⟩
  | line :: lines, offset =>
    if offset < line.bytes || lines.isEmpty then
      ⟨n, (charactersIn line.text offset).getD offset + 1⟩
    else positionIn (n + 1) lines (offset - line.bytes)

def position (index : LineIndex) (offset : Nat) : Position := positionIn 1 index.lines offset

end LineIndex
end SqlAudit
