import SqlAudit.Token
/-!
How tightly operators bind. An infix operator of power `p` takes a left operand of power `p` and a
right operand of power `p + 1`, so operators of one level group to the left.
-/
namespace SqlAudit

namespace Binding

/-- Signs and bitwise not. -/
def sign : Nat := 19

def logicalNot : Nat := 5

/-- Right operands of comparisons. -/
def comparisonOperand : Nat := 6

/-- The levels of infix operators, from OR to powers. -/
def levels : List Nat := [1, 3, 5, 7, 9, 11, 13, 15, 17]

end Binding

def Symbol.infixPower? : Symbol → Option Nat
  | .equal | .notEqual | .less | .lessEqual | .greater | .greaterEqual => some 5
  | .bitOr => some 7
  | .bitAnd => some 9
  | .shiftLeft | .shiftRight => some 11
  | .plus | .minus | .concat => some 13
  | .star | .slash | .percent => some 15
  | .caret => some 17
  | _ => none

def Keyword.infixPower? : Keyword → Option Nat
  | .OR => some 1
  | .AND => some 3
  | .IS | .IN | .BETWEEN | .LIKE | .ILIKE | .NOT => some 5
  | _ => none

/-- The power of an infix operator; NOT is one where it denies a predicate. -/
def Lexeme.infixPower? : Lexeme → Option Nat
  | .symbol s => s.infixPower?
  | .keyword k => k.infixPower?
  | .operator _ => some 7
  | _ => none

end SqlAudit
