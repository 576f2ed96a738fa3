import SqlAudit.Token
/-! Why a statement could not be read, and where. -/
namespace SqlAudit

/-- How deep expressions and queries may nest. -/
def maxDepth : Nat := 64

inductive SyntaxError.Cause where
  | unexpected (expected found : String)
  | endOfInput (expected : String)
  | lexical (message expected : String)
  | tooDeep
  deriving DecidableEq, Repr

structure SyntaxError where
  cause : SyntaxError.Cause
  span : Span
  deriving DecidableEq, Repr

namespace SyntaxError

/-- Something was `expected` where `found` stands. An invalid token keeps its own message. -/
def unexpected (expected : String) (found : Token) : SyntaxError :=
  ⟨match found.lexeme with
    | .invalid message => .lexical message expected
    | .finish => .endOfInput expected
    | lexeme => .unexpected expected lexeme.describe, found.span⟩

def message (error : SyntaxError) : String :=
  match error.cause with
  | .unexpected expected found => "Unexpected token: expected " ++ expected ++ ", found " ++ found
  | .endOfInput expected => "Unexpected end of input: expected " ++ expected
  | .lexical message _ => message
  | .tooDeep => "Maximum nesting depth of " ++ toString maxDepth ++ " exceeded"

def expected? (error : SyntaxError) : Option String :=
  match error.cause with
  | .unexpected expected _ | .endOfInput expected | .lexical _ expected => some expected
  | .tooDeep => none

def found? (error : SyntaxError) : Option String :=
  match error.cause with
  | .unexpected _ found => some found
  | .endOfInput _ => some "end of input"
  | .lexical _ _ | .tooDeep => none

def render (error : SyntaxError) : String :=
  error.message ++ " at position " ++ toString error.span.start ++ ".." ++ toString error.span.stop

end SyntaxError
end SqlAudit
