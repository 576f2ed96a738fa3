import SqlAudit.Grammar.Reading
import SqlAudit.Grammar.Statement
import SqlAudit.Text.Blank
import SqlAudit.Token.Lexer
/-!
Whole scripts. Reading a script never fails: a statement that cannot be read becomes an `unparsed`
node up to the next semicolon, which carries the message of its error, and reading goes on there.
-/
namespace SqlAudit

/-- What a script was read as, and the errors met on the way. -/
structure Script where
  root : Node
  errors : List SyntaxError
  deriving Repr

namespace Script

def isTerminator (lexeme : Lexeme) : Bool := lexeme == .symbol .semicolon || lexeme == .finish

/-- Reads one statement, without the semicolon after it. -/
def readStatement (c : Cursor) : Except (SyntaxError × Cursor) (Node × Cursor) :=
  match Grammar.statement.run Grammar.rules (.opened none c) c with
  | .ok (⟨_, _, _, node :: _⟩, c) => .ok (node, c)
  | .ok (⟨_, _, _, []⟩, c) => .error (.unexpected "statement" c.current, c)
  | .error e => .error e

/-- Reads a statement and makes sure that it ends there. -/
def readComplete (c : Cursor) : Except (SyntaxError × Cursor) (Node × Cursor) :=
  match readStatement c with
  | .ok (node, c) =>
    if isTerminator c.current.lexeme then .ok (node, c)
    else .error (.unexpected "; or end of input" c.current, c)
  | .error e => .error e

/-- Moves on to the end of the statement, at most once for each of the tokens given; `stop` is the
end of what was passed. -/
def skipStatement (stop : Nat) : List Token → Cursor → Nat × Cursor
  | [], c => (stop, c)
  | _ :: left, c =>
    if isTerminator c.current.lexeme then (stop, c)
    else skipStatement c.current.span.stop left c.advance

/-- The region from `start` to the end of the statement, given up for an error met at `c`. -/
def recover (start : Nat) (error : SyntaxError) (c : Cursor) : Node × Cursor :=
  let reached := if start ≤ c.previous.start then c.previous.stop else start
  let (stop, c) := skipStatement reached c.tokens c
  (.leaf .unparsed ⟨start, stop⟩ error.message, c)

/-- The statements from `c` on, each read from nesting depth zero, and their errors. -/
def statements : Nat → Cursor → List Node × List SyntaxError
  | 0, _ => ([], [])
  | fuel + 1, c =>
    match c.current.lexeme with
    | .symbol .semicolon => statements fuel c.advance
    | .finish => ([], [])
    | _ =>
      match readComplete { c with depth := 0 } with
      | .ok (node, c) =>
        let (nodes, errors) := statements fuel c
        (node :: nodes, errors)
      | .error (error, d) =>
        let (node, c) := recover c.current.span.start error d
        let (nodes, errors) := statements fuel c
        (node :: nodes, error :: errors)

/-- The text after its first `bytes` bytes. -/
def dropBytes : List Char → Nat → List Char
  | c :: rest, bytes + 1 => dropBytes rest (bytes + 1 - c.utf8Size)
  | text, _ => text

/-- The first `bytes` bytes of a text. -/
def takeBytes : List Char → Nat → List Char
  | c :: rest, bytes + 1 => c :: takeBytes rest (bytes + 1 - c.utf8Size)
  | _, _ => []

/-- The characters of a text in a span. -/
def source (text : List Char) (span : Span) : List Char :=
  takeBytes (dropBytes text span.start) span.length

mutual

/-- Gives each option of a routine its text as its value, on one line. -/
def nameOptions (text : List Char) : Node → Node
  | ⟨kind, span, value, children⟩ =>
    ⟨kind, span,
      if kind = .routineOption then some (String.ofList (Text.collapse (source text span)))
      else value,
      nameOptionsOfList text children⟩

def nameOptionsOfList (text : List Char) : List Node → List Node
  | [] => []
  | node :: nodes => nameOptions text node :: nameOptionsOfList text nodes

end

/-- The script that a list of tokens makes, for a text of `bytes` bytes. -/
def ofTokens (bytes : Nat) (tokens : List Token) : Script :=
  let (nodes, errors) := statements (tokens.length + 1) (.ofTokens tokens)
  ⟨⟨.script, ⟨0, bytes⟩, none, nodes⟩, errors⟩

def read (d : Dialect) (text : String) : Script :=
  let script := ofTokens text.utf8ByteSize (tokenize d text)
  { script with root := nameOptions text.toList script.root }

/-- Every statement could be read. -/
def isComplete (script : Script) : Bool := script.errors.isEmpty

end Script
end SqlAudit
