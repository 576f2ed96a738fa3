import SqlAudit.Keyword
import SqlAudit.Text.Span
/-! What a script is made of: words, literals, symbols, and the places they stand at. -/
namespace SqlAudit

inductive Symbol where
  | plus | minus | star | slash | percent | caret
  | equal | notEqual | less | lessEqual | greater | greaterEqual
  | concat | bitAnd | bitOr | bitNot | shiftLeft | shiftRight
  | openParen | closeParen | openBracket | closeBracket
  | comma | semicolon | dot | colon | doubleColon
  deriving DecidableEq, Repr

def Symbol.text : Symbol → String
  | .plus => "+"
  | .minus => "-"
  | .star => "*"
  | .slash => "/"
  | .percent => "%"
  | .caret => "^"
  | .equal => "="
  | .notEqual => "<>"
  | .less => "<"
  | .lessEqual => "<="
  | .greater => ">"
  | .greaterEqual => ">="
  | .concat => "||"
  | .bitAnd => "&"
  | .bitOr => "|"
  | .bitNot => "~"
  | .shiftLeft => "<<"
  | .shiftRight => ">>"
  | .openParen => "("
  | .closeParen => ")"
  | .openBracket => "["
  | .closeBracket => "]"
  | .comma => ","
  | .semicolon => ";"
  | .dot => "."
  | .colon => ":"
  | .doubleColon => "::"

/-- A token without its place. `word` is an unquoted name, `finish` the end of the text, and
`invalid` says what is wrong with a piece of text that is no token. -/
inductive Lexeme where
  | number (text : String)
  | string (text : String)
  | bits (digits : String)
  | word (text : String)
  | quoted (name : String)
  | keyword (k : Keyword)
  | parameter (text : String)
  | symbol (s : Symbol)
  | operator (text : String)
  | finish
  | invalid (message : String)
  deriving DecidableEq, Repr

namespace Lexeme

/-- An unquoted name with this spelling in any case. -/
def isWord (lexeme : Lexeme) (spelling : String) : Bool :=
  match lexeme with
  | .word text => Text.capitals text == Text.capitals spelling
  | _ => false

/-- The capitals of an unquoted name or a keyword. -/
def capitals? : Lexeme → Option String
  | .word text => some (Text.capitals text)
  | .keyword k => some k.text
  | _ => none

/-- How messages speak of a token. -/
def describe : Lexeme → String
  | .number text => text
  | .string _ => "string literal"
  | .bits _ => "bit string literal"
  | .word text => text
  | .quoted name => "\"" ++ name ++ "\""
  | .keyword k => k.text
  | .parameter text => text
  | .symbol s => s.text
  | .operator text => text
  | .finish => "end of input"
  | .invalid message => message

end Lexeme

structure Token where
  lexeme : Lexeme
  span : Span
  deriving DecidableEq, Repr

end SqlAudit
