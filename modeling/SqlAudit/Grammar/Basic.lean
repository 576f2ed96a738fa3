import SqlAudit.Grammar.Binding
import SqlAudit.Text.Case
import SqlAudit.Tree.Kind
/-!
The language as data. A `Grammar` says which tokens are read one after another, where the reading
branches or repeats, and which nodes and values come of it. Branches look at the current token, the
one after it, and at what has been built so far, never at the layout of the text.
-/
namespace SqlAudit

/-- A set of tokens. -/
inductive TokenClass where
  | words (spellings : List String)
  | keywords (ks : List Keyword)
  | symbols (ss : List Symbol)
  | anyWord | anyKeyword | quoted | number | string | bits | parameter | operator
  | finish | invalid
  /-- Infix operators of one power. -/
  | infixAt (power : Nat)
  /-- Infix operators of a power or a higher one. -/
  | infixFrom (power : Nat)
  deriving DecidableEq, Repr

/-- Words are spelled in capitals and stand for every case. -/
def TokenClass.holds : TokenClass → Lexeme → Bool
  | .words spellings, .word text => spellings.contains (Text.capitals text)
  | .keywords ks, .keyword k => ks.contains k
  | .symbols ss, .symbol s => ss.contains s
  | .anyWord, .word _ => true
  | .anyKeyword, .keyword _ => true
  | .quoted, .quoted _ => true
  | .number, .number _ => true
  | .string, .string _ => true
  | .bits, .bits _ => true
  | .parameter, .parameter _ => true
  | .operator, .operator _ => true
  | .finish, .finish => true
  | .invalid, .invalid _ => true
  | .infixAt power, lexeme => lexeme.infixPower? == some power
  | .infixFrom power, lexeme =>
    match lexeme.infixPower? with
    | some p => power ≤ p
    | none => false
  | _, _ => false

/-- What a value takes from a token. -/
inductive Spelling where
  /-- The text as written, without quotes. -/
  | text
  /-- Words in capitals, all else as written. -/
  | capitals
  /-- Words and strings in lowercase, quoted names as written. -/
  | lowered
  /-- As messages speak of it. -/
  | described
  deriving DecidableEq, Repr

def Lexeme.text : Lexeme → String
  | .string text | .word text | .number text | .parameter text | .operator text => text
  | .bits digits => digits
  | .quoted name => name
  | lexeme => lexeme.describe

def Spelling.of : Spelling → Lexeme → String
  | .text, lexeme => lexeme.text
  | .capitals, lexeme => lexeme.capitals?.getD lexeme.text
  | .lowered, .word name => Text.lowercase name
  | .lowered, .keyword k => Text.lowercase k.text
  | .lowered, .string content => Text.lowercase content
  | .lowered, lexeme => lexeme.text
  | .described, lexeme => lexeme.describe

/-- Phrases of words, such as the kinds of objects that a statement can name. -/
abbrev Phrases := List (List String)

/-- Some phrase starts with these words. -/
def Phrases.extends (phrases : Phrases) (words : List String) : Bool :=
  phrases.any fun phrase => words.isPrefixOf phrase

inductive Test where
  /-- The current token is in the class. -/
  | here (c : TokenClass)
  /-- The token after it is. -/
  | next (c : TokenClass)
  /-- The current word starts one of the phrases. -/
  | phrase (phrases : Phrases)
  /-- The value built so far is one of these. -/
  | valueIn (values : List String)
  /-- The last node built is of this kind. -/
  | lastIs (kind : NodeKind)
  | both (a b : Test)
  | either (a b : Test)
  | neither (a : Test)
  deriving Repr

/-- The parts of the language that can contain themselves. -/
inductive Nonterminal where
  /-- An expression of operators that bind at least as tightly as `power`. -/
  | expression (power : Nat)
  | query
  | joinedTable
  | createStatement
  /-- A parenthesized group of tokens. -/
  | group
  /-- Tokens up to the END that closes a block. -/
  | atomicBody
  deriving DecidableEq, Repr

inductive Grammar where
  | nothing
  /-- Reads nothing and reports what should stand here. -/
  | fail (expected : String)
  /-- Reads one token. -/
  | take
  /-- Adds the spelling of the current token to the value. -/
  | copy (spelling : Spelling)
  /-- Adds a text to the value. -/
  | write (text : String)
  /-- Adds a space to the value if there is one. -/
  | gap
  /-- Reads words as long as they start a phrase and adds them to the value. -/
  | phrase (phrases : Phrases)
  | seq (a b : Grammar)
  | branch (test : Test) (a b : Grammar)
  /-- Reads `a` as long as the test holds. -/
  | loop (test : Test) (a : Grammar)
  /-- Reads `a` into a node of its own. -/
  | node (kind : NodeKind) (a : Grammar)
  /-- Reads `a` into a node that starts with the last node and has it as its first part. -/
  | wrap (kind : NodeKind) (a : Grammar)
  /-- The node that is being read is of this kind after all. -/
  | become (kind : NodeKind)
  /-- The node that is being read leaves only its parts. -/
  | dissolve
  /-- The last node gives up its value and leaves its parts in its place. -/
  | splice
  /-- Adds the value of the last node to the value. -/
  | echo
  /-- Reads `a` and keeps nothing of it. -/
  | discard (a : Grammar)
  /-- Reads `a` one level deeper. -/
  | deeper (a : Grammar)
  | call (name : Nonterminal)
  deriving Repr

instance : Append Grammar := ⟨.seq⟩

instance : AndOp Test := ⟨.both⟩

instance : OrOp Test := ⟨.either⟩

instance : Complement Test := ⟨.neither⟩

namespace Grammar

def word (spelling : String) : Test := .here (.words [spelling])

def words (spellings : List String) : Test := .here (.words spellings)

def keyword (k : Keyword) : Test := .here (.keywords [k])

def keywords (ks : List Keyword) : Test := .here (.keywords ks)

def symbol (s : Symbol) : Test := .here (.symbols [s])

def symbols (ss : List Symbol) : Test := .here (.symbols ss)

def nextWord (spelling : String) : Test := .next (.words [spelling])

def nextSymbol (s : Symbol) : Test := .next (.symbols [s])

def nextKeywords (ks : List Keyword) : Test := .next (.keywords ks)

/-- A name, quoted or not. -/
def anyName : Test := .here .anyWord ||| .here .quoted

/-- An unquoted name or a keyword. -/
def plainWord : Test := .here .anyWord ||| .here .anyKeyword

def invalid : Test := .here .invalid

/-- The end of the statement. -/
def terminator : Test := symbol .semicolon ||| .here .finish

def whenever (test : Test) (a : Grammar) : Grammar := .branch test a .nothing

def unlessIs (test : Test) (a : Grammar) : Grammar := .branch test .nothing a

/-- Reads the current token if the test holds. -/
def accept (test : Test) : Grammar := whenever test .take

def expect (test : Test) (expected : String) : Grammar := .branch test .take (.fail expected)

def expectWord (spelling : String) : Grammar := expect (word spelling) spelling

def expectKeyword (k : Keyword) : Grammar := expect (keyword k) k.text

def expectSymbol (s : Symbol) : Grammar := expect (symbol s) s.text

/-- The first alternative whose test holds, else `otherwise`. -/
def choose : List (Test × Grammar) → Grammar → Grammar
  | [], otherwise => otherwise
  | (test, a) :: rest, otherwise => .branch test a (choose rest otherwise)

/-- One or more of `a` between commas. -/
def commaList (a : Grammar) : Grammar := a ++ .loop (symbol .comma) (.take ++ a)

/-- `a` between parentheses. -/
def inParens (a : Grammar) : Grammar := expectSymbol .openParen ++ a ++ expectSymbol .closeParen

/-- Reads a token and adds its spelling to the value. -/
def takeAs (spelling : Spelling) : Grammar := .copy spelling ++ .take

/-- A name as it is stored: unquoted in lowercase, quoted as written. -/
def name : Grammar := .branch anyName (takeAs .lowered) (.fail "identifier")

def identifier : Grammar := .node .identifier name

def dottedName : Grammar := name ++ .loop (symbol .dot) (.take ++ .write "." ++ name)

def qualifiedName : Grammar := .node .qualifiedName dottedName

def columnList : Grammar :=
  .node .columnList (inParens (unlessIs (symbol .closeParen) (commaList identifier)))

/-- A phrase of the table as the value, else an error. -/
def expectPhrase (phrases : Phrases) (expected : String) : Grammar :=
  .branch (.phrase phrases) (.phrase phrases) (.fail expected)

/-- Everything up to the end of the statement. -/
def restOfStatement : Grammar :=
  .loop (~~~ terminator) (.branch invalid (.fail "token") .take)

def group : Grammar := .call .group

end Grammar
end SqlAudit
