import SqlAudit.Grammar.Basic
import SqlAudit.SyntaxError
import SqlAudit.Tree.Node
/-!
Reading tokens by a grammar. A cursor stands in the token list, a frame holds the node under
construction; `Grammar.read` moves the one and fills the other, or stops with an error at the cursor
it had reached.
-/
namespace SqlAudit

/-- A place in the tokens of a text: the span of the token before it, the token at it, those after
it, and how deeply the reading is nested. -/
structure Cursor where
  previous : Span
  current : Token
  rest : List Token
  depth : Nat
  deriving DecidableEq, Repr

namespace Cursor

def ofTokens : List Token → Cursor
  | [] => ⟨⟨0, 0⟩, ⟨.finish, ⟨0, 0⟩⟩, [], 0⟩
  | token :: rest => ⟨⟨0, 0⟩, token, rest, 0⟩

/-- One token on; the last one stays. -/
def advance (c : Cursor) : Cursor :=
  match c.rest with
  | [] => { c with previous := c.current.span }
  | token :: rest => { c with previous := c.current.span, current := token, rest := rest }

/-- The tokens that are left. Each step of a reading takes one of them at least, so their number
bounds every loop. -/
def tokens (c : Cursor) : List Token := c.current :: c.rest

/-- The token after the current one. -/
def peek (c : Cursor) : Token := (c.rest.head?).getD c.current

/-- Reads words as long as they start a phrase, after those already `matched`; at most one for each
of the tokens given. -/
def phrase (phrases : Phrases) (matched : List String) :
    List Token → Cursor → List String × Cursor
  | [], c => (matched, c)
  | _ :: left, c =>
    match c.current.lexeme.capitals? with
    | some word =>
      if phrases.extends (matched ++ [word]) then
        phrase phrases (matched ++ [word]) left c.advance
      else (matched, c)
    | none => (matched, c)

end Cursor

/-- A node under construction; its parts stand latest first. Without a kind it is only a place for
nodes. -/
structure Frame where
  kind : Option NodeKind
  start : Nat
  value : Option String
  parts : List Node
  deriving Repr

namespace Frame

def opened (kind : Option NodeKind) (c : Cursor) : Frame := ⟨kind, c.current.span.start, none, []⟩

def write (text : String) (f : Frame) : Frame := { f with value := some (f.value.getD "" ++ text) }

def gap (f : Frame) : Frame := { f with value := f.value.map (· ++ " ") }

def push (node : Node) (f : Frame) : Frame := { f with parts := node :: f.parts }

/-- Adds what `inner` became, which was read up to `c`: a node, or only its parts. -/
def close (f inner : Frame) (c : Cursor) : Frame :=
  match inner.kind with
  | some kind =>
    f.push ⟨kind, ⟨inner.start, max c.previous.stop inner.start⟩, inner.value, inner.parts.reverse⟩
  | none => { f with parts := inner.parts ++ f.parts }

/-- The frame of a node of this kind around the last node, and the frame that is left. -/
def wrapLast (kind : NodeKind) (f : Frame) (c : Cursor) : Frame × Frame :=
  match f.parts with
  | [] => (opened kind c, f)
  | node :: parts => (⟨kind, node.span.start, none, [node]⟩, { f with parts := parts })

def splice (f : Frame) : Frame :=
  match f.parts with
  | [] => f
  | node :: parts =>
    { f with value := node.value.or f.value, parts := node.children.reverse ++ parts }

def echo (f : Frame) : Frame :=
  match f.parts with
  | [] => f
  | node :: _ => f.write (node.value.getD "")

end Frame

def Test.holds (f : Frame) (c : Cursor) : Test → Bool
  | .here tokens => tokens.holds c.current.lexeme
  | .next tokens => tokens.holds c.peek.lexeme
  | .phrase phrases =>
    match c.current.lexeme.capitals? with
    | some word => phrases.extends [word]
    | none => false
  | .valueIn values => (f.value.map values.contains).getD false
  | .lastIs kind => (f.parts.head?.map fun node => decide (node.kind = kind)).getD false
  | .both a b => a.holds f c && b.holds f c
  | .either a b => a.holds f c || b.holds f c
  | .neither a => !a.holds f c

/-- A frame and a cursor further on, or an error and the cursor it arose at. -/
abbrev Reading := Except (SyntaxError × Cursor) (Frame × Cursor)

namespace Grammar

def tooDeep (c : Cursor) : Reading := .error (⟨.tooDeep, c.current.span⟩, c)

/-- Repeats a step as long as the test holds, at most once for each of the tokens given. -/
def repeatWhile (test : Test) (step : Frame → Cursor → Reading) :
    List Token → Frame → Cursor → Reading
  | [], f, c => .ok (f, c)
  | _ :: left, f, c =>
    if test.holds f c then
      match step f c with
      | .ok (f, c) => repeatWhile test step left f c
      | .error e => .error e
    else .ok (f, c)

/-- Reads by a grammar; `call` reads its nonterminals. -/
def read (call : Nonterminal → Frame → Cursor → Reading) : Grammar → Frame → Cursor → Reading
  | .nothing, f, c => .ok (f, c)
  | .fail expected, _, c => .error (.unexpected expected c.current, c)
  | .take, f, c => .ok (f, c.advance)
  | .copy spelling, f, c => .ok (f.write (spelling.of c.current.lexeme), c)
  | .write text, f, c => .ok (f.write text, c)
  | .gap, f, c => .ok (f.gap, c)
  | .phrase phrases, f, c =>
    match c.phrase phrases [] c.tokens with
    | ([], c) => .ok (f, c)
    | (words, c) => .ok (f.gap.write (" ".intercalate words), c)
  | .seq a b, f, c =>
    match read call a f c with
    | .ok (f, c) => read call b f c
    | .error e => .error e
  | .branch test a b, f, c => if test.holds f c then read call a f c else read call b f c
  | .loop test a, f, c => repeatWhile test (read call a) c.tokens f c
  | .node kind a, f, c =>
    match read call a (.opened kind c) c with
    | .ok (inner, c) => .ok (f.close inner c, c)
    | .error e => .error e
  | .wrap kind a, f, c =>
    match read call a (f.wrapLast kind c).1 c with
    | .ok (inner, d) => .ok ((f.wrapLast kind c).2.close inner d, d)
    | .error e => .error e
  | .become kind, f, c => .ok ({ f with kind := kind }, c)
  | .dissolve, f, c => .ok ({ f with kind := none }, c)
  | .splice, f, c => .ok (f.splice, c)
  | .echo, f, c => .ok (f.echo, c)
  | .discard a, f, c =>
    match read call a (.opened none c) c with
    | .ok (_, c) => .ok (f, c)
    | .error e => .error e
  | .deeper a, f, c =>
    let c := { c with depth := c.depth + 1 }
    if maxDepth < c.depth then tooDeep c
    else match read call a f c with
      | .ok (f, c) => .ok (f, { c with depth := c.depth - 1 })
      | .error e => .error e
  | .call name, f, c => call name f c

/-- Reads nonterminals by their rules, nested at most as deep as there are tokens given. -/
def callRule (rules : Nonterminal → Grammar) :
    List Token → Nonterminal → Frame → Cursor → Reading
  | [], _, _, c => tooDeep c
  | _ :: left, name, f, c => read (callRule rules left) (rules name) f c

/-- Reads by a grammar whose nonterminals have these rules. A rule reads at least one token before
it calls another one, so the nesting never outruns the tokens that are left. -/
def run (rules : Nonterminal → Grammar) (a : Grammar) (f : Frame) (c : Cursor) : Reading :=
  read (callRule rules c.tokens) a f c

end Grammar
end SqlAudit
