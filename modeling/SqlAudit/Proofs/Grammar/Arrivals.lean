import SqlAudit.Proofs.Grammar.Joins
import SqlAudit.Proofs.Tree.Nesting
/-!
Nodes within nodes. Where something is read in the middle of a text that is otherwise known, either
the whole text is read and that node stands in its tree, or what it is nested in is too deep for it.
-/
namespace SqlAudit

/-- A node of this property stands somewhere in the tree. -/
def Node.Holds (P : Node → Prop) (node : Node) : Prop :=
  ∃ path part, node.at? path = some part ∧ P part

namespace Node.Holds

variable {P : Node → Prop} {node child : Node}

theorem here (holds : P node) : node.Holds P := ⟨[], node, rfl, holds⟩

theorem below (member : child ∈ node.children) (within : child.Holds P) : node.Holds P := by
  obtain ⟨path, part, reached, holds⟩ := within
  obtain ⟨i, found⟩ := List.mem_iff_getElem?.mp member
  exact ⟨i :: path, part, at?_cons.mpr ⟨child, found, reached⟩, holds⟩

end Node.Holds

namespace Grammar

variable {call : Nonterminal → Frame → Cursor → Reading} {a b : Grammar} {test : Test}
  {f : Frame} {c d : Cursor} {after after' left : List Token} {P Q : Node → Prop}
  {kind : NodeKind}

/-- One node is read up to these tokens, or the reading is nested too deep. -/
def Arrives (call : Nonterminal → Frame → Cursor → Reading) (a : Grammar) (P : Node → Prop)
    (c : Cursor) (after : List Token) : Prop :=
  (∃ d, d.tokens = after ∧ ReadsNode call a P c d) ∨ ∀ f, Fails .tooDeep (read call a f c)

theorem fails_append (fails : Fails .tooDeep (read call a f c)) :
    Fails .tooDeep (read call (a ++ b) f c) := by
  obtain ⟨span, e, failed⟩ := fails
  exact ⟨span, e, read_broken failed⟩

namespace Arrives

theorem mono (arrives : Arrives call a P c after) (weaker : ∀ node, P node → Q node) :
    Arrives call a Q c after := by
  refine arrives.imp_left ?_
  rintro ⟨d, left, node, holds, reads⟩
  exact ⟨d, left, node, weaker node holds, reads⟩

/-- In a node of its own. -/
theorem around (arrives : Arrives call a P c after) : Arrives call (.node kind a)
    (fun node => ∃ span part, P part ∧ node = ⟨kind, span, none, [part]⟩) c after := by
  rcases arrives with ⟨d, left, node, holds, reads⟩ | fails
  · exact .inl ⟨d, left, _, ⟨_, node, holds, rfl⟩, fun f => read_node (reads _)⟩
  · refine .inr fun f => ?_
    obtain ⟨span, e, failed⟩ := fails (.opened (some kind) c)
    exact ⟨span, e, by rw [read, failed]⟩

/-- Behind something that leaves no trace. -/
theorem behind (before : ∀ f, read call b f c = .ok (f, d)) (arrives : Arrives call a P d after) :
    Arrives call (b ++ a) P c after := by
  rcases arrives with ⟨e, left, node, holds, reads⟩ | fails
  · exact .inl ⟨e, left, node, holds, fun f => read_then (before f) (reads f)⟩
  · refine .inr fun f => ?_
    rw [read_append (before f)]
    exact fails f

/-- Before something that goes on with the node. -/
theorem before (arrives : Arrives call a P c after)
    (later : ∀ d node, d.tokens = after → P node → ∃ e node', e.tokens = after' ∧ Q node' ∧
      ∀ f : Frame, read call b (f.push node) d = .ok (f.push node', e)) :
    Arrives call (a ++ b) Q c after' := by
  rcases arrives with ⟨d, left, node, holds, reads⟩ | fails
  · obtain ⟨e, node', left', holds', onward⟩ := later d node left holds
    exact .inl ⟨e, left', node', holds', fun f => read_then (reads f) (onward f)⟩
  · exact .inr fun f => fails_append (fails f)

/-- Before something that is not there. -/
theorem alone (arrives : Arrives call a P c after)
    (nothing : ∀ d, d.tokens = after → ∀ f, read call b f d = .ok (f, d)) :
    Arrives call (a ++ b) P c after :=
  arrives.before fun d node left holds => ⟨d, node, left, holds, fun _ => nothing d left _⟩

theorem yes (arrives : Arrives call a P c after) (goes : ∀ f, test.holds f c = true) :
    Arrives call (.branch test a b) P c after := by
  have same (f : Frame) : read call (.branch test a b) f c = read call a f c := read_yes (goes f)
  simpa only [Arrives, ReadsNode, same] using arrives

theorem no (arrives : Arrives call b P c after) (fails : ∀ f, test.holds f c = false) :
    Arrives call (.branch test a b) P c after := by
  have same (f : Frame) : read call (.branch test a b) f c = read call b f c := read_no (fails f)
  simpa only [Arrives, ReadsNode, same] using arrives

/-- One level further in, if there is one. -/
theorem deeper (arrives : Arrives call a P { c with depth := c.depth + 1 } after) :
    Arrives call (.deeper a) P c after := by
  by_cases deep : maxDepth < c.depth + 1
  · refine .inr fun f => ⟨c.current.span, { c with depth := c.depth + 1 }, ?_⟩
    rw [read]
    exact if_pos deep
  · rcases arrives with ⟨d, left, node, holds, reads⟩ | fails
    · refine .inl ⟨{ d with depth := d.depth - 1 }, left, node, holds, fun f => ?_⟩
      rw [read]
      simp only [if_neg deep, reads]
    · refine .inr fun f => ?_
      obtain ⟨span, e, failed⟩ := fails f
      refine ⟨span, e, ?_⟩
      rw [read]
      simp only [if_neg deep, failed]

theorem called {all : List Token} {token : Token} {name : Nonterminal} (more : all = token :: left)
    (arrives : Arrives (callRule rules left) (rules name) P c after) :
    Arrives (callRule rules all) (.call name) P c after := by
  rw [more]
  exact arrives

/-- Before a closing parenthesis. -/
theorem closed {close : Token} (arrives : Arrives call a P c (close :: after))
    (closes : close.lexeme = .symbol .closeParen) (more : after ≠ []) :
    Arrives call (a ++ expectSymbol .closeParen) P c after := by
  refine arrives.before fun d node left holds => ?_
  obtain ⟨here, rest⟩ := List.cons.inj left
  have goes (f : Frame) : (symbol .closeParen).holds f d = true := by
    simp [symbol, Test.holds, TokenClass.holds, here, closes]
  have some : d.rest ≠ [] := by rwa [rest]
  refine ⟨d.advance, node, ?_, holds, fun f => ?_⟩
  · rw [← rest]
    exact (List.cons.inj (Cursor.tokens_advance some)).2.symm
  · rw [expectSymbol, expect, read_yes (goes _)]
    rfl

/-- In parentheses. -/
theorem parens {close : Token} (arrives : Arrives call a P c.advance (close :: after))
    (opens : c.current.lexeme = .symbol .openParen) (closes : close.lexeme = .symbol .closeParen)
    (more : after ≠ []) : Arrives call (inParens a) P c after := by
  have goes : ∀ f, (symbol .openParen).holds f c = true := by
    simp [symbol, Test.holds, TokenClass.holds, opens]
  have opened (f : Frame) : read call (expectSymbol .openParen) f c = .ok (f, c.advance) := by
    rw [expectSymbol, expect, read_yes (goes f)]
    rfl
  exact (arrives.behind opened).closed closes more

/-- What stands somewhere in a part stands in the node around it. -/
theorem within (arrives : Arrives call a (Node.Holds P) c after) :
    Arrives call (.node kind a) (Node.Holds P) c after := by
  refine arrives.around.mono ?_
  rintro _ ⟨span, part, holds, rfl⟩
  exact .below (.head _) holds

end Arrives

/-- The node of a query, or of a test or a list that is made of its rows. -/
def Encloses (s node : Node) : Prop :=
  node.kind ∈ [NodeKind.subquery, .existsTest, .array] ∧ s ∈ node.children

variable {s : Node}

theorem arrives_enclosed (arrives : Arrives call a (· = s) c after)
    (listed : kind ∈ [NodeKind.subquery, .existsTest, .array]) :
    Arrives call (.node kind a) (Node.Holds (Encloses s)) c after := by
  refine arrives.around.mono ?_
  rintro _ ⟨span, part, rfl, rfl⟩
  exact .here ⟨listed, .head _⟩

/-- A query in parentheses, as an operand. -/
theorem arrives_subquery (opens : c.current.lexeme = .symbol .openParen)
    (starts : (TokenClass.keywords [.SELECT, .WITH, .VALUES]).holds c.advance.current.lexeme = true)
    (inner : Arrives call (inParens query) (· = s) c after) :
    Arrives call operand (Node.Holds (Encloses s)) c after := by
  have next (f : Frame) : nextStartsQuery.holds f c = true := by
    rw [Cursor.advance_current] at starts
    exact starts
  have parenthesis : Arrives call parenthesized (Node.Holds (Encloses s)) c after :=
    (arrives_enclosed inner (by decide)).yes next
  refine .no (.no (.no (.no (.no (.no (.no (.yes parenthesis ?_) ?_) ?_) ?_) ?_) ?_) ?_) ?_ <;>
    simp [symbol, symbols, keyword, keywords, nextSymbol, Test.holds, TokenClass.holds, opens]

theorem arrives_exists (here : c.current.lexeme = .keyword .EXISTS)
    (inner : Arrives call (inParens query) (· = s) c.advance after) :
    Arrives call operand (Node.Holds (Encloses s)) c after := by
  have test : Arrives call (.node .existsTest (.take ++ inParens query))
      (Node.Holds (Encloses s)) c after :=
    arrives_enclosed (inner.behind fun _ => rfl) (by decide)
  refine .no (.no (.no (.no (.no (.no (.no (.no (.no (.no (.yes test
    ?_) ?_) ?_) ?_) ?_) ?_) ?_) ?_) ?_) ?_) ?_ <;>
    simp [symbol, symbols, keyword, keywords, nextSymbol, Test.holds, TokenClass.holds, here]

theorem arrives_array (here : c.current.lexeme = .word "ARRAY")
    (opens : c.advance.current.lexeme = .symbol .openParen)
    (inner : Arrives call (inParens query) (· = s) c.advance after) :
    Arrives call operand (Node.Holds (Encloses s)) c after := by
  have goes (f : Frame) : (symbol .openParen).holds f c.advance = true := by
    simp [symbol, Test.holds, TokenClass.holds, opens]
  have list : Arrives call arrayExpression (Node.Holds (Encloses s)) c after :=
    arrives_enclosed ((inner.yes goes).behind fun _ => rfl) (by decide)
  have named (f : Frame) : (word "ARRAY").holds f c = true := by
    rw [word, Test.holds, here]
    decide
  refine .no (.no (.no (.no (.no (.no (.no (.no (.no (.no (.no (.yes list named)
    ?_) ?_) ?_) ?_) ?_) ?_) ?_) ?_) ?_) ?_) ?_ <;>
    simp [symbol, symbols, keyword, keywords, nextSymbol, Test.holds, TokenClass.holds, here]

/-- What IN makes of the node to the left, with the rows of a query behind it. -/
def inQuery : Grammar :=
  .wrap .binaryExpr
    (.become .inList ++ takeAs .capitals ++ .node .subquery (inParens query))

theorem read_operatorTail_in (here : c.current.lexeme = .keyword .IN)
    (opens : c.advance.current.lexeme = .symbol .openParen)
    (starts : (TokenClass.keywords [.SELECT, .WITH, .VALUES]).holds
      c.advance.advance.current.lexeme = true) (f : Frame) :
    read call operatorTail f c = read call inQuery f c := by
  rw [Cursor.advance_current] at starts
  have next (f : Frame) : (symbol .openParen &&& nextStartsQuery).holds f c.advance = true := by
    have paren : (TokenClass.symbols [.openParen]).holds c.advance.current.lexeme = true := by
      rw [opens]
      rfl
    exact Bool.and_eq_true_iff.mpr ⟨paren, starts⟩
  have noSymbol (s : Symbol) (f : Frame) : (symbol s).holds f c = false := by
    simp [symbol, Test.holds, TokenClass.holds, here]
  have noKeyword {k : Keyword} (other : Keyword.IN ≠ k) (f : Frame) :
      (keyword k).holds f c = false := by
    simp [keyword, Test.holds, TokenClass.holds, here, other]
  have goes (f : Frame) : (keywords [.NOT, .IN, .BETWEEN, .LIKE, .ILIKE]).holds f c = true := by
    simp [keywords, Test.holds, TokenClass.holds, here]
  have isIn (f : Frame) : (keyword .IN).holds f c = true := by
    simp [keyword, Test.holds, TokenClass.holds, here]
  have taken (f : Frame) : read call (.become .inList ++ takeAs .capitals) f c =
      .ok (({ f with kind := some .inList }).write "IN", c.advance) := by
    simp [append_eq_seq, read, takeAs, here, Spelling.of, Lexeme.capitals?, Keyword.text]
  have whole : read call operatorTail f c = read call predicate f c := by
    show read call (.branch _ _ (.branch _ _ (.branch _ _ (.branch _ _ (.branch _ _ _))))) f c = _
    rw [read_no (noSymbol _ f), read_no (noKeyword (by decide) f), read_no (noSymbol _ f),
      read_no (noKeyword (by decide) f), read_yes (goes f)]
  rw [whole, predicate, inQuery, read, read, read_append (read_absent (noKeyword (by decide) _)),
    choose, read_yes (isIn _), read_append (taken _), read_append (taken _), read_yes (next _)]

theorem read_one (number : c.current.lexeme = .number "1") (f : Frame) :
    read call operand f c = .ok (f.push (.leaf .literal ⟨c.current.span.start,
      max c.advance.previous.stop c.current.span.start⟩ "1"), c.advance) := by
  simp [operand, primary, choose, append_eq_seq, read, symbol, symbols, keyword, keywords,
    nextSymbol, Test.holds, TokenClass.holds, number, takeAs, Spelling.of, Lexeme.text, Frame.close,
    Frame.opened, Frame.write, Frame.push, Node.leaf]

theorem arrives_inList {stop : Token} (number : c.current.lexeme = .number "1")
    (here : c.advance.current.lexeme = .keyword .IN)
    (opens : c.advance.advance.current.lexeme = .symbol .openParen)
    (starts : (TokenClass.keywords [.SELECT, .WITH, .VALUES]).holds
      c.advance.advance.advance.current.lexeme = true) (last : stop.lexeme = .finish)
    (inner : Arrives call (inParens query) (· = s) c.advance.advance [stop]) :
    Arrives call (operand ++ .loop (continues 0) operatorTail) (Node.Holds (Encloses s)) c
      [stop] := by
  have enclosed : Arrives call (.node .subquery (inParens query)) (Node.Holds (Encloses s))
      c.advance.advance [stop] := arrives_enclosed inner (by decide)
  have goes (f : Frame) : (continues 0).holds f c.advance = true := by
    simp [continues, symbols, keyword, Test.holds, TokenClass.holds, here, Lexeme.infixPower?,
      Keyword.infixPower?]
  have tail (f : Frame) : read call operatorTail f c.advance = read call inQuery f c.advance :=
    read_operatorTail_in here opens starts f
  have taken (f : Frame) : read call (.become .inList ++ takeAs .capitals) f c.advance =
      .ok (({ f with kind := some .inList }).write "IN", c.advance.advance) := by
    simp [append_eq_seq, read, takeAs, here, Spelling.of, Lexeme.capitals?, Keyword.text]
  let one : Node := .leaf .literal ⟨c.current.span.start,
    max c.advance.previous.stop c.current.span.start⟩ "1"
  rcases enclosed with ⟨e, left, node, holds, reads⟩ | fails
  · let list : Node := ⟨.inList, ⟨one.span.start, max e.previous.stop one.span.start⟩, some "IN",
      [one, node]⟩
    have made (f : Frame) : read call operatorTail (f.push one) c.advance =
        .ok (f.push list, e) := by
      rw [tail, inQuery, read_wrap (read_then (taken _) (reads _))]
      rfl
    obtain ⟨stops, rest⟩ := List.cons.inj left
    have onward : e.rest.length < c.advance.rest.length := by
      rw [rest]
      refine List.length_pos_iff.mpr fun none => ?_
      rw [Cursor.advance_current, Cursor.peek, none] at opens
      cases here.symm.trans opens
    have ends (f : Frame) : (continues 0).holds f e = false := by
      simp [continues, symbols, keyword, Test.holds, TokenClass.holds, stops, last,
        Lexeme.infixPower?]
    have inside : node ∈ list.children := .tail _ (.head _)
    refine .inl ⟨e, left, list, .below inside holds, fun f => ?_⟩
    exact read_then (read_one number f)
      (read_rounds (.round (goes _) (made f) onward (.done (ends _))))
  · refine .inr fun f => ?_
    obtain ⟨span, e, failed⟩ :=
      fails (Frame.write "IN" ⟨some .inList, one.span.start, none, [one]⟩)
    refine ⟨span, e, ?_⟩
    have step : read call operatorTail (f.push one) c.advance = .error (⟨.tooDeep, span⟩, e) := by
      have opened : (f.push one).wrapLast .binaryExpr c.advance =
        (⟨some .binaryExpr, one.span.start, none, [one]⟩, f) := rfl
      rw [tail, inQuery, read, opened]
      simp only [read_append (taken _), failed]
    rw [read_append (read_one number f), read, Cursor.tokens, repeatWhile, if_pos (goes _), step]

/-- A name behind AS, around the node that it is given to. -/
theorem read_named {node : Node} {previous : Span} {as_ name stop : Token} {depth : Nat}
    (here : as_.lexeme = .keyword .AS) (named : name.lexeme.IsName) (last : stop.lexeme = .finish)
    (f : Frame) : read call tableAlias (f.push node) ⟨previous, as_, [name, stop], depth⟩ =
      .ok (f.push ⟨.alias, ⟨node.span.start, max name.span.stop node.span.start⟩,
        some (Spelling.lowered.of name.lexeme), [node]⟩, ⟨name.span, stop, [], depth⟩) := by
  let d : Cursor := ⟨previous, as_, [name, stop], depth⟩
  let e : Cursor := ⟨name.span, stop, [], depth⟩
  have goes (f : Frame) : (keyword .AS).holds f d = true := by
    simp [d, keyword, Test.holds, TokenClass.holds, here]
  have starts (f : Frame) : startsAlias.holds f d = true := by
    simp [d, startsAlias, keyword, Test.holds, TokenClass.holds, here]
  have noColumns (f : Frame) : (symbol .openParen).holds f e = false := by
    simp [e, symbol, Test.holds, TokenClass.holds, last]
  have inside (f : Frame) : read call (accept (keyword .AS) ++ Grammar.name ++
      whenever (symbol .openParen) columnList) f d =
        .ok (f.write (Spelling.lowered.of name.lexeme), e) := by
    have taken : read call (accept (keyword .AS)) f d = .ok (f, d.advance) := by
      rw [accept, whenever, read_yes (goes f)]
      rfl
    exact read_then (read_then taken (read_name named)) (read_absent (noColumns _))
  rw [tableAlias, read_yes (starts _), read_wrap (inside _)]
  rfl

/-- A query in parentheses with a name, among the tables. -/
theorem arrives_derivedTable {close as_ name stop : Token}
    (opens : c.current.lexeme = .symbol .openParen)
    (starts : ∀ f, (startsQuery ||| symbol .openParen).holds f c.advance = true)
    (inner : Arrives call query (· = s) c.advance [close, as_, name, stop])
    (closes : close.lexeme = .symbol .closeParen) (here : as_.lexeme = .keyword .AS)
    (named : name.lexeme.IsName) (last : stop.lexeme = .finish) :
    Arrives call tableItem (Node.Holds (Encloses s)) c [stop] := by
  have goes (f : Frame) : (symbol .openParen).holds f c = true := by
    simp [symbol, Test.holds, TokenClass.holds, opens]
  have notLateral (f : Frame) : read call (accept (word "LATERAL")) f c = .ok (f, c) :=
    read_absent (by simp [word, Test.holds, TokenClass.holds, opens])
  have item : Arrives call (.node .subquery itemBody) (Node.Holds (Encloses s)) c
      [as_, name, stop] := by
    refine arrives_enclosed (.behind notLateral (.yes ?_ goes)) (by decide)
    exact .closed (.behind (fun _ => rfl) (inner.yes starts)) closes (by simp)
  refine item.before fun d node left holds => ?_
  obtain ⟨previous, current, rest, depth⟩ := d
  cases left
  exact ⟨_, _, rfl, .below (.head _) holds, read_named here named last⟩

end Grammar
end SqlAudit
