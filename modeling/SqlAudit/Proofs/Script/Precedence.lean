import SqlAudit.Proofs.Grammar.Operators
import SqlAudit.Proofs.Script.Schemas
/-!
Queries of one formula. However many operators stand between the operands, the text is read without
an error, and the only item of the query is the tree into which their powers group them.
-/
namespace SqlAudit

namespace Grammar

variable {call : Nonterminal → Frame → Cursor → Reading} {f g : Frame} {c d : Cursor}
  {item : Node}

@[simp] theorem symbols_finish (ss : List Symbol) : (TokenClass.symbols ss).holds .finish = false :=
  rfl

@[simp] theorem words_finish (spellings : List String) :
    (TokenClass.words spellings).holds .finish = false := rfl

@[simp] theorem anyWord_finish : TokenClass.anyWord.holds .finish = false := rfl

@[simp] theorem quoted_finish : TokenClass.quoted.holds .finish = false := rfl

/-- A list of one item. -/
theorem read_selectList (called : ∀ f, call (.expression 0) f c = .ok (f.push item, d))
    (unnamed : ∀ g, startsAlias.holds g d = false)
    (single : ∀ g, (symbol .comma).holds g d = false) :
    ∃ node : Node, node.unplaced = ⟨.selectList, ⟨0, 0⟩, none, [item.unplaced]⟩ ∧
      ∀ f, read call selectList f c = .ok (f.push node, d) := by
  refine ⟨⟨.selectList, ⟨c.current.span.start, max d.previous.stop c.current.span.start⟩, none,
    [item]⟩, rfl, fun f => ?_⟩
  have one : ∀ g, read call (expression ++ optionalAlias) g c = .ok (g.push item, d) := by
    intro g
    rw [read_append (a := expression) (called g), optionalAlias, read_absent (unnamed _)]
  rw [selectList, commaList, read_node ((read_append (one _)).trans (read_loop_none (single _)))]
  rfl

/-- A query of one list and no clause after it. -/
theorem read_queryTerm (here : c.current.lexeme = .keyword .SELECT) (a : Operand)
    (next : c.advance.current.lexeme = a.val)
    (called : ∀ f, call (.expression 0) f c.advance = .ok (f.push item, d))
    (last : d.current.lexeme = .finish) :
    ∃ list : Node, list.unplaced = ⟨.selectList, ⟨0, 0⟩, none, [item.unplaced]⟩ ∧
      ∃ span, ∀ f, read call queryTerm f c = .ok (f.push ⟨.select, span, none, [list]⟩, d) := by
  have unnamed : ∀ g, startsAlias.holds g d = false := by
    simp [startsAlias, keyword, words, Test.holds, last]
  have single : ∀ g, (symbol .comma).holds g d = false := by
    simp [symbol, Test.holds, last]
  obtain ⟨list, same, reads⟩ := read_selectList called unnamed single
  refine ⟨list, same, ⟨c.current.span.start, max d.previous.stop c.current.span.start⟩,
    fun f => ?_⟩
  have noKeyword : ∀ ks, (TokenClass.keywords ks).holds c.advance.current.lexeme = false := by
    rw [next]
    exact a.property.not_keyword
  have term : ∀ g, read call (.take ++ distinct ++ selectList ++ intoTable ++ fromClause ++
      whereClause ++ groupBy ++ having ++ windows) g c = .ok (g.push list, d) := by
    simp [append_eq_seq, read, distinct, accept, intoTable, fromClause, whereClause, groupBy,
      having, windows, whenever, keyword, word, Test.holds, noKeyword, reads, last]
  rw [queryTerm, choose, read_yes (by simp [keyword, Test.holds, here]), selectTerm,
    read_node (term _)]
  rfl

/-- A query is read one level deeper than what it stands in; its only term gives up its parts. -/
theorem read_onlyTerm {inner : Cursor} (deeper : inner = { c with depth := c.depth + 1 })
    (shallow : c.depth < maxDepth)
    (noWith : (TokenClass.keywords [.WITH]).holds c.current.lexeme = false) {span : Span}
    {parts : List Node}
    (term : ∀ f, read call queryTerm f inner = .ok (f.push ⟨.select, span, none, parts⟩, d))
    (last : d.current.lexeme = .finish) (f : Frame) :
    read call queryRule f c = .ok (f.push
      ⟨.select, ⟨c.current.span.start, max d.previous.stop c.current.span.start⟩, none, parts⟩,
        { d with depth := d.depth - 1 }) := by
  have within : ¬maxDepth < c.depth + 1 := by omega
  have body : read call (queryTerm ++
      .branch setOperator (.loop setOperator setOperation) .splice ++ queryTail)
      (.opened (some .select) c) inner =
        .ok (⟨some .select, c.current.span.start, none, parts.reverse⟩, d) := by
    simp [append_eq_seq, read, term, setOperator, queryTail, whenever, keyword, keywords, word,
      Test.holds, last, Frame.splice, Frame.push, Frame.opened, repeatWhile, Cursor.tokens]
  have nothing : ∀ g, read call (whenever (keyword .WITH) withClause) g c = .ok (g, c) := by
    intro g
    have stays : (keyword .WITH).holds g c = false := noWith
    rw [read_absent stays]
  have whole : read call (whenever (keyword .WITH) withClause ++ queryBody)
      (.opened (some .select) c) c =
        .ok (⟨some .select, c.current.span.start, none, parts.reverse⟩,
          { d with depth := d.depth - 1 }) := by
    rw [read_append (nothing _), queryBody, read]
    simp only [if_neg within, ← deeper, body]
  rw [queryRule, read_node whole]
  simp [Frame.close]

theorem read_queryRule {inner : Cursor} (deeper : inner = { c with depth := c.depth + 1 })
    (shallow : c.depth < maxDepth) (here : inner.current.lexeme = .keyword .SELECT) (a : Operand)
    (next : inner.advance.current.lexeme = a.val)
    (called : ∀ f, call (.expression 0) f inner.advance = .ok (f.push item, d))
    (last : d.current.lexeme = .finish) :
    ∃ node : Node, node.unplaced =
        ⟨.select, ⟨0, 0⟩, none, [⟨.selectList, ⟨0, 0⟩, none, [item.unplaced]⟩]⟩ ∧
      ∀ f, read call queryRule f c = .ok (f.push node, { d with depth := d.depth - 1 }) := by
  obtain ⟨list, same, span, reads⟩ := read_queryTerm here a next called last
  have noWith : (TokenClass.keywords [.WITH]).holds c.current.lexeme = false := by
    have first : c.current.lexeme = .keyword .SELECT := by rw [← here, deeper]
    rw [first]
    rfl
  exact ⟨_, by simp [Node.unplaced, Node.unplacedAll, same],
    read_onlyTerm deeper shallow noWith reads last⟩

theorem read_statement (here : c.current.lexeme = .keyword .SELECT) :
    read call statement f c = call .query f c := by
  simp [statement, queryStatement, query, choose, read, startsQuery, keyword, keywords, symbol,
    Test.holds, here]

end Grammar

namespace Script

theorem readStatement_query {c d : Cursor} {node : Node}
    (here : c.current.lexeme = .keyword .SELECT)
    (query : Grammar.read (Grammar.callRule Grammar.rules c.rest) Grammar.queryRule
      (.opened none c) c = .ok ((Frame.opened none c).push node, d)) : readStatement c = .ok (node, d) := by
  rw [readStatement, Grammar.run, Grammar.read_statement here, Cursor.tokens, Grammar.callRule,
    Grammar.rules, query]
  rfl

/-- A formula after SELECT that goes to the end of the text is its only statement. -/
theorem statements_formula {t : Formula} {c d : Cursor} (grouped : t.Grouped)
    (here : c.current.lexeme = .keyword .SELECT) (more : c.rest ≠ []) (top : c.depth = 0)
    (passes : c.advance.Passes t.lexemes d) (last : d.current.lexeme = .finish) (fuel : Nat) :
    ∃ node : Node, node.unplaced =
        ⟨.select, ⟨0, 0⟩, none, [⟨.selectList, ⟨0, 0⟩, none, [t.node]⟩]⟩ ∧
      statements (fuel + 1) c = ([node], []) := by
  let inner : Cursor := { c with depth := c.depth + 1 }
  have turned := passes.turn (c.depth + 1)
  rw [← Cursor.advance_turn] at turned
  have ahead : t.Ahead 0 inner.advance { d with depth := c.depth + 1 } :=
    ⟨grouped, fun _ _ => Nat.zero_le _, turned, .inl last⟩
  have fewer : inner.advance.rest.length < c.rest.length :=
    Cursor.advance_shorter (c := inner) more
  have level : inner.advance.depth = 1 := by
    rw [Cursor.advance_depth]
    exact congrArg (· + 1) top
  obtain ⟨item, same, called⟩ := ahead.read (.inl last) (by decide) c.rest fewer
    (by rw [level]; decide)
  obtain ⟨a, others, starts⟩ := t.lexemes_eq_cons
  rw [starts] at turned
  obtain ⟨node, tree, reads⟩ := Grammar.read_queryRule rfl (by rw [top]; decide) here a turned.1
    called last
  rw [same] at tree
  refine ⟨node, tree, ?_⟩
  have zero : { c with depth := 0 } = c := by rw [← top]
  have one : readStatement { c with depth := 0 } =
      .ok (node, { d with depth := c.depth + 1 - 1 }) := by
    rw [zero]
    exact readStatement_query here (reads _)
  exact statements_one fuel (by rw [here]; rfl) one last

end Script

/-- After SELECT, operands with infix operators between them are read as the only tree that groups
them by the powers of the operators, to the left where these are equal. -/
theorem select_grouped (d : Dialect) (text : String) (lexemes : List Lexeme)
    (sequence : IsSequence 0 lexemes)
    (tokens : (tokenize d text).map (·.lexeme) = .keyword .SELECT :: lexemes ++ [.finish]) :
    ∃ t : Formula, t.Grouped ∧ t.lexemes = lexemes ∧
      (∀ other : Formula, other.Grouped → other.lexemes = lexemes → other = t) ∧
      (Script.read d text).errors = [] ∧
      (Script.read d text).root.unplaced = ⟨.script, ⟨0, 0⟩, none,
        [⟨.select, ⟨0, 0⟩, none, [⟨.selectList, ⟨0, 0⟩, none, [t.node]⟩]⟩]⟩ := by
  obtain ⟨t, grouped, rfl, -⟩ := Formula.exists_grouped sequence
  refine ⟨t, grouped, rfl, fun other otherGrouped same =>
    Formula.grouped_unique otherGrouped grouped same, ?_⟩
  let c := Cursor.ofTokens (tokenize d text)
  have spelled : c.tokens.map (·.lexeme) =
      (.keyword .SELECT :: t.lexemes) ++ .finish :: [] := by
    rw [Script.tokens_ofTokens (tokenize_inOrder d text).ne_nil, tokens]
  obtain ⟨e, ⟨here, more, passes⟩, left⟩ := Cursor.exists_passes spelled
  have last : e.current.lexeme = .finish := (List.cons.inj left).1
  obtain ⟨node, tree, statements⟩ := Script.statements_formula grouped here more
    (Cursor.depth_ofTokens _) passes last (tokenize d text).length
  constructor
  · rw [Script.read, Script.ofTokens, statements]
  · rw [Script.read, Script.unplaced_nameOptions, Script.ofTokens, statements, Node.unplaced,
      Node.unplacedAll, Node.unplacedAll, tree]
    rfl

/-- The first AND is the one of the range, the second one joins it with what follows. -/
theorem range_before_and :
    let a : Operand := ⟨.word "a", by decide +kernel⟩
    let two : Operand := ⟨.number "2", by decide⟩
    let plus : Operator := ⟨.symbol .plus, by decide⟩
    let star : Operator := ⟨.symbol .star, by decide⟩
    let both : Operator := ⟨.keyword .AND, by decide⟩
    let low : Formula := .binary (.operand a) plus (.binary (.operand two) star (.operand a))
    let t : Formula := .binary (.between (.operand a) true low (.operand two)) both (.operand a)
    let text := "SELECT a NOT BETWEEN a + 2 * a AND 2 AND a"
    IsSequence 0 t.lexemes ∧
      (tokenize .postgres text).map (·.lexeme) = .keyword .SELECT :: t.lexemes ++ [.finish] ∧
      (Script.read .postgres text).errors = [] ∧
      (Script.read .postgres text).root.unplaced = ⟨.script, ⟨0, 0⟩, none,
        [⟨.select, ⟨0, 0⟩, none, [⟨.selectList, ⟨0, 0⟩, none, [t.node]⟩]⟩]⟩ := by
  intro a two plus star both low t text
  have sequence : IsSequence 0 t.lexemes :=
    .binary (.between (.operand a) (by decide) true
      (.binary (.binary (.operand a) plus (by decide) two) star (by decide) a) two) both
      (by decide) a
  have tokens : (tokenize .postgres text).map (·.lexeme) =
      .keyword .SELECT :: t.lexemes ++ [.finish] := by decide +kernel
  have grouped : t.Grouped := by decide
  obtain ⟨u, -, -, unique, errors, tree⟩ := select_grouped .postgres text _ sequence tokens
  rw [← unique t grouped rfl] at tree
  exact ⟨sequence, tokens, errors, tree⟩

end SqlAudit
