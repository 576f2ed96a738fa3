import SqlAudit.Proofs.Grammar.Joins
import SqlAudit.Proofs.Script.Precedence
/-!
Queries of joined tables. Where each join stands in parentheses and to the right of the one around
it, a query of all their columns is read as these joins; where one stands to the left, the script has
an error that asks for a query.
-/
namespace SqlAudit

namespace Grammar

variable {call : Nonterminal → Frame → Cursor → Reading} {f : Frame} {c d : Cursor}
  {left : List Token} {cause : SyntaxError.Cause}

/-- A list of all columns. -/
def allColumns : Node := ⟨.selectList, ⟨0, 0⟩, none, [.leaf .wildcard ⟨0, 0⟩ "*"]⟩

/-- A query of all columns of an item. -/
def queryOf (item : Node) : Node :=
  ⟨.select, ⟨0, 0⟩, none, [allColumns, ⟨.fromClause, ⟨0, 0⟩, none, [item]⟩]⟩

theorem call_wildcard (here : c.current.lexeme = .symbol .star)
    (next : c.advance.current.lexeme = .keyword .FROM) (shallow : c.depth < maxDepth)
    (more : left ≠ []) (f : Frame) : callRule rules left (.expression 0) f c =
      .ok (f.push (.leaf .wildcard ⟨c.current.span.start,
        max c.advance.previous.stop c.current.span.start⟩ "*"), c.advance) := by
  obtain ⟨token, left, rfl⟩ := List.exists_cons_of_ne_nil more
  have within : ¬maxDepth < c.depth + 1 := by omega
  have level : c.advance.depth = c.depth := Cursor.advance_depth c
  have operand : ∀ f, read (callRule rules left) operand f { c with depth := c.depth + 1 } =
      .ok (f.push (.leaf .wildcard ⟨c.current.span.start,
        max c.advance.previous.stop c.current.span.start⟩ "*"),
        { c.advance with depth := c.depth + 1 }) := by
    intro f
    simp [Grammar.operand, primary, choose, append_eq_seq, read, symbol, symbols, keyword, keywords,
      nextSymbol, Test.holds, TokenClass.holds, here, Cursor.advance_turn, Frame.close,
      Frame.opened, Frame.write, Frame.push, Node.leaf]
  have stops : ∀ f : Frame, (continues 0).holds f { c.advance with depth := c.depth + 1 } =
      false := by
    simp [continues, symbols, keyword, Test.holds, TokenClass.holds, next, Lexeme.infixPower?,
      Keyword.infixPower?]
  rw [callRule, rules, expressionFrom, read]
  simp only [if_neg within]
  rw [read_append (operand f), read_loop_none (stops _)]
  simp [← level]

theorem reads_allColumns (here : c.current.lexeme = .symbol .star)
    (next : c.advance.current.lexeme = .keyword .FROM) (shallow : c.depth < maxDepth)
    (more : left ≠ []) : ReadsNode (callRule rules left) selectList
      (fun node => node.unplaced = allColumns) c c.advance := by
  have unnamed : ∀ g, startsAlias.holds g c.advance = false := by
    simp [startsAlias, keyword, words, Test.holds, TokenClass.holds, next]
  have single : ∀ g, (symbol .comma).holds g c.advance = false := by
    simp [symbol, Test.holds, TokenClass.holds, next]
  obtain ⟨list, same, reads⟩ :=
    read_selectList (call_wildcard here next shallow more) unnamed single
  exact ⟨list, same, reads⟩

/-- The cursor stands before a list of all columns and FROM. -/
structure AtAllColumns (c : Cursor) : Prop where
  select : c.current.lexeme = .keyword .SELECT
  star : c.advance.current.lexeme = .symbol .star
  from_ : c.advance.advance.current.lexeme = .keyword .FROM

/-- The tables of a query that ends with them. -/
theorem reads_tables {P : Node → Prop} (item : ReadsNode call tableItem P c d)
    (last : d.current.lexeme = .finish) : ReadsNode call joinedTable P c d := by
  obtain ⟨node, holds, reads⟩ := item
  refine ⟨node, holds, fun f => ?_⟩
  have stops : (keyword .NATURAL ||| keywords joinWords).holds (f.push node) d = false := by
    simp [keyword, keywords, Test.holds, last]
  rw [joinedTable, read_append (reads f), read_loop_none stops]

/-- The cursor stands before a list of all columns and FROM, where a query may start. -/
theorem read_columns (start : AtAllColumns c) (shallow : c.depth < maxDepth) (more : left ≠ []) :
    ∃ list : Node, list.unplaced = allColumns ∧ ∀ f, read (callRule rules left)
      (.take ++ distinct ++ selectList ++ intoTable) f c = .ok (f.push list, c.advance.advance) := by
  have level : c.advance.depth < maxDepth := (Cursor.advance_depth c).symm ▸ shallow
  obtain ⟨list, same, reads⟩ := reads_allColumns start.star start.from_ level more
  refine ⟨list, same, fun f => ?_⟩
  simp [append_eq_seq, read, distinct, accept, intoTable, whenever, keyword, Test.holds,
    TokenClass.holds, start.star, start.from_, reads]

/-- A term that lists all columns of one item and ends with that. -/
theorem reads_selectTerm (start : AtAllColumns c) (shallow : c.depth < maxDepth) (more : left ≠ [])
    {P : Node → Prop}
    (item : ReadsNode (callRule rules left) (.call .joinedTable) P c.advance.advance.advance d)
    (last : d.current.lexeme = .finish) :
    ∃ span list clause item, list.unplaced = allColumns ∧ P item ∧
      (∃ place, clause = ⟨.fromClause, place, none, [item]⟩) ∧
      ∀ f, read (callRule rules left) queryTerm f c =
        .ok (f.push ⟨.select, span, none, [list, clause]⟩, d) := by
  obtain ⟨item, holds, readsItem⟩ := item
  obtain ⟨list, columns, reads⟩ := read_columns start shallow more
  have single : ∀ g, (symbol .comma).holds g d = false := by
    simp [symbol, Test.holds, last]
  have one : read (callRule rules left) (.take ++ tables)
      (.opened (some .fromClause) c.advance.advance) c.advance.advance =
        .ok ((Frame.opened (some .fromClause) c.advance.advance).push item, d) := by
    rw [read_append (g := Frame.opened (some .fromClause) c.advance.advance) (by rw [read]),
      tables, commaList, read_append (readsItem _), read_loop_none (single _)]
  let clause : Node := ⟨.fromClause, ⟨c.advance.advance.current.span.start,
    max d.previous.stop c.advance.advance.current.span.start⟩, none, [item]⟩
  have from_ : ∀ f, read (callRule rules left) fromClause f c.advance.advance =
      .ok (f.push clause, d) := by
    intro f
    have goes : (keyword .FROM).holds f c.advance.advance = true := by
      simp [keyword, Test.holds, TokenClass.holds, start.from_]
    rw [fromClause, whenever, read_yes goes, read_node one]
    rfl
  have term : ∀ g, read (callRule rules left) (.take ++ distinct ++ selectList ++ intoTable ++
      fromClause ++ whereClause ++ groupBy ++ having ++ windows) g c =
        .ok ((g.push list).push clause, d) := by
    intro g
    have noWhere : ∀ f, (keyword .WHERE).holds f d = false := by
      simp [keyword, Test.holds, last]
    have noGroup : ∀ f, (keyword .GROUP).holds f d = false := by
      simp [keyword, Test.holds, last]
    have noHaving : ∀ f, (keyword .HAVING).holds f d = false := by
      simp [keyword, Test.holds, last]
    have noWindow : ∀ f, (word "WINDOW").holds f d = false := by
      simp [word, Test.holds, last]
    exact read_then (read_then (read_then (read_then ((read_append (reads g)).trans (from_ _))
      (read_absent (noWhere _))) (read_absent (noGroup _))) (read_absent (noHaving _)))
      (read_absent (noWindow _))
  refine ⟨⟨c.current.span.start, max d.previous.stop c.current.span.start⟩, list, clause, item,
    columns, holds, ⟨_, rfl⟩, fun f => ?_⟩
  have here : (keyword .SELECT).holds f c = true := by
    simp [keyword, Test.holds, TokenClass.holds, start.select]
  rw [queryTerm, choose, read_yes here, selectTerm, read_node (term _)]
  rfl

/-- What is wrong with the tables is wrong with the term. -/
theorem selectTerm_fails (start : AtAllColumns c) (shallow : c.depth < maxDepth)
    (more : left ≠ [])
    (fails : ∀ g, Fails cause (callRule rules left .joinedTable g c.advance.advance.advance)) :
    Fails cause (read (callRule rules left) queryTerm f c) := by
  obtain ⟨list, -, reads⟩ := read_columns start shallow more
  obtain ⟨span, b, failed⟩ := fails (.opened (some .fromClause) c.advance.advance)
  have one : read (callRule rules left) (.take ++ tables)
      (.opened (some .fromClause) c.advance.advance) c.advance.advance =
        .error (⟨cause, span⟩, b) := by
    rw [read_append (g := Frame.opened (some .fromClause) c.advance.advance) (by rw [read]),
      tables, commaList, append_eq_seq, read, read, failed]
  have from_ : ∀ f, read (callRule rules left) fromClause f c.advance.advance =
      .error (⟨cause, span⟩, b) := by
    intro f
    have goes : (keyword .FROM).holds f c.advance.advance = true := by
      simp [keyword, Test.holds, TokenClass.holds, start.from_]
    rw [fromClause, whenever, read_yes goes, read, one]
  have term : ∀ g, read (callRule rules left) (.take ++ distinct ++ selectList ++ intoTable ++
      fromClause ++ whereClause ++ groupBy ++ having ++ windows) g c =
        .error (⟨cause, span⟩, b) := by
    intro g
    have two := (read_append (reads g)).trans (from_ _)
    simp only [append_eq_seq, read] at two ⊢
    simp only [two]
  have here : (keyword .SELECT).holds f c = true := by
    simp [keyword, Test.holds, TokenClass.holds, start.select]
  exact ⟨span, b, by rw [queryTerm, choose, read_yes here, selectTerm, read, term]⟩

end Grammar

namespace JoinTree

theorem no_semicolon (t : JoinTree) : .symbol .semicolon ∉ t.lexemes := by
  have names : ∀ {lexemes : List Lexeme}, IsTail lexemes → .symbol .semicolon ∉ lexemes := by
    intro lexemes tail
    induction tail with
    | nil => simp
    | @cons name lexemes named rest ih =>
        have other : Lexeme.symbol .semicolon ≠ name := by
          rintro rfl
          cases named
        simp [other, ih]
  induction t with
  | table name =>
      have other : Lexeme.symbol .semicolon ≠ name.first := by
        intro same
        have named := name.named
        rw [← same] at named
        cases named
      simp [lexemes, QualifiedName.lexemes, other, names name.rest]
  | join left right ihLeft ihRight => simp [lexemes, ihLeft, ihRight]

end JoinTree

namespace Script

open Grammar

variable {c d : Cursor} {size : Nat}

/-- What is wrong with the only statement of a text is all that is wrong, and all of it is given
up. -/
theorem statements_fails {cause : SyntaxError.Cause} (fuel : Nat) (ordered : c.Ordered size)
    (starts : isTerminator c.current.lexeme = false)
    (one : ∀ token ∈ c.tokens, token.lexeme ≠ .symbol .semicolon)
    (fails : Fails cause (readStatement { c with depth := 0 })) :
    ∃ span place, statements (fuel + 1) c =
      ([.leaf .unparsed place (SyntaxError.message ⟨cause, span⟩)], [⟨cause, span⟩]) := by
  obtain ⟨span, b, failed⟩ := fails
  have complete : readComplete { c with depth := 0 } = .error (⟨cause, span⟩, b) := by
    rw [readComplete, failed]
  have error : (readOne c).2.1 = some ⟨cause, span⟩ := by rw [readOne, complete]
  obtain ⟨ends, ⟨none, -⟩ | ⟨other, b, same, region⟩⟩ := readOne_found ordered starts
  · rw [error] at none
    cases none
  · obtain rfl := Option.some.inj (error.symm.trans same)
    have suffix := region.skip.suffix.trans region.path.suffix
    have last : (readOne c).2.2.current.lexeme = .finish := by
      refine ((isTerminator_iff _).mp ends).resolve_left fun semicolon => ?_
      exact one _ (suffix.subset List.mem_cons_self) semicolon
    have rest : statements fuel (readOne c).2.2 = ([], []) := by
      cases fuel <;> simp [statements, last]
    refine ⟨span, ⟨c.current.span.start, (readOne c).2.2.previous.stop⟩, ?_⟩
    rw [statements_readOne fuel starts, rest, same, region.region]
    rfl

/-- The cursor stands before a query of all columns of tables, which ends with the text. -/
structure AtTables (t : JoinTree) (c d : Cursor) : Prop where
  passes : c.Passes (.keyword .SELECT :: .symbol .star :: .keyword .FROM :: t.lexemes) d
  last : d.current.lexeme = .finish
  top : c.depth = 0

namespace AtTables

variable {t : JoinTree}

/-- Within the query, where its tables start. -/
theorem tables (here : AtTables t c d) : ∃ (e : Cursor) (token : Token) (left : List Token),
    AtAllColumns { c with depth := 1 } ∧ Cursor.advance (Cursor.advance (Cursor.advance { c with depth := 1 })) = e ∧
      e.Passes t.lexemes { d with depth := 1 } ∧ e.depth = 1 ∧ c.rest = token :: left ∧
      e.rest.length < left.length := by
  obtain ⟨select, more, star, more', from_, more'', passes⟩ := here.passes.turn 1
  have one := Cursor.advance_shorter more
  have two := Cursor.advance_shorter more'
  have three := Cursor.advance_shorter more''
  obtain ⟨token, left, same⟩ := List.exists_cons_of_ne_nil more
  have length : c.rest.length = left.length + 1 := congrArg List.length same
  change _ < c.rest.length at one
  refine ⟨_, token, left, ⟨select, star, from_⟩, rfl, passes, ?_, same, ?_⟩
  · rw [Cursor.advance_depth, Cursor.advance_depth, Cursor.advance_depth]
  · omega

theorem reads (here : AtTables t c d) (plain : t.leftNested? = none) :
    ∃ node : Node, node.unplaced = queryOf t.node ∧ ∃ e : Cursor, e.current.lexeme = .finish ∧
      readStatement c = .ok (node, e) := by
  obtain ⟨e, token, left, start, at_, passes, -, rest, enough⟩ := here.tables
  have item : ReadsNode (callRule rules c.rest) (.call .joinedTable)
      (fun node => node.unplaced = t.node) e { d with depth := 1 } := by
    obtain ⟨node, same, reads⟩ := reads_tables
      (t.reads_item plain passes (here.last ▸ .finish) enough) here.last
    exact ⟨node, same, fun f => by rw [rest, Grammar.read, callRule, rules, reads]⟩
  rw [← at_] at item
  obtain ⟨span, list, clause, item, columns, same, ⟨place, clauses⟩, term⟩ :=
    reads_selectTerm start (by decide : 1 < maxDepth) (by simp [rest]) item here.last
  have select : c.current.lexeme = .keyword .SELECT := start.select
  have query := read_onlyTerm (c := c) (by rw [here.top]) (by rw [here.top]; decide)
    (by rw [select]; rfl) term here.last (.opened none c)
  refine ⟨_, ?_, { d with depth := 0 }, here.last, readStatement_query select query⟩
  simp [Node.unplaced, Node.unplacedAll, queryOf, columns, clauses, same]

theorem fails {nested : JoinTree} (here : AtTables t c d)
    (found : t.leftNested? = some nested) : Fails (nested.queryFault 0) (readStatement c) := by
  obtain ⟨e, token, left, start, at_, passes, level, rest, enough⟩ := here.tables
  have item : ∀ g, Fails (nested.queryFault 0) (callRule rules c.rest .joinedTable g e) := by
    intro g
    obtain ⟨span, b, failed⟩ := t.item_fails found passes enough level g
    exact ⟨span, b, by rw [rest, callRule, rules, joinedTable, append_eq_seq, Grammar.read, failed]⟩
  rw [← at_] at item
  have select : c.current.lexeme = .keyword .SELECT := start.select
  have shallow : ¬maxDepth < c.depth + 1 := by rw [here.top]; decide
  have body : ∀ g, Fails (nested.queryFault 0) (Grammar.read (callRule rules c.rest) queryBody g c) := by
    intro g
    refine queryBody_fails shallow ?_
    rw [here.top]
    exact selectTerm_fails start (by decide : 1 < maxDepth) (by simp [rest]) item
  obtain ⟨span, b, failed⟩ := queryRule_fails (f := .opened none c) (by rw [select]; rfl) body
  exact ⟨span, b, by rw [readStatement, Grammar.run, Grammar.read_statement select, Cursor.tokens, callRule,
    rules, failed]⟩

end AtTables

end Script

/-- Tables under joins that all stand in parentheses are read back where each of these stands to the
right of the one around it. Where one stands to the left, a query is looked for in its place: the
only error names its first table, or the nesting where too many parentheses stand before it. -/
theorem parenthesized_joins (d : Dialect) (text : String) (t : JoinTree)
    (tokens : (tokenize d text).map (·.lexeme) =
      .keyword .SELECT :: .symbol .star :: .keyword .FROM :: t.lexemes ++ [.finish]) :
    (t.leftNested? = none → (Script.read d text).errors = [] ∧
      (Script.read d text).root.unplaced = ⟨.script, ⟨0, 0⟩, none, [Grammar.queryOf t.node]⟩) ∧
    ∀ nested, t.leftNested? = some nested → ∃ span,
      (Script.read d text).errors = [⟨nested.queryFault 0, span⟩] ∧
      (Script.read d text).root.unplaced = ⟨.script, ⟨0, 0⟩, none,
        [.leaf .unparsed ⟨0, 0⟩ (SyntaxError.message ⟨nested.queryFault 0, span⟩)]⟩ := by
  let c := Cursor.ofTokens (tokenize d text)
  have spelled : c.tokens.map (·.lexeme) =
      (.keyword .SELECT :: .symbol .star :: .keyword .FROM :: t.lexemes) ++ .finish :: [] := by
    rw [Script.tokens_ofTokens (tokenize_inOrder d text).ne_nil, tokens]
  obtain ⟨e, passes, left⟩ := Cursor.exists_passes spelled
  have top : c.depth = 0 := Cursor.depth_ofTokens _
  have here : Script.AtTables t c e := ⟨passes, (List.cons.inj left).1, top⟩
  have starts : Script.isTerminator c.current.lexeme = false := by rw [passes.1]; rfl
  have zero : { c with depth := 0 } = c := by rw [← top]
  refine ⟨fun plain => ?_, fun nested found => ?_⟩
  · obtain ⟨node, tree, e, last, read⟩ := here.reads plain
    have one := Script.statements_one (tokenize d text).length starts (zero ▸ read) last
    constructor
    · rw [Script.read, Script.ofTokens, one]
    · rw [Script.read, Script.unplaced_nameOptions, Script.ofTokens, one, Node.unplaced,
        Node.unplacedAll, Node.unplacedAll, tree]
      rfl
  · have plain : ∀ token ∈ c.tokens, token.lexeme ≠ .symbol .semicolon := by
      intro token member same
      have found : token.lexeme ∈ c.tokens.map (·.lexeme) := List.mem_map_of_mem member
      rw [spelled, same] at found
      simp [t.no_semicolon] at found
    obtain ⟨span, place, one⟩ := Script.statements_fails (tokenize d text).length
      (Script.ofTokens_ordered (tokenize_inOrder d text)) starts plain (zero ▸ here.fails found)
    refine ⟨span, ?_, ?_⟩
    · rw [Script.read, Script.ofTokens, one]
    · rw [Script.read, Script.unplaced_nameOptions, Script.ofTokens, one]
      rfl

/-- Joins to the right of each other, and a name with that of its schema. -/
theorem joins_on_the_right :
    let a : TableName := ⟨⟨.word "a", [], by decide, .nil⟩, by decide⟩
    let b : TableName :=
      ⟨⟨.quoted "b", [.symbol .dot, .word "c"], by decide, .cons (by decide) .nil⟩, by decide⟩
    let t : JoinTree := .join (.table a) (.join (.table b) (.table a))
    let text := "SELECT * FROM (a CROSS JOIN (\"b\".c CROSS JOIN a))"
    (tokenize .postgres text).map (·.lexeme) =
        .keyword .SELECT :: .symbol .star :: .keyword .FROM :: t.lexemes ++ [.finish] ∧
      t.leftNested? = none ∧ (Script.read .postgres text).errors = [] ∧
      (Script.read .postgres text).root.unplaced =
        ⟨.script, ⟨0, 0⟩, none, [Grammar.queryOf t.node]⟩ := by
  intro a b t text
  have tokens : (tokenize .postgres text).map (·.lexeme) =
      .keyword .SELECT :: .symbol .star :: .keyword .FROM :: t.lexemes ++ [.finish] := by
    decide +kernel
  obtain ⟨errors, tree⟩ := (parenthesized_joins .postgres text t tokens).1 rfl
  exact ⟨tokens, rfl, errors, tree⟩

/-- A join to the left of another one is not read, though nothing is nested too deeply. -/
theorem join_on_the_left :
    let a : TableName := ⟨⟨.word "a", [], by decide, .nil⟩, by decide⟩
    let b : TableName := ⟨⟨.word "b", [], by decide, .nil⟩, by decide⟩
    let c : TableName := ⟨⟨.word "c", [], by decide, .nil⟩, by decide⟩
    let t : JoinTree := .join (.join (.table a) (.table b)) (.table c)
    let text := "SELECT * FROM ((a CROSS JOIN b) CROSS JOIN c)"
    (tokenize .postgres text).map (·.lexeme) =
        .keyword .SELECT :: .symbol .star :: .keyword .FROM :: t.lexemes ++ [.finish] ∧
      (Script.read .postgres text).errors =
        [⟨.unexpected "SELECT or VALUES" "a", ⟨16, 17⟩⟩] ∧
      (Script.read .postgres text).root.children.map (·.kind) = [.unparsed] :=
  ⟨by decide +kernel, by decide +kernel, by decide +kernel⟩

end SqlAudit
