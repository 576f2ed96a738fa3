import SqlAudit.Proofs.Grammar.Arrivals
import SqlAudit.Proofs.Grammar.Enclosed
import SqlAudit.Proofs.Script.Joins
import SqlAudit.Proofs.Script.Placement
/-!
Queries within queries. In the parentheses of a test, of a list and among the tables, any query is read
as it is by itself, or is nested too deep there. Within an expression a parenthesis opens a query only
where a word that queries start with stands behind it.
-/
namespace SqlAudit

namespace Grammar

variable {call : Nonterminal → Frame → Cursor → Reading} {c i : Cursor} {s : Node}
  {left : List Token} {stop : Token} {P : Node → Prop}

/-- The only term of a query, something of which holds the node. -/
def IsTermWith (P : Node → Prop) (node : Node) : Prop :=
  ∃ span parts, (∃ part ∈ parts, part.Holds P) ∧ node = ⟨.select, span, none, parts⟩

/-- A term of one item. -/
theorem arrives_item (select : c.current.lexeme = .keyword .SELECT)
    (plain : ∀ f, read call distinct f c.advance = .ok (f, c.advance)) (last : stop.lexeme = .finish)
    (item : Arrives call expression (Node.Holds P) c.advance [stop]) :
    Arrives call queryTerm (IsTermWith P) c [stop] := by
  have here (f : Frame) : (keyword .SELECT).holds f c = true := by
    simp [keyword, Test.holds, TokenClass.holds, select]
  have ended {d : Cursor} (left : d.tokens = [stop]) : d.current.lexeme = .finish := by
    rw [(List.cons.inj left).1, last]
  have noKeyword (k : Keyword) {d : Cursor} (left : d.tokens = [stop]) (f : Frame) :
      (keyword k).holds f d = false := by
    simp [keyword, Test.holds, ended left]
  have list : Arrives call selectList (Node.Holds P) c.advance [stop] := by
    refine .within ((item.alone fun d left f => ?_).alone fun d left f => ?_)
    · exact read_absent (by simp [startsAlias, keyword, words, Test.holds, ended left])
    · exact read_loop_none (by simp [symbol, Test.holds, ended left])
  have started : Arrives call (.take ++ distinct ++ selectList) (Node.Holds P) c [stop] :=
    .behind (fun f => read_then rfl (plain f)) list
  have term : Arrives call selectTerm (fun node => ∃ span part, part.Holds P ∧
      node = ⟨.select, span, none, [part]⟩) c [stop] := by
    refine .around (.alone (.alone (.alone (.alone (.alone (.alone started
      fun d left f => read_absent (noKeyword .INTO left f))
      fun d left f => read_absent (noKeyword .FROM left f))
      fun d left f => read_absent (noKeyword .WHERE left f))
      fun d left f => read_absent (noKeyword .GROUP left f))
      fun d left f => read_absent (noKeyword .HAVING left f))
      fun d left f => read_absent ?_)
    simp [word, Test.holds, ended left]
  refine Arrives.mono (.yes term here) ?_
  rintro _ ⟨span, part, holds, rfl⟩
  exact ⟨span, [part], ⟨part, .head _, holds⟩, rfl⟩

/-- A term of all columns of one item. -/
theorem arrives_allColumns (start : AtAllColumns c) (shallow : c.depth < maxDepth)
    (more : left ≠ []) (last : stop.lexeme = .finish)
    (item : Arrives (callRule rules left) (.call .joinedTable) (Node.Holds P)
      c.advance.advance.advance [stop]) :
    Arrives (callRule rules left) queryTerm (IsTermWith P) c [stop] := by
  rcases item with ⟨d, ends, item⟩ | fails
  · have finish : d.current.lexeme = .finish := by rw [(List.cons.inj ends).1, last]
    obtain ⟨span, list, clause, item, -, holds, ⟨place, rfl⟩, reads⟩ :=
      reads_selectTerm start shallow more item finish
    refine .inl ⟨d, ends, _, ⟨span, _, ⟨_, .tail _ (.head _), ?_⟩, rfl⟩, reads⟩
    exact .below (.head _) holds
  · exact .inr fun f => selectTerm_fails start shallow more fails

/-- A query of one term. -/
theorem arrives_query (noWith : (TokenClass.keywords [.WITH]).holds c.current.lexeme = false)
    (last : stop.lexeme = .finish)
    (term : Arrives call queryTerm (IsTermWith P) { c with depth := c.depth + 1 } [stop]) :
    Arrives call queryRule (Node.Holds P) c [stop] := by
  by_cases deep : maxDepth < c.depth + 1
  · exact .inr fun f => queryRule_fails noWith fun g => queryBody_tooDeep deep
  · rcases term with ⟨d, ends, _, ⟨span, parts, ⟨part, member, holds⟩, rfl⟩, reads⟩ | fails
    · have finish : d.current.lexeme = .finish := by rw [(List.cons.inj ends).1, last]
      have query := read_onlyTerm rfl (by omega) noWith reads finish
      exact .inl ⟨{ d with depth := d.depth - 1 }, ends, _, .below member holds, query⟩
    · exact .inr fun f => queryRule_fails noWith fun g => queryBody_fails deep (fails g)

theorem loop_ends (last : stop.lexeme = .finish) {d : Cursor} (ends : d.tokens = [stop])
    (f : Frame) : read call (.loop (continues 0) operatorTail) f d = .ok (f, d) := by
  obtain ⟨here, -⟩ := List.cons.inj ends
  refine read_loop_none ?_
  simp [continues, symbols, keyword, Test.holds, TokenClass.holds, here, last, Lexeme.infixPower?]

theorem read_noDistinct
    (plain : (TokenClass.keywords [.DISTINCT, .ALL]).holds c.current.lexeme = false) (f : Frame) :
    read call distinct f c = .ok (f, c) := by
  have noKeyword {k : Keyword} (listed : k ∈ [Keyword.DISTINCT, .ALL]) :
      (keyword k).holds f c = false := by
    rw [keyword, Test.holds]
    refine Bool.eq_false_iff.mpr fun goes => ?_
    have here : c.current.lexeme = .keyword k := by
      cases same : c.current.lexeme <;> simp_all [TokenClass.holds]
    rw [here, TokenClass.holds, List.contains_eq_mem, decide_eq_false_iff_not] at plain
    exact plain listed
  rw [distinct, read_no (noKeyword (by decide)), accept, read_absent (noKeyword (by decide))]

/-- What follows SELECT is one expression, up to the end of the text. -/
theorem arrives_select {lexeme : Lexeme} {lexemes : List Lexeme}
    (passes : c.Passes (.keyword .SELECT :: lexeme :: lexemes) i)
    (plain : (TokenClass.keywords [.DISTINCT, .ALL]).holds lexeme = false)
    (last : stop.lexeme = .finish)
    (inner : ∀ left d depth, d.Passes (lexeme :: lexemes) { i with depth := depth } →
      i.rest.length < left.length → Arrives (callRule rules left)
        (operand ++ .loop (continues 0) operatorTail) (Node.Holds P) d [stop]) :
    Arrives (callRule rules c.rest) queryRule (Node.Holds P) c [stop] := by
  have fewer := passes.length
  have noWith : (TokenClass.keywords [.WITH]).holds c.current.lexeme = false := by
    rw [passes.1]
    rfl
  obtain ⟨select, more, level⟩ := passes.turn (c.depth + 1)
  obtain ⟨-, -, further⟩ := passes.turn (c.depth + 2)
  obtain ⟨token, left, rest⟩ := List.exists_cons_of_ne_nil more
  have length := congrArg List.length rest
  refine arrives_query noWith last (arrives_item select (read_noDistinct ?_) last
    (.called rest (.deeper ?_)))
  · rwa [level.1]
  · rw [Cursor.advance_turn] at further ⊢
    refine inner left _ _ further ?_
    simp only [List.length_cons] at fewer length
    omega

/-- However deep, the query that starts here is read as this node. -/
def Awaits (s : Node) (c : Cursor) (after : List Token) : Prop :=
  ∀ depth left, c.rest.length < left.length →
    Arrives (callRule rules left) query (· = s) { c with depth := depth } after

variable {close as_ name : Token}

theorem Awaits.parens (awaits : Awaits s i [close, stop]) {depth : Nat}
    (passes : c.Passes [.symbol .openParen] { i with depth := depth })
    (closes : close.lexeme = .symbol .closeParen) (enough : i.rest.length < left.length) :
    Arrives (callRule rules left) (inParens query) (· = s) c [stop] := by
  obtain ⟨opens, -, there⟩ := passes
  refine Arrives.parens ?_ opens closes (by simp)
  rw [← there]
  exact awaits depth left enough

variable (closes : close.lexeme = .symbol .closeParen) (last : stop.lexeme = .finish)
  (awaits : Awaits s i [close, stop])

include closes last awaits

theorem arrives_parenthesis (passes : c.Passes [.keyword .SELECT, .symbol .openParen] i)
    (starts : (TokenClass.keywords [.SELECT, .WITH, .VALUES]).holds i.current.lexeme = true) :
    Arrives (callRule rules c.rest) queryRule (Node.Holds (Encloses s)) c [stop] := by
  refine arrives_select passes rfl last fun left d depth passes enough => ?_
  have inner := awaits.parens passes closes enough
  obtain ⟨opens, -, there⟩ := passes
  refine (arrives_subquery opens ?_ inner).alone fun _ ends f => loop_ends last ends f
  rwa [← there]

theorem arrives_test
    (passes : c.Passes [.keyword .SELECT, .keyword .EXISTS, .symbol .openParen] i) :
    Arrives (callRule rules c.rest) queryRule (Node.Holds (Encloses s)) c [stop] := by
  refine arrives_select passes rfl last fun left d depth passes enough => ?_
  obtain ⟨here, -, passes⟩ := passes
  exact (arrives_exists here (awaits.parens passes closes enough)).alone fun _ ends f =>
    loop_ends last ends f

theorem arrives_list
    (passes : c.Passes [.keyword .SELECT, .word "ARRAY", .symbol .openParen] i) :
    Arrives (callRule rules c.rest) queryRule (Node.Holds (Encloses s)) c [stop] := by
  refine arrives_select passes rfl last fun left d depth passes enough => ?_
  obtain ⟨here, -, passes⟩ := passes
  exact (arrives_array here passes.1 (awaits.parens passes closes enough)).alone fun _ ends f =>
    loop_ends last ends f

theorem arrives_in
    (passes : c.Passes [.keyword .SELECT, .number "1", .keyword .IN, .symbol .openParen] i)
    (starts : (TokenClass.keywords [.SELECT, .WITH, .VALUES]).holds i.current.lexeme = true) :
    Arrives (callRule rules c.rest) queryRule (Node.Holds (Encloses s)) c [stop] := by
  refine arrives_select passes rfl last fun left d depth passes enough => ?_
  obtain ⟨number, -, here, -, passes⟩ := passes
  have inner := awaits.parens passes closes enough
  obtain ⟨opens, -, there⟩ := passes
  refine arrives_inList number here opens ?_ last inner
  rwa [← there]

omit awaits

theorem arrives_tables (top : c.depth = 0) (passes : c.Passes
      [.keyword .SELECT, .symbol .star, .keyword .FROM, .symbol .openParen] i)
    (starts : ∀ f, (startsQuery ||| symbol .openParen).holds f i = true)
    (as_here : as_.lexeme = .keyword .AS) (named : name.lexeme.IsName)
    (awaits : Awaits s i [close, as_, name, stop]) :
    Arrives (callRule rules c.rest) queryRule (Node.Holds (Encloses s)) c [stop] := by
  have fewer := passes.length
  obtain ⟨select, more, star, -, from_, -, opens, -, there⟩ := passes.turn (c.depth + 1)
  obtain ⟨token, left, rest⟩ := List.exists_cons_of_ne_nil more
  have length : c.rest.length = left.length + 1 := congrArg List.length rest
  have noWith : (TokenClass.keywords [.WITH]).holds c.current.lexeme = false := by
    rw [show c.current.lexeme = _ from select]
    rfl
  refine arrives_query noWith last
    (arrives_allColumns ⟨select, star, from_⟩ (by simp [top, maxDepth]) more last ?_)
  have inner := awaits (c.depth + 1) left (by simp only [List.length_cons] at fewer; omega)
  rw [there] at inner
  refine .called rest (.alone (arrives_derivedTable opens ?_ inner closes as_here named last)
    fun d ends f => ?_)
  · rwa [← there]
  · have finish : d.current.lexeme = .finish := by rw [(List.cons.inj ends).1, last]
    exact read_loop_none (by simp [keyword, keywords, Test.holds, finish])

omit closes last

/-- Where the only term of a statement is a query, a word that queries start with stands, or a
parenthesis. -/
theorem statement_opens {d : Cursor} {others : List Node} {made : Option NodeKind}
    {start : Nat} {value : Option String}
    (ok : read (callRule rules left) statement (.opened none c) c =
      .ok (⟨made, start, value, s :: others⟩, d)) (select : s.kind = .select) :
    (TokenClass.keywords [.SELECT, .WITH, .VALUES]).holds c.current.lexeme = true ∨
      c.current.lexeme = .symbol .openParen := by
  rw [statement, choose, read] at ok
  split at ok
  · rename_i goes
    apply (Bool.or_eq_true_iff.mp goes).imp_right
    intro paren
    rw [symbol, Test.holds] at paren
    cases here : c.current.lexeme <;> simp_all [TokenClass.holds]
  · have other := read_shuns (callRule_kind left) (callRule_created left) (by decide) rfl ok
    exact absurd select (other s (.head _))

end Grammar

namespace Script

open Grammar (Arrives Awaits Encloses callRule rules queryRule)

variable {d : Dialect} {q text : String} {s : Node}

/-- The query is read somewhere in the text of another one, or that is nested too deep. -/
def Nests (d : Dialect) (text : String) (s : Node) : Prop :=
  ((read d text).errors = [] ∧ (read d text).root.Holds (Encloses s)) ∨
    ∃ span, (read d text).errors = [⟨.tooDeep, span⟩]

/-- The text of the query starts with a parenthesis. -/
def StartsInParens (d : Dialect) (q : String) : Prop :=
  (tokenize d q).head?.map (·.lexeme) = some (.symbol .openParen)

theorem encloses_named {node : Node} (text : List Char)
    (optionless : s.Every (·.kind ≠ .routineOption)) (holds : node.Holds (Encloses s)) :
    (nameOptions text node).Holds (Encloses s) := by
  obtain ⟨path, part, reached, listed, member⟩ := holds
  induction path generalizing node with
  | nil =>
      obtain rfl : node = part := Option.some.inj reached
      refine .here ⟨?_, ?_⟩
      · rwa [nameOptions_kind]
      · rw [nameOptions_children, ← nameOptions_eq_self text s optionless]
        exact List.mem_map_of_mem member
  | cons i path ih =>
      obtain ⟨child, found, reached⟩ := Node.at?_cons.mp reached
      have inside : nameOptions text child ∈ (nameOptions text node).children := by
        rw [nameOptions_children]
        exact List.mem_map_of_mem (List.mem_of_getElem? found)
      exact .below inside (ih reached)

theorem nests_of_arrives {c : Cursor} {stop : Token} (here : c = .ofTokens (tokenize d text))
    (select : c.current.lexeme = .keyword .SELECT)
    (one : ∀ token ∈ c.tokens, token.lexeme ≠ .symbol .semicolon)
    (optionless : s.Every (·.kind ≠ .routineOption)) (last : stop.lexeme = .finish)
    (arrives : Arrives (callRule rules c.rest) queryRule (Node.Holds (Encloses s)) c [stop]) :
    Nests d text s := by
  have starts : isTerminator c.current.lexeme = false := by rw [select]; rfl
  have top : c.depth = 0 := here ▸ Cursor.depth_ofTokens _
  have zero : { c with depth := 0 } = c := by rw [← top]
  rcases arrives with ⟨e, ends, node, holds, reads⟩ | fails
  · left
    have finish : e.current.lexeme = .finish := by rw [(List.cons.inj ends).1, last]
    have single := statements_one (tokenize d text).length starts
      (zero ▸ readStatement_query select (reads _)) finish
    rw [here] at single
    constructor
    · rw [read, ofTokens, single]
    · refine .below ?_ (encloses_named text.toList optionless holds)
      rw [read_children, ofTokens, single]
      exact .head _
  · right
    obtain ⟨span, b, failed⟩ := fails (.opened none c)
    have given : Grammar.Fails .tooDeep (readStatement c) := by
      refine ⟨span, b, ?_⟩
      rw [readStatement, Grammar.run, Grammar.read_statement select, Cursor.tokens, callRule,
        rules, failed]
    have ordered := ofTokens_ordered (tokenize_inOrder d text)
    obtain ⟨span, place, up⟩ := statements_fails (tokenize d text).length (here ▸ ordered) starts one
      (zero ▸ given)
    rw [here] at up
    exact ⟨span, by rw [read, ofTokens, up]⟩

/-- The language takes no notice of what stands behind a query in parentheses. -/
theorem follows_close :
    Follows ⟨(Lexeme.symbol .closeParen).outline, Lexeme.finish.outline⟩ false :=
  .of_checks (by decide +kernel) (by decide +kernel) (by decide +kernel)

theorem follows_closeAs :
    Follows ⟨(Lexeme.symbol .closeParen).outline, (Lexeme.keyword .AS).outline⟩ false :=
  .of_checks (by decide +kernel) (by decide +kernel) (by decide +kernel)

namespace IsQuery

/-- The first token of a query, before its last one. -/
theorem starts (isQuery : IsQuery d q s) : ∃ first rest, (tokenize d q).dropLast = first :: rest ∧
    ((TokenClass.keywords [.SELECT, .WITH, .VALUES]).holds first.lexeme = true ∨
      first.lexeme = .symbol .openParen) := by
  let c := Cursor.ofTokens (tokenize d q)
  have inOrder := tokenize_inOrder d q
  have tokens : c.tokens = tokenize d q := tokens_ofTokens inOrder.ne_nil
  have top : c.depth = 0 := Cursor.depth_ofTokens _
  have zero : { c with depth := 0 } = c := by rw [← top]
  have plain : ∀ token ∈ c.tokens, token.lexeme ≠ .symbol .semicolon := by
    rw [tokens]
    exact fun token member => (isQuery.plain token member).1
  have single := isQuery.single
  rw [read_children] at single
  obtain ⟨node, nodes, named⟩ := List.map_eq_singleton_iff.mp single
  have select : node.kind = .select := by
    rw [← nameOptions_kind q.toList, named, isQuery.select]
  have one : statements ((tokenize d q).length + 1) c = ([node], []) :=
    Prod.ext nodes isQuery.complete
  obtain ⟨e, found, -⟩ := readStatement_of_statements plain (ofTokens_ordered inOrder) one
  rw [zero, readStatement] at found
  split at found <;> cases found
  rename_i ok
  have opens := Grammar.statement_opens ok select
  have split := inOrder.split_last.1
  cases front : (tokenize d q).dropLast with
  | nil =>
      rw [front] at split
      have finish : c.current.lexeme = .finish :=
        congrArg (·.lexeme) (List.cons.inj (tokens.trans split)).1
      rw [finish] at opens
      rcases opens with starts | paren <;> contradiction
  | cons first rest =>
      rw [front] at split
      have here : c.current = first := (List.cons.inj (tokens.trans split)).1
      exact ⟨first, rest, rfl, here ▸ opens⟩

theorem awaits (isQuery : IsQuery d q s) (stays : ¬TakesEnd d q) {e' : Behind}
    (follows : Follows e' false) {c : Cursor} {after : List Token} (begins : e'.Begins after)
    {n : Nat} (before : c.previous.stop ≤ n)
    (tokens : c.tokens = (tokenize d q).dropLast.map (·.shift n) ++ after) :
    Awaits (s.shift n) c after := by
  intro depth left enough
  rcases isQuery.placed (c := { c with depth := depth }) stays follows (absurd · Bool.false_ne_true)
    begins before tokens enough with ⟨e, ends, -, reads⟩ | ⟨-, fails⟩
  · exact .inl ⟨e, ends, _, rfl, reads⟩
  · exact .inr fails

end IsQuery

/-- A statement around the query, if it is read once the query is. -/
theorem nests_around {a b : String} {first second : Lexeme} {lexemes others : List Lexeme}
    (isQuery : IsQuery d q s) (stays : ¬TakesEnd d q)
    (opens : Lexer.Opens d a.toList (.keyword .SELECT :: lexemes))
    (spelled : (tokenize d b).map (·.lexeme) = first :: second :: others)
    (follows : Follows ⟨first.outline, second.outline⟩ false)
    (one : .symbol .semicolon ∉ lexemes ++ first :: second :: others)
    (arrives : ∀ c i after, c.depth = 0 → c.Passes (.keyword .SELECT :: lexemes) i →
      after.map (·.lexeme) = first :: second :: others →
      ((TokenClass.keywords [.SELECT, .WITH, .VALUES]).holds i.current.lexeme = true ∨
        i.current.lexeme = .symbol .openParen ∧ StartsInParens d q) →
      Awaits (s.shift a.utf8ByteSize) i after → ∃ stop : Token, stop.lexeme = .finish ∧
        Arrives (callRule rules c.rest) queryRule
          (Node.Holds (Encloses (s.shift a.utf8ByteSize))) c [stop]) :
    Nests d (a ++ q ++ "\n" ++ b) (s.shift a.utf8ByteSize) := by
  obtain ⟨n, i, begins, tokens, stop⟩ := isQuery.between b opens
  rw [← lexemes_shift n] at spelled
  have awaits := isQuery.awaits stays follows (Behind.begins_of_lexemes spelled) stop tokens
  obtain ⟨token, rest, front, starts⟩ := isQuery.starts
  have here : i.current.lexeme = token.lexeme := by
    rw [front] at tokens
    exact congrArg (·.lexeme) (List.cons.inj tokens).1
  have inParens (paren : token.lexeme = .symbol .openParen) : StartsInParens d q := by
    rw [StartsInParens, (tokenize_inOrder d q).split_last.1, front]
    exact congrArg some paren
  obtain ⟨last, finish, arrives⟩ := arrives _ i _ (Cursor.depth_ofTokens _) begins spelled
    (here ▸ starts.imp_right fun paren => ⟨paren, inParens paren⟩) awaits
  refine nests_of_arrives rfl begins.1 ?_ (isQuery.shift_optionless stays _) finish arrives
  obtain ⟨passed, all, same⟩ := begins.front
  rw [all, tokens]
  intro token member semicolon
  rcases List.mem_append.mp member with before | later
  · have listed : token.lexeme ∈ Lexeme.keyword .SELECT :: lexemes :=
      same ▸ List.mem_map_of_mem before
    rw [semicolon] at listed
    exact one (List.mem_append_left _ ((List.mem_cons.mp listed).resolve_left Lexeme.noConfusion))
  · rcases List.mem_append.mp later with inner | behind
    · obtain ⟨own, inText, rfl⟩ := List.mem_map.mp inner
      exact (isQuery.plain own ((List.dropLast_sublist _).subset inText)).1 semicolon
    · have listed := spelled ▸ List.mem_map_of_mem behind
      rw [semicolon] at listed
      exact one (List.mem_append_right _ listed)

/-- A statement around the query that ends with the parenthesis behind it. -/
theorem nests_closed {a : String} {lexemes : List Lexeme} (isQuery : IsQuery d q s)
    (stays : ¬TakesEnd d q) (opens : Lexer.Opens d a.toList (.keyword .SELECT :: lexemes))
    (one : .symbol .semicolon ∉ lexemes)
    (arrives : ∀ (c i : Cursor) (close stop : Token), close.lexeme = .symbol .closeParen →
      stop.lexeme = .finish → Awaits (s.shift a.utf8ByteSize) i [close, stop] →
      c.Passes (.keyword .SELECT :: lexemes) i →
      ((TokenClass.keywords [.SELECT, .WITH, .VALUES]).holds i.current.lexeme = true ∨
        i.current.lexeme = .symbol .openParen ∧ StartsInParens d q) →
      Arrives (callRule rules c.rest) queryRule
        (Node.Holds (Encloses (s.shift a.utf8ByteSize))) c [stop]) :
    Nests d (a ++ q ++ "\n)") (s.shift a.utf8ByteSize) := by
  have spelled : (tokenize d ")").map (·.lexeme) = [.symbol .closeParen, .finish] := by
    cases d <;> decide
  have around := nests_around isQuery stays opens spelled follows_close (by simp [one]) ?_
  · rwa [String.append_assoc] at around
  · intro c i after top passes same starts awaits
    obtain ⟨close, after, rfl, closes, same⟩ := List.map_eq_cons_iff.mp same
    obtain ⟨stop, rfl, finish⟩ := List.map_eq_singleton_iff.mp same
    exact ⟨stop, finish, arrives c i close stop closes finish awaits passes starts⟩

theorem nests_among_tables (isQuery : IsQuery d q s) (stays : ¬TakesEnd d q) :
    Nests d ("SELECT * FROM (" ++ q ++ "\n) AS s") (s.shift 15) := by
  have from_ := (Lexer.Opens.none (d := d)).paren.spaced "FROM" (by decide)
    (by decide)
  have opens := (from_.blank (c := ' ') (by decide)).star.spaced "SELECT"
    (by decide) (by decide)
  have spelled : (tokenize d ") AS s").map (·.lexeme) =
      [.symbol .closeParen, .keyword .AS, .word "s", .finish] := by
    cases d <;> decide
  have around := nests_around (a := "SELECT * FROM (") isQuery stays opens spelled follows_closeAs
    (by decide) ?_
  · rwa [String.append_assoc] at around
  · intro c i after top passes same starts awaits
    obtain ⟨close, after, rfl, closes, same⟩ := List.map_eq_cons_iff.mp same
    obtain ⟨as_, after, rfl, here, same⟩ := List.map_eq_cons_iff.mp same
    obtain ⟨name, after, rfl, named, same⟩ := List.map_eq_cons_iff.mp same
    obtain ⟨stop, rfl, finish⟩ := List.map_eq_singleton_iff.mp same
    have goes (f : Frame) :
        (Grammar.startsQuery ||| Grammar.symbol .openParen).holds f i = true := by
      apply Bool.or_eq_true_iff.mpr
      refine starts.imp_right fun paren => ?_
      rw [Grammar.symbol, Test.holds, paren.1]
      rfl
    refine ⟨stop, finish, Grammar.arrives_tables closes finish top passes goes here ?_ awaits⟩
    rw [named]
    decide

end Script

open Script (IsQuery TakesEnd StartsInParens Nests)

/-- A query that leaves its end is read in the parentheses of a test and of a list and among tables,
and as an operand and behind IN if it does not start with a parenthesis itself; or it is nested too
deep there. -/
theorem queries_nest (d : Dialect) (q : String) (s : Node) (isQuery : IsQuery d q s)
    (stays : ¬TakesEnd d q) :
    Nests d ("SELECT EXISTS (" ++ q ++ "\n)") (s.shift 15) ∧
    Nests d ("SELECT ARRAY(" ++ q ++ "\n)") (s.shift 13) ∧
    Nests d ("SELECT * FROM (" ++ q ++ "\n) AS s") (s.shift 15) ∧
    (¬StartsInParens d q → Nests d ("SELECT (" ++ q ++ "\n)") (s.shift 8) ∧
      Nests d ("SELECT 1 IN (" ++ q ++ "\n)") (s.shift 13)) := by
  have paren := Lexer.Opens.paren (Lexer.Opens.none (d := d))
  refine ⟨?_, ?_, ?_, fun plain => ⟨?_, ?_⟩⟩
  · have opens := (paren.spaced "EXISTS" (by decide) (by decide)).spaced "SELECT"
      (by decide) (by decide)
    exact Script.nests_closed (a := "SELECT EXISTS (") isQuery stays opens (by decide)
      fun c i close stop closes last awaits passes _ =>
        Grammar.arrives_test closes last awaits passes
  · have opens := (paren.word "ARRAY".toList (by decide) (by decide)
      (by decide) (by decide)).spaced "SELECT" (by decide) (by decide)
    exact Script.nests_closed (a := "SELECT ARRAY(") isQuery stays opens (by decide)
      fun c i close stop closes last awaits passes _ =>
        Grammar.arrives_list closes last awaits passes
  · exact Script.nests_among_tables isQuery stays
  · have opens := paren.spaced "SELECT" (by decide) (by decide)
    exact Script.nests_closed (a := "SELECT (") isQuery stays opens (by decide)
      fun c i close stop closes last awaits passes starts =>
        Grammar.arrives_parenthesis closes last awaits passes
          (starts.resolve_right fun paren => plain paren.2)
  · have in_ := paren.spaced "IN" (by decide) (by decide)
    have opens := (in_.blank (by decide)).one.spaced "SELECT" (by decide)
      (by decide)
    exact Script.nests_closed (a := "SELECT 1 IN (") isQuery stays opens (by decide)
      fun c i close stop closes last awaits passes starts =>
        Grammar.arrives_in closes last awaits passes
          (starts.resolve_right fun paren => plain paren.2)

/-- A query with another one in front, in an order and with a comment to the end of the line. -/
theorem ordered_query_nests :
    let q := "WITH w AS (SELECT 1 UNION SELECT 2) SELECT * FROM w ORDER BY 1 DESC -- last"
    ∃ s, IsQuery .postgres q s ∧ ¬TakesEnd .postgres q ∧ ¬StartsInParens .postgres q ∧
      (Script.read .postgres ("SELECT 1 IN (" ++ q ++ "\n)")).errors = [] ∧
      (Script.read .postgres ("SELECT 1 IN (" ++ q ++ "\n)")).root.Holds
        (Grammar.Encloses (s.shift 13)) := by
  intro q
  obtain ⟨s, isQuery⟩ := @IsQuery.of_kinds .postgres q (by decide +kernel)
  have stays : ¬TakesEnd .postgres q := by
    unfold TakesEnd
    decide +kernel
  have plain : ¬StartsInParens .postgres q := by
    unfold StartsInParens
    decide +kernel
  have complete : (Script.read .postgres ("SELECT 1 IN (" ++ q ++ "\n)")).errors = [] := by
    decide +kernel
  obtain ⟨-, -, -, within⟩ := queries_nest .postgres q s isQuery stays
  rcases (within plain).2 with ⟨-, holds⟩ | ⟨span, deep⟩
  · exact ⟨s, isQuery, stays, plain, complete, holds⟩
  · rw [complete] at deep
    cases deep

/-- A query that starts with a parenthesis is read among tables, but neither as an operand nor behind
IN; and an order that ends with USING takes the parenthesis behind the query for its operator. -/
theorem union_not_nested :
    let q := "(SELECT 1) UNION SELECT 2"
    let o := "SELECT 1 ORDER BY 1 USING"
    (∃ s, IsQuery .postgres q s) ∧ (∃ s, IsQuery .postgres o s) ∧
      (Script.read .postgres ("SELECT (" ++ q ++ "\n)")).errors =
        [⟨.unexpected ")" "UNION", ⟨19, 24⟩⟩] ∧
      (Script.read .postgres ("SELECT 1 IN (" ++ q ++ "\n)")).errors =
        [⟨.unexpected ")" "UNION", ⟨24, 29⟩⟩] ∧
      (Script.read .postgres ("SELECT * FROM (" ++ q ++ "\n) AS s")).errors = [] ∧
      (Script.read .postgres ("SELECT * FROM (" ++ o ++ "\n) AS s")).errors =
        [⟨.unexpected ")" "AS", ⟨43, 45⟩⟩] := by
  intro q o
  have united : ∃ s, IsQuery .postgres q s :=
    IsQuery.of_kinds (by decide +kernel)
  have ordered : ∃ s, IsQuery .postgres o s :=
    IsQuery.of_kinds (by decide +kernel)
  exact ⟨united, ordered, by decide +kernel, by decide +kernel, by decide +kernel, by decide +kernel⟩

end SqlAudit
