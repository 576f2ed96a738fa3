import SqlAudit.Proofs.Grammar.Names
import SqlAudit.Proofs.Script.Layout
/-!
Joins in parentheses. After an opening parenthesis among the tables a second one is taken for the
start of a query, so a join can stand to the right of another one but not to its left. Joins to the
right do not nest the reading; queries do, and those that are looked for on the left may be too many.
-/
namespace SqlAudit

/-- The name of a table among others. -/
structure TableName extends QualifiedName where
  certain : ¬ first.Means "LATERAL"

/-- Tables under the joins between them. -/
inductive JoinTree where
  | table (name : TableName)
  | join (left right : JoinTree)

namespace JoinTree

/-- The tree read from left to right, with each join in parentheses. -/
def lexemes : JoinTree → List Lexeme
  | table name => name.lexemes
  | join left right =>
    .symbol .openParen :: left.lexemes ++ .keyword .CROSS :: .keyword .JOIN :: right.lexemes ++
      [.symbol .closeParen]

/-- The nodes of the joins and their tables, without their places. -/
def node : JoinTree → Node
  | table name => name.node
  | join left right => ⟨.join, ⟨0, 0⟩, some "CROSS JOIN", [left.node, right.node]⟩

/-- The parentheses in front of the first table. -/
def opens : JoinTree → Nat
  | table _ => 0
  | join left _ => left.opens + 1

def first : JoinTree → TableName
  | table name => name
  | join left _ => left.first

/-- The first join that has another one to its left. -/
def leftNested? : JoinTree → Option JoinTree
  | table _ => none
  | join (table _) right => right.leftNested?
  | join (join left middle) right => some (join (join left middle) right)

end JoinTree

namespace Lexeme

/-- Follows a table that has no alias: a further table, or the end of the tables. -/
inductive EndsItem : Lexeme → Prop
  | join : EndsItem (.keyword .CROSS)
  | close : EndsItem (.symbol .closeParen)
  | finish : EndsItem .finish

variable {lexeme : Lexeme}

theorem EndsItem.not_symbols (ends : lexeme.EndsItem) {ss : List Symbol}
    (other : .closeParen ∉ ss) : (TokenClass.symbols ss).holds lexeme = false := by
  cases ends with
  | close => simpa [TokenClass.holds] using other
  | _ => rfl

end Lexeme

namespace Grammar

variable {call : Nonterminal → Frame → Cursor → Reading} {f g : Frame} {c d e : Cursor}
  {left : List Token} {t : TableName}

theorem read_noAlias (ends : d.current.lexeme.EndsItem) :
    read call tableAlias f d = .ok (f, d) := by
  have unnamed : startsAlias.holds f d = false := by
    generalize same : d.current.lexeme = lexeme at ends
    cases ends <;> simp [startsAlias, keyword, words, Test.holds, TokenClass.holds, same]
  have noColumns : (Test.lastIs .alias &&& symbol .openParen).holds f d = false := by
    simp [symbol, Test.holds, ends.not_symbols]
  rw [tableAlias, read_no unnamed, read_absent noColumns]

/-- An item without its alias. -/
def itemBody : Grammar :=
  accept (word "LATERAL") ++
    .branch (symbol .openParen)
      (.take ++ .branch (startsQuery ||| symbol .openParen)
        query (.dissolve ++ .call .joinedTable) ++ expectSymbol .closeParen)
      (.dissolve ++ accept (keyword .ONLY) ++ qualifiedName ++
        .branch (symbol .openParen) tableFunction (accept (symbol .star)))

/-- A table by its name. -/
theorem reads_table (passes : c.Passes t.lexemes d) (ends : d.current.lexeme.EndsItem) :
    ReadsNode call tableItem (fun node => node.unplaced = t.node) c d := by
  obtain ⟨node, ⟨span, leaf⟩, reads⟩ := reads_qualifiedName call t.named t.rest passes
    (ends.not_symbols (by decide))
  have lateral := t.certain
  have named := t.named
  rw [← passes.1] at lateral named
  have notLateral : ∀ f, (word "LATERAL").holds f c = false := fun _ =>
    Bool.eq_false_of_not_eq_true lateral
  have notOpen : ∀ f, (symbol .openParen).holds f c = false := fun _ => named.not_symbols _
  have notOnly : ∀ f, (keyword .ONLY).holds f c = false := fun _ => named.not_keywords _
  have noFunction : ∀ f, (symbol .openParen).holds f d = false := fun _ =>
    ends.not_symbols (by decide)
  have noStar : ∀ f, (symbol .star).holds f d = false := fun _ => ends.not_symbols (by decide)
  have body : read call itemBody (.opened (some .subquery) c) c = .ok (⟨none, c.current.span.start, none, [node]⟩, d) := by
    simp [itemBody, append_eq_seq, read, accept, whenever, notLateral, notOpen, notOnly, noFunction, noStar,
      reads, Frame.opened, Frame.push]
  refine ⟨node, ?_, fun f => read_then (read_node body) (read_noAlias ends)⟩
  rw [leaf]
  rfl

/-- Two items with the words of a join between them, up to a parenthesis. -/
theorem reads_crossJoin {P Q : Node → Prop} {b : Cursor} (one : ReadsNode call tableItem P c d)
    (words : d.Passes [.keyword .CROSS, .keyword .JOIN] e) (two : ReadsNode call tableItem Q e b)
    (closes : b.current.lexeme = .symbol .closeParen) (onward : b.rest.length ≤ e.rest.length) :
    ReadsNode call joinedTable (fun node => ∃ span left right, P left ∧ Q right ∧
      node = ⟨.join, span, some "CROSS JOIN", [left, right]⟩) c b := by
  obtain ⟨left, isLeft, readsLeft⟩ := one
  obtain ⟨right, isRight, readsRight⟩ := two
  have fewer := words.length
  rw [List.length_cons] at fewer
  obtain ⟨here, -, next, -, rfl⟩ := words
  have inner : read call (joinType ++ tableItem ++ joinCondition)
      ⟨some .join, left.span.start, none, [left]⟩ d =
        .ok (⟨some .join, left.span.start, some "CROSS JOIN", [right, left]⟩, b) := by
    simp [joinType, innerJoin, joinCondition, choose, append_eq_seq, read, takeAs, expectKeyword,
      expect, keyword, keywords, Test.holds, TokenClass.holds, here, next, closes, readsRight,
      Spelling.of, Lexeme.capitals?, Keyword.text, Frame.write, Frame.push]
  refine ⟨⟨.join, ⟨left.span.start, max b.previous.stop left.span.start⟩, some "CROSS JOIN",
    [left, right]⟩, ⟨_, left, right, isLeft, isRight, rfl⟩, fun f => ?_⟩
  refine read_then (readsLeft f) (read_rounds (.round ?_ (read_wrap inner) (by omega) (.done ?_)))
  · simp [keyword, keywords, joinWords, Test.holds, here]
  · simp [keyword, keywords, Test.holds, TokenClass.holds, closes]

/-- What stands in parentheses among the tables and starts with neither a query nor a parenthesis is
read as they are. -/
theorem reads_parenthesized {P : Node → Prop} (opens : c.current.lexeme = .symbol .openParen)
    (named : c.advance.current.lexeme.IsName)
    (inner : ReadsNode call (.call .joinedTable) P c.advance d)
    (closes : d.current.lexeme = .symbol .closeParen) (ends : d.advance.current.lexeme.EndsItem) :
    ReadsNode call tableItem P c d.advance := by
  obtain ⟨node, holds, reads⟩ := inner
  simp only [read] at reads
  have notLateral : ∀ f, (word "LATERAL").holds f c = false := by
    simp [word, Test.holds, TokenClass.holds, opens]
  have noQuery : ∀ f, startsQuery.holds f c.advance = false := fun _ => named.not_keywords _
  have noParen : ∀ f, (symbol .openParen).holds f c.advance = false := fun _ =>
    named.not_symbols _
  have goes : ∀ f, (symbol .openParen).holds f c = true := by
    simp [symbol, Test.holds, TokenClass.holds, opens]
  have closed : ∀ f, (symbol .closeParen).holds f d = true := by
    simp [symbol, Test.holds, TokenClass.holds, closes]
  have body : read call itemBody (.opened (some .subquery) c) c =
        .ok (⟨none, c.current.span.start, none, [node]⟩, d.advance) := by
    simp [itemBody, append_eq_seq, read, accept, whenever, expectSymbol, expect, notLateral, goes, noQuery,
      noParen, closed, reads, Frame.opened, Frame.push]
  exact ⟨node, holds, fun f => read_then (read_node body) (read_noAlias ends)⟩

/-- The reading ends with an error of this cause. -/
def Fails {α : Type} (cause : SyntaxError.Cause) (reading : Except (SyntaxError × Cursor) α) :
    Prop :=
  ∃ span b, reading = .error (⟨cause, span⟩, b)

variable {cause : SyntaxError.Cause}

theorem item_fails (fails : ∀ g, Fails cause (read call itemBody g c)) :
    Fails cause (read call tableItem f c) := by
  obtain ⟨span, b, failed⟩ := fails (.opened (some .subquery) c)
  have body : read call (.node .subquery itemBody) f c = .error (⟨cause, span⟩, b) := by
    rw [read, failed]
  exact ⟨span, b, by rw [tableItem, append_eq_seq, read, ← itemBody, body]⟩

/-- The second of two parentheses is one that a query starts with. -/
theorem item_fails_query (opens : c.current.lexeme = .symbol .openParen)
    (again : c.advance.current.lexeme = .symbol .openParen)
    (fails : ∀ g, Fails cause (call .query g c.advance)) :
    Fails cause (read call tableItem f c) := by
  refine item_fails fun g => ?_
  obtain ⟨span, b, failed⟩ := fails g
  refine ⟨span, b, ?_⟩
  simp [itemBody, append_eq_seq, read, accept, whenever, query, word, symbol, Test.holds,
    TokenClass.holds, opens, again, failed]

theorem item_fails_within (opens : c.current.lexeme = .symbol .openParen)
    (named : c.advance.current.lexeme.IsName)
    (fails : ∀ g, Fails cause (call .joinedTable g c.advance)) :
    Fails cause (read call tableItem f c) := by
  refine item_fails fun g => ?_
  have noQuery : ∀ f, startsQuery.holds f c.advance = false := fun _ => named.not_keywords _
  have noParen : ∀ f, (symbol .openParen).holds f c.advance = false := fun _ =>
    named.not_symbols _
  have goes : ∀ f, (symbol .openParen).holds f c = true := by
    simp [symbol, Test.holds, TokenClass.holds, opens]
  have notLateral : ∀ f, (word "LATERAL").holds f c = false := by
    simp [word, Test.holds, TokenClass.holds, opens]
  obtain ⟨span, b, failed⟩ := fails { g with kind := none }
  refine ⟨span, b, ?_⟩
  simp [itemBody, append_eq_seq, read, accept, whenever, notLateral, goes, noQuery, noParen, failed]

/-- What is wrong with the item to the right of a join is wrong with the join. -/
theorem joinedTable_fails {P : Node → Prop} (one : ReadsNode call tableItem P c d)
    (words : d.Passes [.keyword .CROSS, .keyword .JOIN] e)
    (two : ∀ g, Fails cause (read call tableItem g e)) :
    Fails cause (read call joinedTable f c) := by
  obtain ⟨left, -, reads⟩ := one
  obtain ⟨here, -, next, -, rfl⟩ := words
  obtain ⟨span, b, failed⟩ := two ⟨some .join, left.span.start, some "CROSS JOIN", [left]⟩
  refine ⟨span, b, ?_⟩
  have inner : read call (joinType ++ tableItem ++ joinCondition)
      ⟨some .join, left.span.start, none, [left]⟩ d = .error (⟨cause, span⟩, b) := by
    simp [joinType, innerJoin, choose, append_eq_seq, read, takeAs, expectKeyword, expect, keyword,
      keywords, Test.holds, TokenClass.holds, here, next, failed, Spelling.of, Lexeme.capitals?,
      Keyword.text, Frame.write]
  have last : (f.push left).wrapLast .join d =
      (⟨some .join, left.span.start, none, [left]⟩, f) := rfl
  have step : read call (.wrap .join (joinType ++ tableItem ++ joinCondition)) (f.push left) d =
      .error (⟨cause, span⟩, b) := by
    rw [read, last]
    simp only [inner]
  have goes : (keyword .NATURAL ||| keywords joinWords).holds (f.push left) d = true := by
    simp [keyword, keywords, joinWords, Test.holds, here]
  rw [joinedTable, read_append (reads f), read, Cursor.tokens, repeatWhile, if_pos goes, step]

/-- A query without a WITH clause is what follows that. -/
theorem queryRule_fails (noWith : (TokenClass.keywords [.WITH]).holds c.current.lexeme = false)
    (fails : ∀ g, Fails cause (read call queryBody g c)) :
    Fails cause (read call queryRule f c) := by
  have nothing : ∀ g, read call (whenever (keyword .WITH) withClause) g c = .ok (g, c) := by
    intro g
    have stays : (keyword .WITH).holds g c = false := noWith
    rw [read_absent stays]
  obtain ⟨span, b, failed⟩ := fails (.opened (some .select) c)
  exact ⟨span, b, by rw [queryRule, read, read_append (nothing _), failed]⟩

theorem queryBody_tooDeep (deep : maxDepth < c.depth + 1) :
    Fails .tooDeep (read call queryBody f c) := by
  rw [queryBody, read]
  exact ⟨_, _, if_pos deep⟩

theorem queryBody_fails (shallow : ¬maxDepth < c.depth + 1)
    (fails : Fails cause (read call queryTerm f { c with depth := c.depth + 1 })) :
    Fails cause (read call queryBody f c) := by
  obtain ⟨span, b, failed⟩ := fails
  refine ⟨span, b, ?_⟩
  rw [queryBody, read]
  simp only [if_neg shallow]
  simp [append_eq_seq, read, failed]

theorem queryTerm_fails (named : c.current.lexeme.IsName) :
    Fails (.unexpected "SELECT or VALUES" c.current.lexeme.describe)
      (read call queryTerm f c) := by
  have cause : SyntaxError.unexpected "SELECT or VALUES" c.current =
      ⟨.unexpected "SELECT or VALUES" c.current.lexeme.describe, c.current.span⟩ := by
    rcases named.cases with ⟨text, same⟩ | ⟨text, same⟩ <;>
      rw [SyntaxError.unexpected, same]
  refine ⟨c.current.span, c, ?_⟩
  rw [← cause]
  simp [queryTerm, choose, read, keyword, symbol, Test.holds, named.not_keywords,
    named.not_symbols]

theorem queryTerm_fails_within (opens : c.current.lexeme = .symbol .openParen)
    (fails : Fails cause (call .query f c.advance)) :
    Fails cause (read call queryTerm f c) := by
  obtain ⟨span, b, failed⟩ := fails
  refine ⟨span, b, ?_⟩
  simp [queryTerm, choose, inParens, append_eq_seq, read, query, expectSymbol, expect, keyword,
    symbol, Test.holds, TokenClass.holds, opens, failed]

end Grammar

namespace JoinTree

open Grammar

variable {left : List Token} {c d : Cursor}

theorem passes_join {first second : JoinTree} (passes : c.Passes (join first second).lexemes d) :
    ∃ e h b, c.current.lexeme = .symbol .openParen ∧ c.rest ≠ [] ∧
      c.advance.Passes first.lexemes e ∧ e.Passes [.keyword .CROSS, .keyword .JOIN] h ∧
      h.Passes second.lexemes b ∧ b.current.lexeme = .symbol .closeParen ∧ b.rest ≠ [] ∧
      d = b.advance := by
  have spelled : (join first second).lexemes = .symbol .openParen :: (first.lexemes ++
      ([.keyword .CROSS, .keyword .JOIN] ++ (second.lexemes ++ [.symbol .closeParen]))) := by
    simp [lexemes]
  rw [spelled] at passes
  obtain ⟨opens, more, passes⟩ := passes
  obtain ⟨e, one, passes⟩ := Cursor.passes_append.mp passes
  obtain ⟨h, words, passes⟩ := Cursor.passes_append.mp passes
  obtain ⟨b, two, closes, others, rfl⟩ := Cursor.passes_append.mp passes
  exact ⟨e, h, b, opens, more, one, words, two, closes, others, rfl⟩

/-- Joins that stand only to the right of others are read back. -/
theorem reads_item (t : JoinTree) (plain : t.leftNested? = none) (passes : c.Passes t.lexemes d)
    (ends : d.current.lexeme.EndsItem) (enough : c.rest.length < left.length) :
    ReadsNode (callRule rules left) tableItem (fun node => node.unplaced = t.node) c d := by
  induction t generalizing left c d with
  | table name => exact reads_table passes ends
  | join first second _ ih =>
      cases first with
      | join first middle => cases plain
      | table name =>
          obtain ⟨e, h, b, opens, more, one, words, two, closes, others, rfl⟩ := passes_join passes
          have named : c.advance.current.lexeme.IsName := one.1 ▸ name.named
          have shorter := Cursor.advance_shorter more
          have before := one.length
          have between := words.length
          have after := two.length
          obtain ⟨token, left, rfl⟩ := List.exists_cons_of_ne_nil
            (List.ne_nil_of_length_pos (Nat.zero_lt_of_lt enough))
          rw [List.length_cons] at enough
          have startsJoin : e.current.lexeme.EndsItem := words.1 ▸ .join
          have fewer : h.rest.length < left.length := by omega
          have further := ih plain two (closes ▸ .close) fewer
          obtain ⟨node, ⟨span, before, after, isFirst, isLast, rfl⟩, reads⟩ :=
            reads_crossJoin (reads_table one startsJoin) words further closes (by omega)
          refine reads_parenthesized opens named ⟨_, ?_, reads⟩ closes ends
          simp [Node.unplaced, Node.unplacedAll, isFirst, isLast, node]

/-- What is wrong with tables that stand at this depth where a query is expected. One level is
entered for each parenthesis and one for the term that is missing. -/
def queryFault (t : JoinTree) (depth : Nat) : SyntaxError.Cause :=
  if depth + t.opens < maxDepth then .unexpected "SELECT or VALUES" t.first.first.describe
  else .tooDeep

theorem queryFault_succ (before after : JoinTree) (depth : Nat) :
    before.queryFault (depth + 1) = (join before after).queryFault depth := by
  rw [queryFault, queryFault, opens, first, Nat.add_right_comm, Nat.add_assoc]

theorem query_fails (t : JoinTree) (passes : c.Passes t.lexemes d)
    (enough : c.rest.length < left.length) (f : Frame) :
    Fails (t.queryFault c.depth) (callRule rules left .query f c) := by
  induction t generalizing left c d f with
  | table name =>
      obtain ⟨token, left, rfl⟩ := List.exists_cons_of_ne_nil
        (List.ne_nil_of_length_pos (Nat.zero_lt_of_lt enough))
      have named : c.current.lexeme.IsName := passes.1 ▸ name.named
      refine queryRule_fails (named.not_keywords _) fun g => ?_
      by_cases deep : maxDepth < c.depth + 1
      · rw [queryFault, opens, if_neg (by omega)]
        exact queryBody_tooDeep deep
      · rw [queryFault, opens, if_pos (by omega), first, ← passes.1]
        exact queryBody_fails deep (queryTerm_fails named)
  | join before after ih _ =>
      obtain ⟨e, h, b, parenthesis, more, one, -⟩ := passes_join passes
      have shorter := Cursor.advance_shorter more
      obtain ⟨token, left, rfl⟩ := List.exists_cons_of_ne_nil
        (List.ne_nil_of_length_pos (Nat.zero_lt_of_lt enough))
      rw [List.length_cons] at enough
      refine queryRule_fails (by rw [parenthesis]; rfl) fun g => ?_
      by_cases deep : maxDepth < c.depth + 1
      · rw [queryFault, opens, if_neg (by omega)]
        exact queryBody_tooDeep deep
      · have inner : Fails (before.queryFault (c.depth + 1)) (callRule rules left .query g
            (Cursor.advance { c with depth := c.depth + 1 })) := by
          rw [Cursor.advance_turn]
          have fewer : c.advance.rest.length < left.length := by omega
          exact ih (one.turn (c.depth + 1)) fewer g
        rw [← queryFault_succ]
        exact queryBody_fails deep (queryTerm_fails_within parenthesis inner)

/-- A join to the left of another one is taken for a query, wherever it stands. -/
theorem item_fails {t nested : JoinTree} (found : t.leftNested? = some nested)
    (passes : c.Passes t.lexemes d) (enough : c.rest.length < left.length) {depth : Nat}
    (level : c.depth = depth + 1) (f : Frame) :
    Fails (nested.queryFault depth) (Grammar.read (callRule rules left) tableItem f c) := by
  induction t generalizing left c d f with
  | table name => cases found
  | join before after _ ih =>
      obtain ⟨e, h, b, parenthesis, more, one, words, two, -⟩ := passes_join passes
      have shorter := Cursor.advance_shorter more
      cases before with
      | join first second =>
          obtain rfl := Option.some.inj found
          have again : c.advance.current.lexeme = .symbol .openParen := one.1
          have depth' : c.advance.depth = depth + 1 := (Cursor.advance_depth c).trans level
          refine item_fails_query parenthesis again fun g => ?_
          have fewer : c.advance.rest.length < left.length := by omega
          have inner := query_fails (join first second) one fewer g
          rwa [depth', queryFault_succ _ after] at inner
      | table name =>
          have named : c.advance.current.lexeme.IsName := one.1 ▸ name.named
          have before := one.length
          have between := words.length
          obtain ⟨token, left, rfl⟩ := List.exists_cons_of_ne_nil
            (List.ne_nil_of_length_pos (Nat.zero_lt_of_lt enough))
          rw [List.length_cons] at enough
          have startsJoin : e.current.lexeme.EndsItem := words.1 ▸ .join
          have level' : h.depth = depth + 1 := by
            rw [words.depth, one.depth, Cursor.advance_depth, level]
          refine item_fails_within parenthesis named fun g => ?_
          exact joinedTable_fails (reads_table one startsJoin) words fun g =>
            ih found two (by omega) level' g

end JoinTree
end SqlAudit
