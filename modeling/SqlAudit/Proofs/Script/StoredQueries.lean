import SqlAudit.Proofs.Script.Columns
import SqlAudit.Proofs.Script.Placement
import SqlAudit.Proofs.Token.Opening
/-!
Tables and materialized views of queries. Whatever query follows AS, it is read as it is by itself,
and WITH DATA or WITH NO DATA behind it belongs to the statement, unless the query takes the word WITH
for its own.
-/
namespace SqlAudit

namespace Grammar

variable {call : Nonterminal → Frame → Cursor → Reading} {f : Frame} {c d e i : Cursor}
  {s name : Node} {left : List Token} {table view : QualifiedName}

theorem reads_asQuery (here : c.current.lexeme = .keyword .AS)
    (queried : ∀ f, read call query f c.advance = .ok (f.push s, d)) :
    ReadsNode call asQuery (fun node => ∃ span, node = ⟨.asQuery, span, none, [s]⟩) c d := by
  have goes : (keyword .AS).holds (.opened (some .asQuery) c) c = true := by
    simp [keyword, Test.holds, TokenClass.holds, here]
  have inner : read call (expectKeyword .AS ++ query) (.opened (some .asQuery) c) c =
      .ok ((Frame.opened (some .asQuery) c).push s, d) := by
    refine read_then ?_ (queried _)
    rw [expectKeyword, expect, read_yes goes]
    rfl
  exact ⟨_, ⟨_, rfl⟩, fun f => read_node inner⟩

/-- Two words after one another. -/
theorem holds_words {word : String} (first : d.current.lexeme = .keyword .WITH)
    (second : d.advance.current.lexeme = .word word) (spelling : String) (f : Frame) :
    (keyword .WITH &&& nextWord spelling).holds f d =
      (TokenClass.words [spelling]).holds (.word word) := by
  rw [Cursor.advance_current] at second
  simp [keyword, nextWord, Test.holds, TokenClass.holds, first, second]

theorem reads_withNoData (passes : d.Passes [.keyword .WITH, .word "NO", .word "DATA"] e) :
    ReadsNode call withData (IsLeafOf .withData "WITH NO DATA") d e := by
  obtain ⟨first, -, second, -, third, -, rfl⟩ := passes
  have no (f : Frame) : (keyword .WITH &&& nextWord "NO").holds f d = true := by
    rw [holds_words first second]
    decide
  have inner (f : Frame) : read call (.take ++ .take ++ expectWord "DATA" ++ .write "WITH NO DATA") f d =
      .ok (f.write "WITH NO DATA", d.advance.advance.advance) := by
    have data : (word "DATA").holds f d.advance.advance = true := by
      rw [word, Test.holds, third]
      decide
    simp [append_eq_seq, read, expectWord, expect, data]
  refine ⟨_, ⟨⟨d.current.span.start, max d.advance.advance.advance.previous.stop d.current.span.start⟩, rfl⟩,
    fun f => ?_⟩
  rw [withData, choose, read_yes (no f), read_node (inner _)]
  simp [Frame.close, Frame.opened, Frame.write, Node.leaf]

theorem reads_withData (passes : d.Passes [.keyword .WITH, .word "DATA"] e) :
    ReadsNode call withData (IsLeafOf .withData "WITH DATA") d e := by
  obtain ⟨first, -, second, -, rfl⟩ := passes
  have no (f : Frame) : (keyword .WITH &&& nextWord "NO").holds f d = false := by
    rw [holds_words first second]
    decide
  have data (f : Frame) : (keyword .WITH &&& nextWord "DATA").holds f d = true := by
    rw [holds_words first second]
    decide
  refine ⟨_, ⟨⟨d.current.span.start, max d.advance.advance.previous.stop d.current.span.start⟩, rfl⟩,
    fun f => ?_⟩
  rw [withData, choose, read_no (no f), choose, read_yes (data f), read_node rfl]
  simp [Frame.close, Frame.opened, Frame.write, Node.leaf, Frame.push]

theorem read_createTableAs {data stored : Node}
    (absent : ¬table.first.Means "IF") (named : c.advance.Passes table.lexemes i)
    (as_ : i.current.lexeme = .keyword .AS)
    (readName : ∀ f, read call qualifiedName f c.advance = .ok (f.push name, i))
    (readQuery : ∀ f, read call asQuery f i = .ok (f.push stored, d))
    (readData : ∀ f, read call withData f d = .ok (f.push data, e)) (f : Frame) :
    read call createTable f c = .ok ({ f with parts := [data, stored, name] ++ f.parts }, e) := by
  have exists_ : ∀ f, (word "IF").holds f c.advance = false := by
    intro f
    rw [← named.1] at absent
    exact Bool.eq_false_iff.mpr absent
  have noElements : ∀ f, (symbol .openParen ||| word "OF" |||
      (word "PARTITION" &&& nextWord "OF")).holds f i = false := by
    simp [symbol, word, Test.holds, TokenClass.holds, as_]
  have noOptions : ∀ f, read call tableOptions f i = .ok (f, i) := fun f =>
    read_loop_none (by
      simp [words, keyword, startsStorageParameters, startsOnCommit, Test.holds, TokenClass.holds,
        as_])
  have goes : ∀ f, (keyword .AS).holds f i = true := by
    simp [keyword, Test.holds, TokenClass.holds, as_]
  refine read_then (read_then (read_then rfl (read_absent (exists_ f))) (readName f)) ?_
  rw [read_no (noElements _)]
  refine read_then (noOptions _) ?_
  rw [read_yes (goes _)]
  exact read_then (readQuery _) (readData _)

theorem read_createViewAs {data stored : Node}
    (absent : ¬view.first.Means "IF") (named : c.advance.Passes view.lexemes i)
    (as_ : i.current.lexeme = .keyword .AS)
    (readName : ∀ f, read call qualifiedName f c.advance = .ok (f.push name, i))
    (readQuery : ∀ f, read call asQuery f i = .ok (f.push stored, d))
    (follows : d.Passes [.keyword .WITH, .word "DATA"] e)
    (readData : ∀ f, read call withData f d = .ok (f.push data, e)) (f : Frame) :
    read call createView f c = .ok ({ f with parts := [data, stored, name] ++ f.parts }, e) := by
  have exists_ : ∀ f, (word "IF").holds f c.advance = false := by
    intro f
    rw [← named.1] at absent
    exact Bool.eq_false_iff.mpr absent
  have noColumns : ∀ f, (symbol .openParen).holds f i = false := by
    simp [symbol, Test.holds, TokenClass.holds, as_]
  have noMethod : ∀ f, (keyword .USING).holds f i = false := by
    simp [keyword, Test.holds, TokenClass.holds, as_]
  have noParameters : ∀ f, (keyword .WITH).holds f i = false := by
    simp [keyword, Test.holds, TokenClass.holds, as_]
  have noTablespace : ∀ f, (word "TABLESPACE").holds f i = false := by
    simp [word, Test.holds, TokenClass.holds, as_]
  have goes (f : Frame) : (keyword .WITH &&& .next (.words ["NO", "DATA"])).holds f d = true := by
    obtain ⟨first, -, second, -⟩ := follows
    rw [Cursor.advance_current] at second
    simp [keyword, Test.holds, TokenClass.holds, first, second]
    decide
  refine read_then (read_then (read_then (read_then (read_then (read_then (read_then (read_then rfl
    (read_absent (exists_ f))) (readName f)) (read_absent (noColumns _)))
    (read_absent (noMethod _))) (read_absent (noParameters _))) (read_absent (noTablespace _)))
    (readQuery _)) ?_
  rw [read_yes (goes _)]
  exact readData _

/-- What CREATE and its modifiers are followed by. -/
def object : Grammar :=
  choose [
    (keyword .TABLE, .become .createTable ++ createTable),
    (word "INDEX", .become .createIndex ++ createIndex),
    (word "SCHEMA", .become .createSchema ++ createSchema),
    (word "EXTENSION", .become .createExtension ++ createExtension),
    (word "SEQUENCE", .become .createSequence ++ createSequence),
    (word "VIEW", .become .createView ++ createView),
    (words ["FUNCTION", "PROCEDURE"], .become .createFunction ++ createRoutine)]
  otherObject

/-- A statement with the parts that its modifiers and its object leave. -/
theorem reads_created {kind : NodeKind} {before after : List Node}
    (creates : c.current.lexeme = .keyword .CREATE)
    (modified : ∀ f, read call modifiers f c.advance =
      .ok ({ f with parts := before ++ f.parts }, d))
    (made : ∀ f, read call object f d =
      .ok ({ f with kind := some kind, parts := after ++ f.parts }, e)) :
    ReadsNode call createRule
      (fun node => ∃ span, node = ⟨kind, span, none, (after ++ before).reverse⟩) c e := by
  have first : ∀ f, read call (expectKeyword .CREATE) f c = .ok (f, c.advance) := by
    simp [expectKeyword, expect, read, keyword, Test.holds, TokenClass.holds, creates]
  have whole := read_then (read_then (first (.opened (some .otherStatement) c)) (modified _)) (made _)
  refine ⟨_, ⟨⟨c.current.span.start, max e.previous.stop c.current.span.start⟩, rfl⟩, fun f => ?_⟩
  rw [createRule, ← object, read_node whole]
  simp [Frame.close, Frame.opened]

theorem read_object_table {parts : List Node} (makes : d.current.lexeme = .keyword .TABLE)
    (read_ : ∀ f, read call createTable f d = .ok ({ f with parts := parts ++ f.parts }, e)) (f : Frame) :
    read call object f d =
      .ok ({ f with kind := some .createTable, parts := parts ++ f.parts }, e) := by
  have isTable : ∀ f, (keyword .TABLE).holds f d = true := by
    simp [keyword, Test.holds, TokenClass.holds, makes]
  rw [object, choose, read_yes (isTable _)]
  exact read_then rfl (read_ _)

theorem read_object_view {parts : List Node} (makes : d.current.lexeme = .word "VIEW")
    (read_ : ∀ f, read call createView f d = .ok ({ f with parts := parts ++ f.parts }, e)) (f : Frame) :
    read call object f d =
      .ok ({ f with kind := some .createView, parts := parts ++ f.parts }, e) := by
  have spelled (spelling : String) (f : Frame) : (word spelling).holds f d =
      (TokenClass.words [spelling]).holds (.word "VIEW") := by
    rw [word, Test.holds, makes]
  have noTable : ∀ f, (keyword .TABLE).holds f d = false := by
    simp [keyword, Test.holds, TokenClass.holds, makes]
  rw [object, choose, read_no (noTable _), choose, read_no (by rw [spelled]; decide), choose,
    read_no (by rw [spelled]; decide), choose, read_no (by rw [spelled]; decide),
    choose, read_no (by rw [spelled]; decide), choose,
    read_yes (by rw [spelled]; decide)]
  exact read_then rfl (read_ _)

/-- A table of a query. -/
theorem reads_tableAs (table : QualifiedName) (absent : ¬table.first.Means "IF")
    (begins : c.Passes (.keyword .CREATE :: .keyword .TABLE :: table.lexemes ++ [.keyword .AS]) i)
    (queried : ∀ f, read call query f i = .ok (f.push s, d))
    (ends : d.Passes [.keyword .WITH, .word "NO", .word "DATA"] e) :
    ReadsNode call createRule (fun node => ∃ own name stored data, node = ⟨.createTable, own, none,
      [.leaf .qualifiedName name (dotted table.lexemes), ⟨.asQuery, stored, none, [s]⟩,
        .leaf .withData data "WITH NO DATA"]⟩) c e := by
  obtain ⟨b, ⟨creates, -, makes, -, named⟩, as_, -, rfl⟩ := Cursor.passes_append.mp begins
  have noDot : (TokenClass.symbols [.dot]).holds b.current.lexeme = false := by
    rw [as_]
    rfl
  obtain ⟨-, ⟨name, rfl⟩, readName⟩ := reads_qualifiedName call table.named table.rest named noDot
  obtain ⟨-, ⟨stored, rfl⟩, readQuery⟩ := reads_asQuery as_ queried
  obtain ⟨-, ⟨data, rfl⟩, readData⟩ := reads_withNoData ends
  have unmodified : ∀ f, read call modifiers f c.advance = .ok (f, c.advance) :=
    fun f => read_loop_none (by simp [keywords, words, Test.holds, TokenClass.holds, makes])
  obtain ⟨node, ⟨own, same⟩, reads⟩ := @reads_created _ _ _ _ _ [] _ creates unmodified
    (read_object_table makes (read_createTableAs absent named as_ readName readQuery readData))
  exact ⟨node, ⟨own, name, stored, data, same⟩, reads⟩

/-- A modifier of CREATE starts with this lexeme. -/
def startsModifier (lexeme : Lexeme) : Bool :=
  (TokenClass.keywords [.OR, .UNIQUE]).holds lexeme ||
    (TokenClass.words ["GLOBAL", "LOCAL", "TEMPORARY", "TEMP", "UNLOGGED", "MATERIALIZED",
      "RECURSIVE"]).holds lexeme

theorem read_materialized (here : c.current.lexeme = .word "MATERIALIZED") (f : Frame) :
    read call modifier f c = .ok (f.push ⟨.materialized,
      ⟨c.current.span.start, max c.advance.previous.stop c.current.span.start⟩, none, []⟩,
      c.advance) := by
  have spelled (spellings : List String) (f : Frame) : (words spellings).holds f c =
      (TokenClass.words spellings).holds (.word "MATERIALIZED") := by
    rw [words, Test.holds, here]
  have noKeyword (k : Keyword) (f : Frame) : (keyword k).holds f c = false := by
    simp [keyword, Test.holds, TokenClass.holds, here]
  have goes : (word "MATERIALIZED").holds f c = true := by
    rw [word, Test.holds, here]
    decide
  rw [modifier, choose, read_no (noKeyword _ _), choose, read_no (by rw [spelled]; decide),
    choose, read_no (by rw [spelled]; decide), choose, read_no ?_, choose,
    read_no (noKeyword _ _), choose, read_yes goes, read_node rfl]
  · rfl
  · rw [word, Test.holds, here]
    decide

/-- A materialized view of a query. -/
theorem reads_viewAs (view : QualifiedName) (absent : ¬view.first.Means "IF")
    (begins : c.Passes (.keyword .CREATE :: .word "MATERIALIZED" :: .word "VIEW" ::
      view.lexemes ++ [.keyword .AS]) i)
    (queried : ∀ f, read call query f i = .ok (f.push s, d))
    (ends : d.Passes [.keyword .WITH, .word "DATA"] e) :
    ReadsNode call createRule (fun node => ∃ own kept name stored data, node = ⟨.createView, own, none,
      [⟨.materialized, kept, none, []⟩, .leaf .qualifiedName name (dotted view.lexemes),
        ⟨.asQuery, stored, none, [s]⟩, .leaf .withData data "WITH DATA"]⟩) c e := by
  obtain ⟨b, ⟨creates, more, keeps, more', makes, -, named⟩, as_, -, rfl⟩ :=
    Cursor.passes_append.mp begins
  have noDot : (TokenClass.symbols [.dot]).holds b.current.lexeme = false := by
    rw [as_]
    rfl
  obtain ⟨-, ⟨name, rfl⟩, readName⟩ := reads_qualifiedName call view.named view.rest named noDot
  obtain ⟨-, ⟨stored, rfl⟩, readQuery⟩ := reads_asQuery as_ queried
  obtain ⟨-, ⟨data, rfl⟩, readData⟩ := reads_withData ends
  let kept : Node := ⟨.materialized, ⟨c.advance.current.span.start,
    max c.advance.advance.previous.stop c.advance.current.span.start⟩, none, []⟩
  have modified : ∀ f, read call modifiers f c.advance =
      .ok ({ f with parts := [kept] ++ f.parts }, c.advance.advance) := by
    intro f
    have stops : startsModifier (.word "VIEW") = false := by decide
    have starts : startsModifier (.word "MATERIALIZED") = true := by decide
    rw [← makes] at stops
    rw [← keeps] at starts
    exact read_rounds (.round starts (read_materialized keeps f)
      (Cursor.advance_shorter more') (.done stops))
  obtain ⟨node, ⟨own, same⟩, reads⟩ := reads_created creates modified
    (read_object_view makes (read_createViewAs absent named as_ readName readQuery ends readData))
  exact ⟨node, ⟨own, _, name, stored, data, same⟩, reads⟩

end Grammar

namespace Script

open Grammar (Fails callRule rules query)

variable {d : Dialect} {text : String}

/-- A text of one statement that creates something. -/
theorem read_created {c e : Cursor} {P : Node → Prop} (here : c = .ofTokens (tokenize d text))
    (creates : c.current.lexeme = .keyword .CREATE)
    (reads : Grammar.ReadsNode (Grammar.callRule Grammar.rules c.rest) Grammar.createRule P c e)
    (last : e.current.lexeme = .finish) :
    (read d text).errors = [] ∧
      ∃ node, P node ∧ (read d text).root.children = [nameOptions text.toList node] := by
  obtain ⟨node, holds, reads⟩ := reads
  have starts : isTerminator c.current.lexeme = false := by rw [creates]; rfl
  have top : c.depth = 0 := here ▸ Cursor.depth_ofTokens _
  have zero : { c with depth := 0 } = c := by rw [← top]
  have one := statements_one (tokenize d text).length starts
    (zero ▸ readStatement_create creates (reads _)) last
  rw [here] at one
  constructor
  · rw [read, ofTokens, one]
  · refine ⟨node, holds, ?_⟩
    rw [read_children, ofTokens, one]
    rfl

/-- The language takes no notice of these words behind a query, but behind a call. -/
theorem follows_withNoData :
    Follows ⟨(Lexeme.keyword .WITH).outline, (Lexeme.word "NO").outline⟩ true :=
  .of_checks (by decide +kernel) (by decide +kernel) (by decide +kernel)

theorem follows_withData :
    Follows ⟨(Lexeme.keyword .WITH).outline, (Lexeme.word "DATA").outline⟩ true :=
  .of_checks (by decide +kernel) (by decide +kernel) (by decide +kernel)

variable {q : String} {s : Node}

/-- A statement that creates something of the query, whose text is around that of the query. -/
theorem read_around {a b : String} {first second : Lexeme} {lexemes others : List Lexeme}
    {P : Node → Prop} (isQuery : IsQuery d q s) (stays : ¬TakesEnd d q)
    (closed : ¬EndsInCall d q s) (opens : Lexer.Opens d a.toList (.keyword .CREATE :: lexemes))
    (spelled : (tokenize d b).map (·.lexeme) = first :: second :: others ++ [.finish])
    (follows : Follows ⟨first.outline, second.outline⟩ true)
    (reads : ∀ left c i d e, c.Passes (.keyword .CREATE :: lexemes) i →
      (∀ f, Grammar.read (callRule rules left) query f i =
        .ok (f.push (s.shift a.utf8ByteSize), d)) →
      d.Passes (first :: second :: others) e →
      Grammar.ReadsNode (callRule rules left) Grammar.createRule P c e) :
    (read d (a ++ q ++ "\n" ++ b)).errors = [] ∧ ∃ node, P node ∧
      (read d (a ++ q ++ "\n" ++ b)).root.children =
        [nameOptions (a ++ q ++ "\n" ++ b).toList node] := by
  obtain ⟨n, c, begins, tokens, stop⟩ := isQuery.between b opens
  rw [← lexemes_shift n] at spelled
  have enough := begins.length
  have queried := isQuery.placed stays follows (fun _ => closed) (Behind.begins_of_lexemes spelled)
    stop tokens (Nat.lt_of_lt_of_eq (Nat.lt_add_of_pos_right (Nat.succ_pos _)) enough.symm)
  rcases queried with ⟨e, left, -, queried⟩ | ⟨deep, -⟩
  · obtain ⟨b, ends, last⟩ := Cursor.exists_passes (left ▸ spelled)
    exact read_created rfl begins.1 (reads _ _ _ _ _ begins queried ends) (List.cons.inj last).1
  · rw [begins.depth, Cursor.depth_ofTokens] at deep
    exact absurd deep (Nat.lt_irrefl 0)

theorem table_stored (isQuery : IsQuery d q s) (stays : ¬TakesEnd d q)
    (closed : ¬EndsInCall d q s) : ∃ own name stored data,
      (read d ("CREATE TABLE t AS " ++ q ++ "\n" ++ "WITH NO DATA")).errors = [] ∧
      (read d ("CREATE TABLE t AS " ++ q ++ "\n" ++ "WITH NO DATA")).root.children =
        [⟨.createTable, own, none, [.leaf .qualifiedName name "t",
          ⟨.asQuery, stored, none, [s.shift 18]⟩, .leaf .withData data "WITH NO DATA"]⟩] := by
  have opens := Lexer.Opens.none (d := d)
    |>.spaced "AS" (by decide) (by decide)
    |>.spaced "t" (by decide) (by decide)
    |>.spaced "TABLE" (by decide) (by decide)
    |>.spaced "CREATE" (by decide) (by decide)
  let t : QualifiedName := ⟨.word "t", [], by decide, .nil⟩
  obtain ⟨errors, node, ⟨own, name, stored, data, same⟩, children⟩ :=
    read_around (a := "CREATE TABLE t AS ") (b := "WITH NO DATA") isQuery stays closed opens
      (by cases d <;> decide) follows_withNoData fun left c i d e begins queried ends =>
        Grammar.reads_tableAs t (by decide) begins queried ends
  refine ⟨own, name, stored, data, errors, ?_⟩
  rw [children, same, nameOptions_eq_self]
  · rfl
  · simp [Node.Every, Node.EveryOf, Node.leaf, isQuery.shift_optionless stays]

theorem view_stored (isQuery : IsQuery d q s) (stays : ¬TakesEnd d q)
    (closed : ¬EndsInCall d q s) : ∃ own kept name stored data,
      (read d ("CREATE MATERIALIZED VIEW v AS " ++ q ++ "\n" ++ "WITH DATA")).errors = [] ∧
      (read d ("CREATE MATERIALIZED VIEW v AS " ++ q ++ "\n" ++ "WITH DATA")).root.children =
        [⟨.createView, own, none, [⟨.materialized, kept, none, []⟩, .leaf .qualifiedName name "v",
          ⟨.asQuery, stored, none, [s.shift 30]⟩, .leaf .withData data "WITH DATA"]⟩] := by
  have opens := Lexer.Opens.none (d := d)
    |>.spaced "AS" (by decide) (by decide)
    |>.spaced "v" (by decide) (by decide)
    |>.spaced "VIEW" (by decide) (by decide)
    |>.spaced "MATERIALIZED" (by decide) (by decide)
    |>.spaced "CREATE" (by decide) (by decide)
  let v : QualifiedName := ⟨.word "v", [], by decide, .nil⟩
  obtain ⟨errors, node, ⟨own, kept, name, stored, data, same⟩, children⟩ :=
    read_around (a := "CREATE MATERIALIZED VIEW v AS ") (b := "WITH DATA") isQuery stays closed opens
      (by cases d <;> decide) follows_withData fun left c i d e begins queried ends =>
        Grammar.reads_viewAs v (by decide) begins queried ends
  refine ⟨own, kept, name, stored, data, errors, ?_⟩
  rw [children, same, nameOptions_eq_self]
  · rfl
  · simp [Node.Every, Node.EveryOf, Node.leaf, isQuery.shift_optionless stays]

end Script

open Script (IsQuery TakesEnd EndsInCall)

/-- A query behind AS is read as it is by itself, and WITH DATA or WITH NO DATA behind it belongs to
the statement, if the query leaves its end and does not end in the call of a function among tables,
which would take the word WITH. -/
theorem queries_stored (d : Dialect) (q : String) (s : Node) (isQuery : IsQuery d q s)
    (stays : ¬TakesEnd d q) (closed : ¬EndsInCall d q s) :
    (∃ own name stored data,
      (Script.read d ("CREATE TABLE t AS " ++ q ++ "\nWITH NO DATA")).errors = [] ∧
      (Script.read d ("CREATE TABLE t AS " ++ q ++ "\nWITH NO DATA")).root.children =
        [⟨.createTable, own, none, [.leaf .qualifiedName name "t",
          ⟨.asQuery, stored, none, [s.shift 18]⟩, .leaf .withData data "WITH NO DATA"]⟩]) ∧
    ∃ own kept name stored data,
      (Script.read d ("CREATE MATERIALIZED VIEW v AS " ++ q ++ "\nWITH DATA")).errors = [] ∧
      (Script.read d ("CREATE MATERIALIZED VIEW v AS " ++ q ++ "\nWITH DATA")).root.children =
        [⟨.createView, own, none, [⟨.materialized, kept, none, []⟩, .leaf .qualifiedName name "v",
          ⟨.asQuery, stored, none, [s.shift 30]⟩, .leaf .withData data "WITH DATA"]⟩] := by
  have table := Script.table_stored isQuery stays closed
  have view := Script.view_stored isQuery stays closed
  rw [String.append_assoc] at table view
  exact ⟨table, view⟩

/-- A function with a name of its own, and a comment to the end of the line. -/
theorem fetched_query_stored :
    let q := "SELECT * FROM f() AS g ORDER BY 1 FETCH FIRST 1 ROW ONLY -- last"
    ∃ s, IsQuery .postgres q s ∧ ¬TakesEnd .postgres q ∧ ¬EndsInCall .postgres q s ∧
      ∃ own name stored data,
        (Script.read .postgres ("CREATE TABLE t AS " ++ q ++ "\nWITH NO DATA")).root.children =
          [⟨.createTable, own, none, [.leaf .qualifiedName name "t",
            ⟨.asQuery, stored, none, [s.shift 18]⟩, .leaf .withData data "WITH NO DATA"]⟩] := by
  intro q
  obtain ⟨s, isQuery⟩ := @IsQuery.of_kinds .postgres q (by decide +kernel)
  have stays : ¬TakesEnd .postgres q := by
    unfold TakesEnd
    decide +kernel
  have closed : ¬EndsInCall .postgres q s := fun ends => absurd ends.1 (by decide +kernel)
  obtain ⟨⟨own, name, stored, data, -, table⟩, -⟩ := queries_stored .postgres q s isQuery stays closed
  exact ⟨s, isQuery, stays, closed, own, name, stored, data, table⟩

/-- The call of a function takes the word WITH for its own, whatever follows it; and an order that
ends with USING takes what stands behind the query for its operator. -/
theorem call_takes_with :
    let q := "SELECT * FROM f()"
    let o := "SELECT 1 ORDER BY 1 USING"
    (∃ s, IsQuery .postgres q s) ∧ (∃ s, IsQuery .postgres o s) ∧
      (Script.read .postgres ("CREATE TABLE t AS " ++ q ++ "\nWITH NO DATA")).errors =
        [⟨.unexpected "ORDINALITY" "NO", ⟨41, 43⟩⟩] ∧
      (Script.read .postgres ("CREATE TABLE t AS " ++ o ++ "\nWITH NO DATA")).errors =
        [⟨.unexpected "; or end of input" "NO", ⟨49, 51⟩⟩] := by
  intro q o
  have call : ∃ s, IsQuery .postgres q s :=
    IsQuery.of_kinds (by decide +kernel)
  have order : ∃ s, IsQuery .postgres o s :=
    IsQuery.of_kinds (by decide +kernel)
  exact ⟨call, order, by decide +kernel, by decide +kernel⟩

end SqlAudit
