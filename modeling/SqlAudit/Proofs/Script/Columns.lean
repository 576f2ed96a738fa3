import SqlAudit.Proofs.Grammar.Constraints
import SqlAudit.Proofs.Script.Precedence
/-!
Tables of one column, with constraints on it in any order. The text is always read, and each constraint
keeps its place in the tree unless it is a collation right behind a default.
-/
namespace SqlAudit

/-- A column whose type is one word. -/
structure ConstrainedColumn where
  name : Lexeme
  type : Lexeme
  constraints : List ColumnConstraint
  named : name.IsName
  certain : ¬name.Means "EXCLUDE"
  typed : type.IsName
  single : Spelling.lowered.of type ∉ ["double", "national"]

namespace ConstrainedColumn

def lexemes (column : ConstrainedColumn) : List Lexeme :=
  column.name :: column.type :: column.constraints.flatMap (·.lexemes)

/-- The node of a column with these constraints, without its place. -/
def nodeWith (column : ConstrainedColumn) (constraints : List Node) : Node :=
  ⟨.columnDef, ⟨0, 0⟩, some (Spelling.lowered.of column.name),
    .leaf .dataType ⟨0, 0⟩ (Spelling.lowered.of column.type) :: constraints⟩

def node (column : ConstrainedColumn) : Node :=
  column.nodeWith (ColumnConstraint.nodes false column.constraints)

end ConstrainedColumn

namespace ColumnConstraint

variable {ks : List ColumnConstraint}

theorem leading_eq_nil (free : ∀ k ∈ ks.head?, k.collation? = none) : leading ks = [] := by
  cases ks with
  | nil => rfl
  | cons k ks => rw [leading, free k rfl]

theorem nodes_length (taken : Bool) (ks : List ColumnConstraint) :
    (nodes taken ks).length ≤ ks.length := by
  induction ks generalizing taken with
  | nil => exact Nat.le_refl 0
  | cons k ks ih =>
      rw [nodes]
      split
      · exact Nat.le_succ_of_le (ih true)
      · exact Nat.succ_le_succ (ih _)

theorem apart_cons {k : ColumnConstraint} : Apart (k :: ks) ↔
    (k.rule.isDefault = true → ∀ next ∈ ks.head?, next.collation? = none) ∧ Apart ks := by
  cases ks with
  | nil => simp [Apart]
  | cons next ks => simp [Apart]

/-- A constraint is lost where a collation is taken, and only there. -/
theorem nodes_eq_iff (taken : Bool) (ks : List ColumnConstraint) :
    nodes taken ks = ks.map node ↔
      (taken = true → ∀ k ∈ ks.head?, k.collation? = none) ∧ Apart ks := by
  induction ks generalizing taken with
  | nil => simp [nodes, Apart]
  | cons k ks ih =>
      rw [nodes, apart_cons]
      by_cases lost : taken = true ∧ k.collation?.isSome = true
      · have fewer := nodes_length true ks
        rw [if_pos (by simp [lost])]
        constructor
        · intro same
          have length := congrArg List.length same
          simp only [List.map_cons, List.length_cons, List.length_map] at length
          omega
        · rintro ⟨free, -⟩
          have none := free lost.1 k rfl
          simp [none] at lost
      · rw [if_neg (by simpa using lost), List.map_cons, List.cons.injEq, ih]
        have first : (taken = true → ∀ other ∈ (k :: ks).head?, other.collation? = none) := by
          rintro rfl other same
          obtain rfl := Option.some.inj same
          simpa using lost
        constructor
        · rintro ⟨-, apart⟩
          exact ⟨first, apart⟩
        · rintro ⟨-, free, apart⟩
          refine ⟨?_, free, apart⟩
          split
          · rw [leading_eq_nil (free ‹_›), node]
          · rfl

end ColumnConstraint

namespace Grammar

variable {call : Nonterminal → Frame → Cursor → Reading} {f : Frame} {c d : Cursor}
  {left : List Token}

/-- Where no part of a type follows, the words of its name end with the first one. -/
theorem read_singleWord {text : String} (unnamed : f.value = none)
    (single : text ∉ ["double", "national"]) (ends : 0 < c.current.lexeme.typePart) :
    read call typeWords (f.write text) c = .ok (f.write text, c) := by
  have other := not_typePart ends rfl
  have noVarying : (word "VARYING").holds (f.write text) c = false :=
    other (.words ["VARYING"]) (by decide)
  have noDot : (symbol .dot).holds (f.write text) c = false := other (.symbols [.dot]) (by decide)
  simp only [List.mem_cons, List.not_mem_nil, or_false, not_or] at single
  rw [typeWords]
  simp only [choose]
  rw [read_no (by simp [valueIn_write unnamed, single]),
    read_no (by simp [valueIn_write unnamed, single])]
  by_cases characters : text ∈ ["character", "char", "bit"]
  · rw [read_yes (by simpa [valueIn_write unnamed] using characters), read_absent noVarying]
  · rw [read_no (by simpa [valueIn_write unnamed] using characters)]
    by_cases times : text ∈ ["timestamp", "time"]
    · rw [read_yes (by simpa [valueIn_write unnamed] using times), read]
    · rw [read_no (by simpa [valueIn_write unnamed] using times), read_loop_none noDot]

variable (call) in
/-- A type of one word stands alone where no part of a type follows. -/
theorem reads_wordType (named : c.current.lexeme.IsName)
    (single : Spelling.lowered.of c.current.lexeme ∉ ["double", "national"])
    (ends : 4 < c.advance.current.lexeme.typePart) :
    ReadsNode call dataType (IsLeafOf .dataType (Spelling.lowered.of c.current.lexeme))
      c c.advance := by
  let g := (Frame.opened (some .dataType) c).write (Spelling.lowered.of c.current.lexeme)
  have name : read call (.branch anyName (takeAs .lowered) (.fail "data type") ++ typeWords)
      (.opened (some .dataType) c) c = .ok (g, c.advance) := by
    rw [read_append (read_lowered named), read_singleWord rfl single (by omega)]
  have noLengths : (symbol .openParen).holds g c.advance = false :=
    not_typePart (show 1 < _ by omega) rfl (.symbols [.openParen]) (by decide)
  have noZone : read call timeZone g c.advance = .ok (g, c.advance) := read_noZone (by omega)
  have noDimensions : (symbol .openBracket ||| word "ARRAY").holds g c.advance = false :=
    Bool.or_eq_false_iff.mpr
      ⟨not_typePart ends rfl (.symbols [.openBracket]) (by decide),
        not_typePart ends rfl (.words ["ARRAY"]) (by decide)⟩
  have whole : read call (.branch anyName (takeAs .lowered) (.fail "data type") ++ typeWords ++
      whenever (symbol .openParen) group ++ whenever (.valueIn ["timestamp", "time"]) timeZone ++
      whenever (.valueIn ["interval"]) intervalFields ++ dimensions) (.opened (some .dataType) c) c =
        .ok (g, c.advance) :=
    read_then (read_then (read_then (read_then name (read_absent noLengths))
      (read_whenever_nothing _ noZone)) (read_noFields (by omega))) (read_loop_none noDimensions)
  exact ⟨_, ⟨_, rfl⟩, fun _ => read_node whole⟩

theorem typePart_constraintEnd (ends : c.current.lexeme ∈ constraintEnds) :
    4 < c.current.lexeme.typePart := by
  have all : (constraintEnds.all fun lexeme => decide (4 < lexeme.typePart)) = true := by decide
  simpa using List.all_eq_true.mp all _ ends

variable {column : ConstrainedColumn} {table : QualifiedName} {size : Nat}

theorem reads_column (passes : c.Passes column.lexemes d)
    (closes : d.current.lexeme = .symbol .closeParen) (last : d.rest ≠ []) (ordered : c.Ordered size)
    (top : c.depth = 0) (enough : c.rest.length < left.length) :
    ReadsNode (callRule rules left) tableElement (fun node => node.unplaced = column.node) c d := by
  obtain ⟨here, more, next, more', constraints⟩ := passes
  have named := column.named
  have certain := column.certain
  have typed := column.typed
  have single := column.single
  rw [← here] at named certain
  rw [← next] at typed single
  have shorter := Cursor.advance_shorter more
  have shorter' := Cursor.advance_shorter more'
  obtain ⟨start, ⟨own, same, rounds⟩, -⟩ := reads_constraints constraints closes last
    ordered.advance.advance (by rw [Cursor.advance_depth, Cursor.advance_depth, top])
    (Nat.lt_trans shorter' (Nat.lt_trans shorter enough))
  obtain ⟨type, ⟨place, rfl⟩, readType⟩ := reads_wordType (callRule rules left) typed single
    (typePart_constraintEnd start.ends)
  have parts := read_then (read_then (read_name (f := .opened (some .columnDef) c) named)
    (readType _)) (read_rounds (rounds _))
  have noLike : ∀ f, (keyword .LIKE).holds f c = false := fun _ => named.not_keywords [.LIKE]
  have noConstraint : ∀ f, startsTableConstraint.holds f c = false := fun _ =>
    Bool.or_eq_false_iff.mpr ⟨named.not_keywords _, Bool.eq_false_iff.mpr certain⟩
  refine ⟨⟨.columnDef, ⟨c.current.span.start, max d.previous.stop c.current.span.start⟩,
    some (Spelling.lowered.of c.current.lexeme),
    .leaf .dataType place (Spelling.lowered.of c.advance.current.lexeme) :: own⟩, ?_, fun f => ?_⟩
  · simp [Node.leaf, Node.unplaced, Node.unplacedAll, same, here, next, ConstrainedColumn.node,
      ConstrainedColumn.nodeWith]
  · rw [tableElement, choose, read_no (noLike f), choose, read_no (noConstraint f), choose,
      columnDef, read_node parts]
    simp [Frame.close, Frame.opened, Frame.write, Frame.push]

/-- The only column of a table, in parentheses. -/
theorem reads_onlyColumn (opens : c.current.lexeme = .symbol .openParen) (more : c.rest ≠ [])
    (passes : c.advance.Passes column.lexemes d) (closes : d.current.lexeme = .symbol .closeParen)
    (last : d.rest ≠ []) (ordered : c.Ordered size) (top : c.depth = 0)
    (enough : c.rest.length < left.length) :
    ReadsNode (callRule rules left) tableElements (fun node => node.unplaced = column.node)
      c d.advance := by
  have shorter := Cursor.advance_shorter more
  obtain ⟨node, same, reads⟩ := reads_column passes closes last ordered.advance
    (by rw [Cursor.advance_depth, top]) (Nat.lt_trans shorter enough)
  have opened : ∀ f, read (callRule rules left) (expectSymbol .openParen) f c =
      .ok (f, c.advance) := by
    simp [expectSymbol, expect, read, symbol, Test.holds, TokenClass.holds, opens]
  have closed : ∀ f, read (callRule rules left) (expectSymbol .closeParen) f d =
      .ok (f, d.advance) := by
    simp [expectSymbol, expect, read, symbol, Test.holds, TokenClass.holds, closes]
  have some : ∀ f, (symbol .closeParen).holds f c.advance = false := by
    intro f
    have named := column.named
    rw [← passes.1] at named
    exact named.not_symbols [.closeParen]
  have single : ∀ f, (symbol .comma).holds f d = false := by
    simp [symbol, Test.holds, TokenClass.holds, closes]
  have elements (f : Frame) : read (callRule rules left)
      (unlessIs (symbol .closeParen) (commaList tableElement)) f c.advance =
        .ok (f.push node, d) := by
    rw [unlessIs, read_no (some f), commaList, read_append (reads f), read_loop_none (single _)]
  exact ⟨node, same, fun f => read_then (read_then (opened f) (elements f)) (closed _)⟩

/-- What follows the word TABLE, when the elements end the statement. -/
theorem read_createTable {i : Cursor} {name elements : Node} (absent : ¬table.first.Means "IF")
    (named : c.advance.Passes table.lexemes i) (opens : i.current.lexeme = .symbol .openParen)
    (readName : ∀ f, read call qualifiedName f c.advance = .ok (f.push name, i))
    (readElements : ∀ f, read call tableElements f i = .ok (f.push elements, d))
    (last : d.current.lexeme = .finish) (f : Frame) :
    read call createTable f c = .ok ((f.push name).push elements, d) := by
  have exists_ : ∀ f, (word "IF").holds f c.advance = false := by
    intro f
    rw [← named.1] at absent
    exact Bool.eq_false_iff.mpr absent
  have noType : ∀ f, (word "OF").holds f i = false := by
    simp [word, Test.holds, TokenClass.holds, opens]
  have noParent : ∀ f, (word "PARTITION").holds f i = false := by
    simp [word, Test.holds, TokenClass.holds, opens]
  have noOptions : ∀ f, read call tableOptions f d = .ok (f, d) := fun f =>
    read_loop_none (by
      simp [words, keyword, startsStorageParameters, startsOnCommit, Test.holds, TokenClass.holds,
        last])
  have noQuery : ∀ f, (keyword .AS).holds f d = false := by
    simp [keyword, Test.holds, TokenClass.holds, last]
  have starts : ∀ f, (symbol .openParen ||| word "OF" |||
      (word "PARTITION" &&& nextWord "OF")).holds f i = true := by
    simp [symbol, Test.holds, TokenClass.holds, opens]
  refine read_then (read_then (read_then rfl (read_absent (exists_ f))) (readName f)) ?_
  rw [read_yes (starts _)]
  refine read_then (read_then ?_ (noOptions _)) (read_absent (noQuery _))
  rw [choose, read_no (noType _), choose, read_no (noParent _), choose, readElements]

/-- The lexemes of a statement that makes a table of one column. -/
def tableText (table : QualifiedName) (column : ConstrainedColumn) : List Lexeme :=
  .keyword .CREATE :: .keyword .TABLE :: table.lexemes ++
    .symbol .openParen :: column.lexemes ++ [.symbol .closeParen]

/-- The node of a table of one column, without its place. -/
def tableOf (table : QualifiedName) (column : Node) : Node :=
  ⟨.createTable, ⟨0, 0⟩, none, [table.node, column]⟩

theorem reads_tableOfColumn (absent : ¬table.first.Means "IF")
    (passes : c.Passes (tableText table column) d) (last : d.current.lexeme = .finish)
    (ordered : c.Ordered size) (top : c.depth = 0) (enough : c.rest.length ≤ left.length) :
    ReadsNode (callRule rules left) createRule
      (fun node => node.unplaced = tableOf table column.node) c d := by
  obtain ⟨e, before, closes, beyond, rfl⟩ := Cursor.passes_append.mp passes
  obtain ⟨i, ⟨creates, more, makes, more', named⟩, opens, more'', element⟩ :=
    Cursor.passes_append.mp before
  have shorter := Cursor.advance_shorter more
  have shorter' := Cursor.advance_shorter more'
  have onward := named.length
  have noDot : (TokenClass.symbols [.dot]).holds i.current.lexeme = false := by
    rw [opens]
    rfl
  obtain ⟨own, ⟨place, spelled⟩, readName⟩ :=
    reads_qualifiedName (callRule rules left) table.named table.rest named noDot
  have within : i.rest.length < left.length := by omega
  obtain ⟨node, same, readElements⟩ := reads_onlyColumn opens more'' element closes beyond
    (named.ordered ordered.advance.advance)
    (by rw [named.depth, Cursor.advance_depth, Cursor.advance_depth, top]) within
  have creation := read_createTable absent named opens readName readElements last
  have first : ∀ f, read (callRule rules left) (expectKeyword .CREATE) f c =
      .ok (f, c.advance) := by
    simp [expectKeyword, expect, read, keyword, Test.holds, TokenClass.holds, creates]
  have unmodified : ∀ f, read (callRule rules left) modifiers f c.advance = .ok (f, c.advance) :=
    fun f => read_loop_none (by simp [keywords, words, Test.holds, TokenClass.holds, makes])
  have isTable : ∀ f, (keyword .TABLE).holds f c.advance = true := by
    simp [keyword, Test.holds, TokenClass.holds, makes]
  have made (f : Frame) : read (callRule rules left) (.become .createTable ++ createTable) f
      c.advance = .ok (({ f with kind := some .createTable }.push own).push node, e.advance) :=
    read_then rfl (creation _)
  have whole : read (callRule rules left) (expectKeyword .CREATE ++ modifiers ++ choose [
      (keyword .TABLE, .become .createTable ++ createTable),
      (word "INDEX", .become .createIndex ++ createIndex),
      (word "SCHEMA", .become .createSchema ++ createSchema),
      (word "EXTENSION", .become .createExtension ++ createExtension),
      (word "SEQUENCE", .become .createSequence ++ createSequence),
      (word "VIEW", .become .createView ++ createView),
      (words ["FUNCTION", "PROCEDURE"], .become .createFunction ++ createRoutine)] otherObject)
      (.opened (some .otherStatement) c) c = .ok (⟨some .createTable, c.current.span.start, none,
        [node, own]⟩, e.advance) := by
    refine read_then (read_then (first _) (unmodified _)) ?_
    rw [choose, read_yes (isTable _), made]
    rfl
  refine ⟨⟨.createTable, ⟨c.current.span.start, max e.advance.previous.stop c.current.span.start⟩,
    none, [own, node]⟩, ?_, fun f => ?_⟩
  · simp [Node.unplaced, Node.unplacedAll, Node.leaf, same, spelled, tableOf, QualifiedName.node,
      QualifiedName.lexemes]
  · rw [createRule, read_node whole]
    rfl

end Grammar

theorem Script.readStatement_create {c d : Cursor} {node : Node}
    (here : c.current.lexeme = .keyword .CREATE)
    (creation : Grammar.read (Grammar.callRule Grammar.rules c.rest) Grammar.createRule
      (.opened none c) c = .ok ((Frame.opened none c).push node, d)) :
    readStatement c = .ok (node, d) := by
  have statement : Grammar.read (Grammar.callRule Grammar.rules c.tokens) Grammar.statement
      (.opened none c) c = .ok ((Frame.opened none c).push node, d) := by
    simpa [Grammar.statement, Grammar.choose, Grammar.read, Grammar.startsQuery, Grammar.keyword,
      Grammar.keywords, Grammar.symbol, Test.holds, TokenClass.holds, here, Cursor.tokens,
      Grammar.callRule, Grammar.rules] using creation
  rw [readStatement, Grammar.run, statement]
  rfl

/-- A table of one column is read with each of the column's constraints, in any order, but for a
collation right behind a default, which becomes part of that. -/
theorem column_constraints (d : Dialect) (text : String) (table : QualifiedName)
    (absent : ¬table.first.Means "IF") (column : ConstrainedColumn)
    (tokens : (tokenize d text).map (·.lexeme) = Grammar.tableText table column ++ [.finish]) :
    (Script.read d text).errors = [] ∧
    (Script.read d text).root.unplaced = ⟨.script, ⟨0, 0⟩, none,
      [Grammar.tableOf table
        (column.nodeWith (ColumnConstraint.nodes false column.constraints))]⟩ ∧
    (ColumnConstraint.nodes false column.constraints =
        column.constraints.map ColumnConstraint.node ↔
      ColumnConstraint.Apart column.constraints) := by
  let c := Cursor.ofTokens (tokenize d text)
  have spelled : c.tokens.map (·.lexeme) = Grammar.tableText table column ++ .finish :: [] := by
    rw [Script.tokens_ofTokens (tokenize_inOrder d text).ne_nil, tokens]
  obtain ⟨e, passes, left⟩ := Cursor.exists_passes spelled
  have last : e.current.lexeme = .finish := (List.cons.inj left).1
  have top : c.depth = 0 := Cursor.depth_ofTokens _
  have creates : c.current.lexeme = .keyword .CREATE := passes.1
  have starts : Script.isTerminator c.current.lexeme = false := by rw [creates]; rfl
  have zero : { c with depth := 0 } = c := by rw [← top]
  have enough : c.rest.length ≤ c.rest.length := Nat.le_refl _
  obtain ⟨node, tree, reads⟩ := Grammar.reads_tableOfColumn absent passes last
    (Script.ofTokens_ordered (tokenize_inOrder d text)) top enough
  have one := Script.statements_one (tokenize d text).length starts
    (zero ▸ Script.readStatement_create creates (reads _)) last
  refine ⟨?_, ?_, by simp [ColumnConstraint.nodes_eq_iff]⟩
  · rw [Script.read, Script.ofTokens, one]
  · rw [Script.read, Script.unplaced_nameOptions, Script.ofTokens, one, Node.unplaced,
      Node.unplacedAll, Node.unplacedAll, tree]
    rfl

theorem isEnclosed_positive : Grammar.IsEnclosed [.word "c", .symbol .greater, .number "0"]
    ⟨.binaryExpr, ⟨0, 0⟩, some ">",
      [⟨.columnRef, ⟨0, 0⟩, some "c", []⟩, .leaf .literal ⟨0, 0⟩ "0"]⟩ :=
  ⟨_, _, rfl, rfl, rfl⟩

/-- A collation keeps its place behind a condition. -/
theorem collation_behind_check :
    let name : QualifiedName := ⟨.word "t", [], by decide, .nil⟩
    let ks : List ColumnConstraint := [⟨none, .default (.number "1") (by decide)⟩,
      ⟨none, .notNull⟩, ⟨some ⟨.word "k", by decide⟩, .check _ _ isEnclosed_positive⟩,
      ⟨none, .collate name⟩]
    let column : ConstrainedColumn :=
      ⟨.word "C", .word "int", ks, by decide, by decide +kernel, by decide, by decide +kernel⟩
    let text := "CREATE TABLE t (C int DEFAULT 1 NOT NULL CONSTRAINT k CHECK (c > 0) COLLATE t)"
    ¬name.first.Means "IF" ∧
      (tokenize .postgres text).map (·.lexeme) = Grammar.tableText name column ++ [.finish] ∧
      (Script.read .postgres text).errors = [] ∧
      (Script.read .postgres text).root.unplaced = ⟨.script, ⟨0, 0⟩, none,
        [Grammar.tableOf name (column.nodeWith (ks.map ColumnConstraint.node))]⟩ := by
  intro name ks column text
  have absent : ¬name.first.Means "IF" := by decide +kernel
  have tokens : (tokenize .postgres text).map (·.lexeme) =
      Grammar.tableText name column ++ [.finish] := by
    decide +kernel
  obtain ⟨errors, tree, apart⟩ := column_constraints .postgres text name absent column tokens
  have each : ColumnConstraint.Apart ks := by
    simp [ColumnConstraint.Apart, ks, ColumnConstraint.collation?, ConstraintRule.isDefault]
  exact ⟨absent, tokens, errors, apart.mpr each ▸ tree⟩

/-- A collation right behind a default is read as part of that. -/
theorem collation_behind_default :
    let name : QualifiedName := ⟨.word "x", [], by decide, .nil⟩
    let ks : List ColumnConstraint :=
      [⟨none, .default (.number "1") (by decide)⟩, ⟨none, .collate name⟩, ⟨none, .null⟩]
    let column : ConstrainedColumn :=
      ⟨.word "c", .word "int", ks, by decide, by decide +kernel, by decide, by decide +kernel⟩
    let text := "CREATE TABLE x (c int DEFAULT 1 COLLATE x NULL)"
    (tokenize .postgres text).map (·.lexeme) = Grammar.tableText name column ++ [.finish] ∧
      (Script.read .postgres text).root.unplaced = ⟨.script, ⟨0, 0⟩, none,
        [Grammar.tableOf name (column.nodeWith
          [⟨.columnConstraint, ⟨0, 0⟩, some "DEFAULT", [⟨.collate, ⟨0, 0⟩, none,
              [.leaf .literal ⟨0, 0⟩ "1", .leaf .qualifiedName ⟨0, 0⟩ "x"]⟩]⟩,
            .leaf .columnConstraint ⟨0, 0⟩ "NULL"])]⟩ :=
  ⟨by decide +kernel, rfl⟩

end SqlAudit
