import Mathlib.Data.List.Chain
import SqlAudit.Proofs.Grammar.Enclosed
import SqlAudit.Proofs.Grammar.Types
/-!
Constraints on columns. Each of them ends where the next one starts, whichever that is, but for one
pair: a default is an expression, and an expression goes on with the collation of an unnamed
constraint behind it.
-/
namespace SqlAudit

/-- What can follow a constraint on a column: a further one, or the end of the columns. -/
def constraintEnds : List Lexeme :=
  .symbol .closeParen :: [Keyword.CONSTRAINT, .NOT, .NULL, .DEFAULT, .PRIMARY, .UNIQUE, .CHECK,
    .REFERENCES, .COLLATE].map .keyword

namespace Lexeme

/-- A literal without a type in front of it. -/
def IsLiteral (lexeme : Lexeme) : Prop :=
  (TokenClass.number.holds lexeme || TokenClass.string.holds lexeme ||
    TokenClass.bits.holds lexeme || (TokenClass.keywords [.TRUE, .FALSE, .NULL]).holds lexeme) = true

instance (lexeme : Lexeme) : Decidable lexeme.IsLiteral := inferInstanceAs (Decidable (_ = true))

/-- The node of a literal, without its place. -/
def literalNode (lexeme : Lexeme) : Node :=
  .leaf .literal ⟨0, 0⟩ (Spelling.capitals.of lexeme)

end Lexeme

/-- What a constraint says of its column. -/
inductive ConstraintRule where
  | notNull
  | null
  | default (literal : Lexeme) (isLiteral : literal.IsLiteral)
  | primaryKey (key : Lexeme) (means : key.Means "KEY")
  | unique
  | check (condition : List Lexeme) (node : Node) (enclosed : Grammar.IsEnclosed condition node)
  | references (table : QualifiedName)
  | collate (collation : QualifiedName)

namespace ConstraintRule

def lexemes : ConstraintRule → List Lexeme
  | notNull => [.keyword .NOT, .keyword .NULL]
  | null => [.keyword .NULL]
  | default literal _ => [.keyword .DEFAULT, literal]
  | primaryKey key _ => [.keyword .PRIMARY, key]
  | unique => [.keyword .UNIQUE]
  | check condition _ _ =>
    .keyword .CHECK :: .symbol .openParen :: condition ++ [.symbol .closeParen]
  | references table => .keyword .REFERENCES :: table.lexemes
  | collate collation => .keyword .COLLATE :: collation.lexemes

def value : ConstraintRule → String
  | notNull => "NOT NULL"
  | null => "NULL"
  | default _ _ => "DEFAULT"
  | primaryKey _ _ => "PRIMARY KEY"
  | unique => "UNIQUE"
  | check _ _ _ => "CHECK"
  | references _ => "REFERENCES"
  | collate _ => "COLLATE"

def isDefault : ConstraintRule → Bool
  | default _ _ => true
  | _ => false

/-- An expression and the collations behind it, without their places. -/
def collated : Node → List QualifiedName → Node
  | node, [] => node
  | node, collation :: rest => collated ⟨.collate, ⟨0, 0⟩, none, [node, collation.node]⟩ rest

/-- The parts of a constraint, without their places, when these collations go to its expression. -/
def parts (collations : List QualifiedName) : ConstraintRule → List Node
  | default literal _ => [collated literal.literalNode collations]
  | check _ node _ => [node]
  | references table => [⟨.references, ⟨0, 0⟩, none, [table.node]⟩]
  | collate collation => [collation.node]
  | notNull | null | primaryKey _ _ | unique => []

end ConstraintRule

/-- A constraint on a column, perhaps with a name of its own. -/
structure ColumnConstraint where
  name? : Option { lexeme : Lexeme // lexeme.IsName }
  rule : ConstraintRule

namespace ColumnConstraint

def naming (k : ColumnConstraint) : List Lexeme :=
  match k.name? with
  | some name => [.keyword .CONSTRAINT, name.val]
  | none => []

def lexemes (k : ColumnConstraint) : List Lexeme := k.naming ++ k.rule.lexemes

/-- The node of the name, without its place. -/
def nameNodes (k : ColumnConstraint) : List Node :=
  match k.name? with
  | some name => [.leaf .identifier ⟨0, 0⟩ (Spelling.lowered.of name.val)]
  | none => []

/-- The node of a constraint, without its place, when these collations go to its expression. -/
def nodeWith (collations : List QualifiedName) (k : ColumnConstraint) : Node :=
  ⟨.columnConstraint, ⟨0, 0⟩, some k.rule.value, k.nameNodes ++ k.rule.parts collations⟩

def node (k : ColumnConstraint) : Node := k.nodeWith []

/-- The collation of a constraint without a name of its own. -/
def collation? (k : ColumnConstraint) : Option QualifiedName :=
  match k.name?, k.rule with
  | none, .collate collation => some collation
  | _, _ => none

/-- The collations that constraints start with. -/
def leading : List ColumnConstraint → List QualifiedName
  | [] => []
  | k :: ks =>
    match k.collation? with
    | some collation => collation :: leading ks
    | none => []

/-- The nodes that constraints are read as, behind a default if `taken`: that has taken the
collations they start with. -/
def nodes (taken : Bool) : List ColumnConstraint → List Node
  | [] => []
  | k :: ks =>
    if taken && k.collation?.isSome then nodes true ks
    else k.nodeWith (if k.rule.isDefault then leading ks else []) :: nodes k.rule.isDefault ks

/-- No default has a collation without a name of its own right behind it. -/
def Apart (ks : List ColumnConstraint) : Prop :=
  ks.IsChain fun k next => ¬(k.rule.isDefault = true ∧ next.collation?.isSome = true)

end ColumnConstraint

theorem ConstraintRule.starts (rule : ConstraintRule) : ∃ (k : Keyword) (others : List Lexeme),
    rule.lexemes = .keyword k :: others ∧ k ≠ .CONSTRAINT ∧ .keyword k ∈ constraintEnds := by
  cases rule <;> exact ⟨_, _, rfl, by decide, by decide⟩

variable {lexeme : Lexeme}

theorem not_constraintEnd (member : lexeme ∈ constraintEnds) {tokens : TokenClass}
    (none : constraintEnds.all (fun other => !tokens.holds other) = true) :
    tokens.holds lexeme = false := by
  simpa using List.all_eq_true.mp none lexeme member

namespace Grammar

variable {call : Nonterminal → Frame → Cursor → Reading} {f g : Frame} {c d : Cursor}
  {left : List Token} {power : Nat}

/-- The cursor stands where a constraint has ended. -/
structure AfterConstraint (c : Cursor) : Prop where
  ends : c.current.lexeme ∈ constraintEnds
  more : c.rest ≠ []
  denies : c.current.lexeme = .keyword .NOT → c.advance.current.lexeme = .keyword .NULL

namespace AfterConstraint

variable (after : AfterConstraint d)

include after

theorem overlooks : Overlooks ⟨.symbol .closeParen, .finish⟩
    ⟨.symbol .closeParen, d.current.lexeme.outline⟩ false := by
  have all : ∀ next ∈ constraintEnds, [.expression 0, .query, .joinedTable, .group].all
      (Grammar.overlooks ⟨.symbol .closeParen, .finish⟩ ⟨.symbol .closeParen, next.outline⟩
        false) = true := by
    simp only [constraintEnds, List.map_cons, List.map_nil, List.forall_mem_cons]
    refine ⟨?_, ?_, ?_, ?_, ?_, ?_, ?_, ?_, ?_, ?_, nofun⟩ <;> decide +kernel
  exact overlooks_of (all _ after.ends)

/-- The attributes of a constraint start with a word, or with NOT in front of one. -/
theorem noAttributes : read call constraintAttributes f d = .ok (f, d) := by
  have words : (TokenClass.words ["DEFERRABLE", "INITIALLY"]).holds d.current.lexeme = false :=
    not_constraintEnd after.ends (by decide)
  have denied : (keyword .NOT &&& Test.next (.words ["DEFERRABLE", "VALID"])).holds f d =
      false := by
    by_cases not : d.current.lexeme = .keyword .NOT
    · have next := after.denies not
      rw [Cursor.advance_current] at next
      simp [Test.holds, next, TokenClass.holds]
    · have other : (TokenClass.keywords [.NOT]).holds d.current.lexeme = false := by
        have ends := after.ends
        cases lexeme : d.current.lexeme <;> simp_all [TokenClass.holds]
      simp [keyword, Test.holds, other]
  have stops : (Grammar.words ["DEFERRABLE", "INITIALLY"] |||
      (keyword .NOT &&& Test.next (.words ["DEFERRABLE", "VALID"]))).holds f d = false :=
    Bool.or_eq_false_iff.mpr ⟨words, denied⟩
  rw [constraintAttributes, read_loop_none stops]

theorem not_here (tokens : TokenClass)
    (none : constraintEnds.all (fun other => !tokens.holds other) = true) (f : Frame) :
    (Test.here tokens).holds f d = false :=
  not_constraintEnd after.ends none

theorem noParameters : read call indexParameters f d = .ok (f, d) := by
  have noInclude := after.not_here (.words ["INCLUDE"]) (by decide) f
  have noStorage : startsStorageParameters.holds f d = false :=
    Bool.and_eq_false_iff.mpr (.inl (after.not_here (.keywords [.WITH]) (by decide) f))
  have noTablespace : (keyword .USING &&& nextWord "INDEX").holds f d = false :=
    Bool.and_eq_false_iff.mpr (.inl (after.not_here (.keywords [.USING]) (by decide) f))
  exact read_then (read_then (read_absent noInclude) (read_absent noStorage))
    (read_absent noTablespace)

/-- No expression goes on here but with a collation. -/
theorem not_continues (uncollated : d.current.lexeme ≠ .keyword .COLLATE) :
    (continues 0).holds f d = false := by
  have ends := after.ends
  have denies := after.denies
  rw [Cursor.advance_current] at denies
  simp only [constraintEnds, List.map_cons, List.map_nil, List.mem_cons, List.not_mem_nil,
    or_false] at ends
  rcases ends with here | here | here | here | here | here | here | here | here | here <;>
    simp_all [continues, symbols, keyword, nextKeywords, nextWord, Test.holds, TokenClass.holds,
      Lexeme.infixPower?, Symbol.infixPower?, Keyword.infixPower?]

end AfterConstraint

variable (call) in
theorem reads_name (q : QualifiedName) (passes : c.Passes q.lexemes d)
    (ends : d.current.lexeme ∈ constraintEnds) :
    ReadsNode call qualifiedName (fun node => node.unplaced = q.node) c d := by
  have dot : (TokenClass.symbols [.dot]).holds d.current.lexeme = false :=
    not_constraintEnd ends (by decide)
  obtain ⟨node, ⟨span, rfl⟩, reads⟩ := reads_qualifiedName call q.named q.rest passes dot
  exact ⟨_, rfl, reads⟩

/-- The lexemes of collations one behind the other. -/
def collationLexemes (collations : List QualifiedName) : List Lexeme :=
  collations.flatMap fun collation => .keyword .COLLATE :: collation.lexemes

theorem collation_start {collations : List QualifiedName} (ends : d.current.lexeme ∈ constraintEnds)
    (passes : c.Passes (collationLexemes collations) d) : c.current.lexeme ∈ constraintEnds := by
  cases collations with
  | nil =>
      cases passes
      exact ends
  | cons collation rest =>
      have here : c.current.lexeme = .keyword .COLLATE := passes.1
      rw [here]
      decide

theorem collation_rounds (collations : List QualifiedName) (after : AfterConstraint d)
    (uncollated : d.current.lexeme ≠ .keyword .COLLATE)
    (passes : c.Passes (collationLexemes collations) d) (node : Node) :
    ∃ last : Node, last.unplaced = ConstraintRule.collated node.unplaced collations ∧
      ∀ f : Frame, Rounds call (continues 0) operatorTail (f.push node) c (f.push last) d := by
  induction collations generalizing c node with
  | nil =>
      cases passes
      exact ⟨node, rfl, fun f => .done (after.not_continues uncollated)⟩
  | cons collation rest ih =>
      obtain ⟨e, ⟨here, more, name⟩, further⟩ := Cursor.passes_append.mp passes
      obtain ⟨own, same, reads⟩ := reads_name call collation name (collation_start after.ends further)
      have inner : read call (.take ++ qualifiedName)
          ⟨some .collate, node.span.start, none, [node]⟩ c =
            .ok (⟨some .collate, node.span.start, none, [own, node]⟩, e) := by
        rw [read_append (by rw [read]), reads]
        rfl
      obtain ⟨last, tree, rounds⟩ := ih further ⟨.collate,
        ⟨node.span.start, max e.previous.stop node.span.start⟩, none, [node, own]⟩
      refine ⟨last, ?_, fun f => .round ?_ ?_ ?_ (rounds f)⟩
      · rw [tree]
        simp [ConstraintRule.collated, Node.unplaced, Node.unplacedAll, same]
      · simp [continues, symbols, keyword, Test.holds, TokenClass.holds, here]
      · have noCast : (symbol .doubleColon).holds (f.push node) c = false := by
          simp [symbol, Test.holds, TokenClass.holds, here]
        have collates : (keyword .COLLATE).holds (f.push node) c = true := by
          simp [keyword, Test.holds, TokenClass.holds, here]
        rw [operatorTail, List.cons_append, choose, read_no noCast, List.cons_append, choose,
          read_yes collates]
        exact read_wrap inner
      · have first := Cursor.advance_shorter more
        have later := name.length
        omega

variable (call) in
theorem reads_literal (isLiteral : c.current.lexeme.IsLiteral) :
    ReadsNode call operand (fun node => node.unplaced = c.current.lexeme.literalNode) c
      c.advance := by
  refine ⟨.leaf .literal ⟨c.current.span.start, max c.advance.previous.stop c.current.span.start⟩
    (Spelling.capitals.of c.current.lexeme), rfl, fun f => ?_⟩
  cases here : c.current.lexeme with
  | number text | string text | bits digits =>
      simp [operand, primary, choose, append_eq_seq, read, symbols, keyword, keywords, takeAs,
        Test.holds, TokenClass.holds, here, Frame.close, Frame.opened, Frame.write, Frame.push,
        Node.leaf, Spelling.of, Lexeme.text, Lexeme.capitals?]
  | keyword k =>
      rw [here] at isLiteral
      have literal : k ∈ [Keyword.TRUE, .FALSE, .NULL] := by
        simpa [Lexeme.IsLiteral, TokenClass.holds] using isLiteral
      simp only [List.mem_cons, List.not_mem_nil, or_false] at literal
      rcases literal with rfl | rfl | rfl <;>
        simp [operand, primary, choose, append_eq_seq, read, symbols, keyword, keywords, takeAs,
          Test.holds, TokenClass.holds, here, Frame.close, Frame.opened, Frame.write, Frame.push,
          Node.leaf, Spelling.of]
  | _ =>
      rw [here] at isLiteral
      cases isLiteral

/-- A literal and the collations behind it. -/
theorem reads_default {literal : Lexeme} (isLiteral : literal.IsLiteral)
    (collations : List QualifiedName) (after : AfterConstraint d)
    (uncollated : d.current.lexeme ≠ .keyword .COLLATE)
    (passes : c.Passes (literal :: collationLexemes collations) d) (top : c.depth = 0)
    (some : left ≠ []) : ReadsNode (callRule rules left) expression
      (fun node => node.unplaced = ConstraintRule.collated literal.literalNode collations) c d := by
  obtain ⟨token, left, rfl⟩ := List.exists_cons_of_ne_nil some
  have level := passes.depth
  obtain ⟨here, more, further⟩ := passes.turn 1
  rw [← here] at isLiteral
  obtain ⟨own, same, reads⟩ := reads_literal (callRule rules left) isLiteral
  have after' : AfterConstraint { d with depth := 1 } := by
    refine ⟨after.ends, after.more, fun not => ?_⟩
    rw [Cursor.advance_turn]
    exact after.denies not
  obtain ⟨last, tree, rounds⟩ := collation_rounds collations after' uncollated further own
  have spelled : own.unplaced = literal.literalNode := by rw [same, ← here]
  refine ⟨last, spelled ▸ tree, fun f => ?_⟩
  have within : ¬maxDepth < c.depth + 1 := by
    rw [top]
    decide
  have deeper : { c with depth := c.depth + 1 } = { c with depth := 1 } := by rw [top]
  have body : read (callRule rules left) (operand ++ .loop (continues 0) operatorTail) f
      { c with depth := 1 } = .ok (f.push last, { d with depth := 1 }) := by
    rw [read_append (reads f), read_rounds (rounds f)]
  rw [expression, expressionOf, read, callRule, rules, expressionFrom, read]
  simp only [if_neg within, deeper, body]
  have back : { d with depth := 0 } = d := by rw [← level.trans top]
  exact congrArg (fun e => Except.ok (f.push last, e)) back

/-- What a constraint says, behind its name. -/
def constraintRule : Grammar :=
  choose [
    (keyword .NOT, takeAs .capitals ++ expectKeyword .NULL ++ .write " NULL"),
    (keyword .NULL, takeAs .capitals),
    (keyword .DEFAULT, takeAs .capitals ++ expression),
    (keyword .PRIMARY, takeAs .capitals ++ expectWord "KEY" ++ indexParameters ++ .write " KEY"),
    (keyword .UNIQUE, takeAs .capitals ++ nullsDistinct ++ indexParameters),
    (keyword .CHECK, takeAs .capitals ++ checkCondition),
    (keyword .REFERENCES, .copy .capitals ++ references),
    (keyword .COLLATE, takeAs .capitals ++ qualifiedName),
    (word "GENERATED", .take ++ generated (.write "IDENTITY") (.write "GENERATED STORED")),
    (words ["COMPRESSION", "STORAGE"], takeAs .capitals ++ optionValue)]
  (.fail "constraint")

variable (call) in
/-- The grammar adds this value and these parts. -/
def ReadsRule (a : Grammar) (value : String) (parts : List Node) (c d : Cursor) : Prop :=
  ∃ nodes : List Node, Node.unplacedAll nodes = parts ∧ ∀ f : Frame, f.value = none →
    read call a f c = .ok ({ f with value := some value, parts := nodes.reverse ++ f.parts }, d)

theorem reads_notNull (passes : c.Passes [.keyword .NOT, .keyword .NULL] d) :
    ReadsRule call constraintRule "NOT NULL" [] c d := by
  obtain ⟨here, -, next, -, rfl⟩ := passes
  refine ⟨[], rfl, fun f unnamed => ?_⟩
  simp [constraintRule, choose, append_eq_seq, read, takeAs, expectKeyword, expect, keyword,
    Test.holds, TokenClass.holds, here, next, Spelling.of, Lexeme.capitals?, Keyword.text,
    Frame.write, unnamed]

theorem reads_null (passes : c.Passes [.keyword .NULL] d) :
    ReadsRule call constraintRule "NULL" [] c d := by
  obtain ⟨here, -, rfl⟩ := passes
  refine ⟨[], rfl, fun f unnamed => ?_⟩
  simp [constraintRule, choose, append_eq_seq, read, takeAs, keyword, Test.holds,
    TokenClass.holds, here, Spelling.of, Lexeme.capitals?, Keyword.text, Frame.write, unnamed]

theorem reads_primaryKey {key : Lexeme} (means : key.Means "KEY")
    (passes : c.Passes [.keyword .PRIMARY, key] d) (after : AfterConstraint d) :
    ReadsRule call constraintRule "PRIMARY KEY" [] c d := by
  obtain ⟨here, -, next, -, rfl⟩ := passes
  obtain ⟨text, rfl, capitals⟩ := means.exists
  refine ⟨[], rfl, fun f unnamed => ?_⟩
  simp [constraintRule, choose, append_eq_seq, read, takeAs, expectWord, expect, keyword, word,
    Test.holds, TokenClass.holds, here, next, capitals, after.noParameters, Spelling.of,
    Lexeme.capitals?, Keyword.text, Frame.write, unnamed]

theorem reads_unique (passes : c.Passes [.keyword .UNIQUE] d) (after : AfterConstraint d) :
    ReadsRule call constraintRule "UNIQUE" [] c d := by
  obtain ⟨here, -, rfl⟩ := passes
  refine ⟨[], rfl, fun f unnamed => ?_⟩
  have noNulls := after.not_here (.words ["NULLS"]) (by decide)
  have nulls : ∀ f, read call nullsDistinct f c.advance = .ok (f, c.advance) := fun f =>
    read_absent (noNulls f)
  simp [constraintRule, choose, append_eq_seq, read, takeAs, keyword, Test.holds,
    TokenClass.holds, here, nulls, after.noParameters, Spelling.of, Lexeme.capitals?, Keyword.text,
    Frame.write, unnamed]

/-- What follows the first word of a rule makes one part of the constraint. -/
theorem readsRule_part {k : Keyword} {a : Grammar} {node : Node}
    (chosen : ∀ f, read call constraintRule f c = read call (takeAs .capitals ++ a) f c)
    (here : c.current.lexeme = .keyword k)
    (part : ReadsNode call a (fun own => own.unplaced = node) c.advance d) :
    ReadsRule call constraintRule k.text [node] c d := by
  obtain ⟨own, same, reads⟩ := part
  refine ⟨[own], by simp [Node.unplacedAll, same], fun f unnamed => ?_⟩
  have first : read call (takeAs .capitals) f c = .ok (f.write k.text, c.advance) := by
    simp [takeAs, append_eq_seq, read, here, Spelling.of, Lexeme.capitals?]
  rw [chosen, read_append first, reads]
  simp [Frame.write, Frame.push, unnamed]

theorem reads_collate (collation : QualifiedName)
    (passes : c.Passes (.keyword .COLLATE :: collation.lexemes) d) (after : AfterConstraint d) :
    ReadsRule call constraintRule "COLLATE" [collation.node] c d := by
  obtain ⟨here, -, name⟩ := passes
  refine readsRule_part ?_ here (reads_name call collation name after.ends)
  simp [constraintRule, choose, read, keyword, Test.holds, TokenClass.holds, here]

theorem reads_references (table : QualifiedName)
    (passes : c.Passes (.keyword .REFERENCES :: table.lexemes) d) (after : AfterConstraint d) :
    ReadsRule call constraintRule "REFERENCES"
      [⟨.references, ⟨0, 0⟩, none, [table.node]⟩] c d := by
  obtain ⟨here, -, name⟩ := passes
  obtain ⟨target, same, reads⟩ := reads_name call table name after.ends
  have noColumns := after.not_here (.symbols [.openParen]) (by decide)
  have noMatch := after.not_here (.words ["MATCH"]) (by decide)
  have noAction : ∀ f, (keyword .ON &&& nextKeywords [.DELETE, .UPDATE]).holds f d = false :=
    fun f => Bool.and_eq_false_iff.mpr (.inl (after.not_here (.keywords [.ON]) (by decide) f))
  have word : ∀ f, read call (expectKeyword .REFERENCES) f c = .ok (f, c.advance) := by
    simp [expectKeyword, expect, read, keyword, Test.holds, TokenClass.holds, here]
  have inner : read call (expectKeyword .REFERENCES ++ qualifiedName ++
      whenever (symbol .openParen) columnList ++
      whenever (Grammar.word "MATCH") (.take ++ expect plainWord "FULL, PARTIAL or SIMPLE") ++
      .loop (keyword .ON &&& nextKeywords [.DELETE, .UPDATE]) referentialAction)
      (.opened (some .references) c) c = .ok ((Frame.opened (some .references) c).push target, d) :=
    read_then (read_then (read_then (read_then (word _) (reads _)) (read_absent (noColumns _)))
      (read_absent (noMatch _))) (read_loop_none (noAction _))
  refine ⟨[⟨.references, ⟨c.current.span.start, max d.previous.stop c.current.span.start⟩, none,
    [target]⟩], by simp [Node.unplaced, Node.unplacedAll, same], fun f unnamed => ?_⟩
  have chosen : read call constraintRule f c =
      read call (.copy .capitals ++ references) f c := by
    simp [constraintRule, choose, read, keyword, Test.holds, TokenClass.holds, here]
  rw [chosen, read_append (by rw [read]), references, read_node inner, here]
  simp [Frame.close, Frame.opened, Frame.push, Frame.write, unnamed, Spelling.of, Lexeme.capitals?,
    Keyword.text]

theorem reads_check {condition : List Lexeme} {node : Node} (enclosed : IsEnclosed condition node)
    (passes : c.Passes (.keyword .CHECK :: .symbol .openParen :: condition ++
      [.symbol .closeParen]) d) (after : AfterConstraint d) {size : Nat} (ordered : c.Ordered size)
    (top : c.depth = 0) (enough : c.rest.length < left.length) :
    ReadsRule (callRule rules left) constraintRule "CHECK" [node] c d := by
  obtain ⟨e, ⟨here, more, opens, more', inner⟩, closes, last, rfl⟩ :=
    Cursor.passes_append.mp passes
  have first := Cursor.advance_shorter more
  have second := Cursor.advance_shorter more'
  have fewer : c.advance.advance.rest.length < left.length := by omega
  obtain ⟨own, same, reads⟩ := enclosed.reads inner closes last after.overlooks
    ordered.advance.advance (by rw [Cursor.advance_depth, Cursor.advance_depth, top]) fewer
  have opened : ∀ f, read (callRule rules left) (expectSymbol .openParen) f c.advance =
      .ok (f, c.advance.advance) := by
    simp [expectSymbol, expect, read, symbol, Test.holds, TokenClass.holds, opens]
  have closed : ∀ f, read (callRule rules left) (expectSymbol .closeParen) f e =
      .ok (f, e.advance) := by
    simp [expectSymbol, expect, read, symbol, Test.holds, TokenClass.holds, closes]
  have noInherit : ∀ f, (word "NO" &&& nextWord "INHERIT").holds f e.advance = false := fun f =>
    Bool.and_eq_false_iff.mpr (.inl (after.not_here (.words ["NO"]) (by decide) f))
  have part : ReadsNode (callRule rules left) checkCondition (fun own => own.unplaced = node)
      c.advance e.advance := ⟨own, same, fun f =>
    read_then (read_then (read_then (opened f) (reads f)) (closed _)) (read_absent (noInherit _))⟩
  refine readsRule_part ?_ here part
  simp [constraintRule, choose, read, keyword, Test.holds, TokenClass.holds, here]

variable {rule : ConstraintRule} {collations : List QualifiedName}

/-- A rule stands here, and the collations behind it that belong to its expression. -/
structure AtRule (rule : ConstraintRule) (collations : List QualifiedName) (c d : Cursor) :
    Prop where
  passes : c.Passes (rule.lexemes ++ collationLexemes collations) d
  after : AfterConstraint d
  /-- Only a default takes collations, and it takes all of them. -/
  all : rule.isDefault = true → d.current.lexeme ≠ .keyword .COLLATE
  none : rule.isDefault = false → collations = []

theorem AtRule.reads (here : AtRule rule collations c d) {size : Nat} (ordered : c.Ordered size)
    (top : c.depth = 0) (enough : c.rest.length < left.length) :
    ReadsRule (callRule rules left) constraintRule rule.value (rule.parts collations) c d := by
  obtain ⟨passes, after, all, none⟩ := here
  have alone (other : rule.isDefault = false) : c.Passes rule.lexemes d := by
    rwa [none other, collationLexemes, List.flatMap_nil, List.append_nil] at passes
  cases rule with
  | default literal isLiteral =>
      obtain ⟨here, more, further⟩ := passes
      have shorter := Cursor.advance_shorter more
      have some : left ≠ [] := List.ne_nil_of_length_pos (by omega)
      have part : ReadsNode (callRule rules left) expression _ c.advance d :=
        reads_default isLiteral collations after (all rfl) further
          (by rw [Cursor.advance_depth, top]) some
      refine readsRule_part ?_ here part
      simp [constraintRule, choose, read, keyword, Test.holds, TokenClass.holds, here]
  | notNull => exact reads_notNull (alone rfl)
  | null => exact reads_null (alone rfl)
  | primaryKey key means => exact reads_primaryKey means (alone rfl) after
  | unique => exact reads_unique (alone rfl) after
  | check condition node enclosed =>
      exact reads_check enclosed (alone rfl) after ordered top enough
  | references table => exact reads_references table (alone rfl) after
  | collate collation => exact reads_collate collation (alone rfl) after

/-- The name of a constraint is taken where there is one. -/
theorem reads_constraintName (k : ColumnConstraint) (naming : c.Passes k.naming d)
    {rest : List Lexeme} {e : Cursor} (rule : d.Passes (k.rule.lexemes ++ rest) e) :
    ∃ nodes : List Node, Node.unplacedAll nodes = k.nameNodes ∧
      ∀ f : Frame, read call constraintName f c =
        .ok ({ f with parts := nodes.reverse ++ f.parts }, d) := by
  rw [ColumnConstraint.naming] at naming
  rw [ColumnConstraint.nameNodes]
  cases named : k.name? with
  | none =>
      rw [named] at naming
      obtain rfl : d = c := naming
      obtain ⟨first, others, starts, other, -⟩ := k.rule.starts
      rw [starts] at rule
      have absent : ∀ f, (keyword .CONSTRAINT).holds f d = false := by
        simp [keyword, Test.holds, TokenClass.holds, rule.1, other]
      exact ⟨[], rfl, fun f => read_absent (absent f)⟩
  | some name =>
      rw [named] at naming
      obtain ⟨here, -, next, -, rfl⟩ := naming
      have isName := name.property
      rw [← next] at isName
      refine ⟨[.leaf .identifier ⟨c.advance.current.span.start,
        max c.advance.advance.previous.stop c.advance.current.span.start⟩
        (Spelling.lowered.of name.val)], rfl, fun f => ?_⟩
      have goes : (keyword .CONSTRAINT).holds f c = true := by
        simp [keyword, Test.holds, TokenClass.holds, here]
      rw [constraintName, whenever, read_yes goes, read_append (by rw [read]), identifier,
        read_node (read_name isName), next]
      simp [Frame.close, Frame.opened, Frame.write, Frame.push, Node.leaf]

/-- A constraint with its name, if it has one, and the collations that it takes. -/
theorem reads_constraint (k : ColumnConstraint) {b : Cursor} (naming : c.Passes k.naming b)
    (here : AtRule k.rule collations b d) {size : Nat} (ordered : c.Ordered size)
    (top : c.depth = 0) (enough : c.rest.length < left.length) :
    ReadsNode (callRule rules left) columnConstraint
      (fun node => node.unplaced = k.nodeWith collations) c d := by
  obtain ⟨names, sameName, readsName⟩ := @reads_constraintName (callRule rules left) c b k naming
    _ d here.passes
  have shorter := naming.length
  obtain ⟨parts, sameParts, readsRule⟩ := here.reads (naming.ordered ordered)
    (naming.depth.trans top) (Nat.lt_of_le_of_lt (by omega) enough)
  have inner : read (callRule rules left) (constraintName ++ constraintRule ++ constraintAttributes)
      (.opened (some .columnConstraint) c) c = .ok (⟨some .columnConstraint, c.current.span.start,
        some k.rule.value, parts.reverse ++ names.reverse⟩, d) := by
    refine read_then (read_then (readsName _) (readsRule _ rfl)) ?_
    rw [here.after.noAttributes]
    simp [Frame.opened]
  refine ⟨⟨.columnConstraint, ⟨c.current.span.start, max d.previous.stop c.current.span.start⟩,
    some k.rule.value, names ++ parts⟩, ?_, fun f => ?_⟩
  · rw [Node.unplacedAll_eq_map] at sameName sameParts
    simp [Node.unplaced, Node.unplacedAll_eq_map, sameName, sameParts, ColumnConstraint.nodeWith]
  · exact (read_node inner).trans (by simp [Frame.close])

theorem naming_cases (k : ColumnConstraint) : (k.name? = none ∧ k.lexemes = k.rule.lexemes) ∨
    ∃ name : { lexeme : Lexeme // lexeme.IsName },
      k.lexemes = .keyword .CONSTRAINT :: name.val :: k.rule.lexemes := by
  cases named : k.name? with
  | none => exact .inl ⟨rfl, by simp [ColumnConstraint.lexemes, ColumnConstraint.naming, named]⟩
  | some name =>
      exact .inr ⟨name, by simp [ColumnConstraint.lexemes, ColumnConstraint.naming, named]⟩

/-- Where a constraint starts another one may have ended. -/
theorem constraint_start {k : ColumnConstraint} (passes : c.Passes k.lexemes d) :
    AfterConstraint c ∧ ∃ first, c.current.lexeme = .keyword first := by
  rcases naming_cases k with ⟨-, spelled⟩ | ⟨name, spelled⟩ <;> rw [spelled] at passes
  · obtain ⟨first, others, starts, -, ends⟩ := k.rule.starts
    have same := passes
    rw [starts] at same
    refine ⟨⟨by rw [same.1]; exact ends, same.2.1, fun not => ?_⟩, first, same.1⟩
    cases rule : k.rule <;> rw [rule] at passes <;> have here := passes.1 <;> rw [not] at here <;>
      cases here
    exact passes.2.2.1
  · refine ⟨⟨by rw [passes.1]; decide, passes.2.1, fun not => ?_⟩, .CONSTRAINT, passes.1⟩
    cases passes.1.symm.trans not

/-- What starts with COLLATE has no name of its own. -/
theorem collation_of_starts {k : ColumnConstraint} (passes : c.Passes k.lexemes d)
    (collates : c.current.lexeme = .keyword .COLLATE) :
    ∃ collation, k.collation? = some collation ∧ k.lexemes = .keyword .COLLATE :: collation.lexemes := by
  rcases naming_cases k with ⟨unnamed, spelled⟩ | ⟨name, spelled⟩ <;> rw [spelled] at passes ⊢
  · cases rule : k.rule <;> rw [rule] at passes <;> have here := passes.1 <;>
      rw [collates] at here <;> cases here
    exact ⟨_, by rw [ColumnConstraint.collation?, unnamed, rule], rfl⟩
  · cases passes.1.symm.trans collates

theorem collation_lexemes {k : ColumnConstraint} {collation : QualifiedName}
    (some : k.collation? = some collation) : k.lexemes = .keyword .COLLATE :: collation.lexemes := by
  obtain ⟨name?, rule⟩ := k
  cases name? <;> cases rule <;> cases some
  rfl

theorem starts_constraint (after : AfterConstraint c)
    (other : c.current.lexeme ≠ .symbol .closeParen) (f : Frame) :
    startsColumnConstraint.holds f c = true := by
  have ends := after.ends
  simp only [constraintEnds, List.map_cons, List.map_nil, List.mem_cons, List.not_mem_nil,
    or_false] at ends
  rcases ends with here | here | here | here | here | here | here | here | here | here <;>
    simp_all [startsColumnConstraint, keywords, Test.holds, TokenClass.holds]

variable (left) in
/-- From one cursor to the other constraints are read as these nodes. -/
def ReadsConstraints (nodes : List Node) (c d : Cursor) : Prop :=
  ∃ own : List Node, Node.unplacedAll own = nodes ∧ ∀ f : Frame,
    Rounds (callRule rules left) startsColumnConstraint columnConstraint f c
      { f with parts := own.reverse ++ f.parts } d

variable {ks : List ColumnConstraint}

/-- One more constraint in front of others. -/
theorem ReadsConstraints.cons {k : ColumnConstraint} {nodes : List Node} {b e i : Cursor}
    (others : ReadsConstraints left nodes e d) (naming : c.Passes k.naming b)
    (rule : b.Passes k.rule.lexemes i) (here : AtRule k.rule collations b e) {size : Nat}
    (ordered : c.Ordered size) (top : c.depth = 0) (enough : c.rest.length < left.length) :
    ReadsConstraints left (k.nodeWith collations :: nodes) c d := by
  obtain ⟨own, same, rounds⟩ := others
  obtain ⟨node, tree, reads⟩ := reads_constraint k naming here ordered top enough
  have whole : c.Passes k.lexemes i := Cursor.passes_append.mpr ⟨b, naming, rule⟩
  obtain ⟨start, first, first'⟩ := constraint_start whole
  have shorter := naming.length
  have further := here.passes.length
  have some : 0 < k.rule.lexemes.length := by
    obtain ⟨first, others, starts, -⟩ := k.rule.starts
    simp [starts]
  rw [List.length_append] at further
  refine ⟨node :: own, by rw [Node.unplacedAll, tree, same], fun f => ?_⟩
  have goes : startsColumnConstraint.holds f c = true := by
    refine starts_constraint start ?_ f
    rw [first']
    nofun
  have all := rounds (f.push node)
  rw [List.reverse_cons, List.append_assoc]
  exact .round goes (reads f) (by omega) all

theorem reads_constraints (passes : c.Passes (ks.flatMap (·.lexemes)) d)
    (closes : d.current.lexeme = .symbol .closeParen) (last : d.rest ≠ []) {size : Nat}
    (ordered : c.Ordered size) (top : c.depth = 0) (enough : c.rest.length < left.length) :
    AfterConstraint c ∧ ReadsConstraints left (ColumnConstraint.nodes false ks) c d ∧
      ∃ e, c.Passes (collationLexemes (ColumnConstraint.leading ks)) e ∧ AfterConstraint e ∧
        e.current.lexeme ≠ .keyword .COLLATE ∧
        ReadsConstraints left (ColumnConstraint.nodes true ks) e d := by
  induction ks generalizing c with
  | nil =>
      cases passes
      have other : d.current.lexeme ≠ .keyword .NOT ∧ d.current.lexeme ≠ .keyword .COLLATE := by
        rw [closes]
        exact ⟨nofun, nofun⟩
      have after : AfterConstraint d :=
        ⟨by rw [closes]; decide, last, fun not => absurd not other.1⟩
      have none (f : Frame) : startsColumnConstraint.holds f d = false := by
        simp [startsColumnConstraint, keywords, words, Test.holds, TokenClass.holds, closes]
      have nothing : ReadsConstraints left [] d d := ⟨[], rfl, fun f => .done (none f)⟩
      exact ⟨after, nothing, d, rfl, after, other.2, nothing⟩
  | cons k ks ih =>
      obtain ⟨i, own, later⟩ := Cursor.passes_append.mp passes
      obtain ⟨b, naming, rule⟩ := Cursor.passes_append.mp own
      have shorter := own.length
      have fewer : i.rest.length < left.length := by omega
      obtain ⟨after, others, e, collations, after', uncollated, beyond⟩ :=
        ih later (own.ordered ordered) (own.depth.trans top) fewer
      have start := (constraint_start own).1
      have one : ReadsConstraints left (ColumnConstraint.nodes false (k :: ks)) c d := by
        rw [ColumnConstraint.nodes, Bool.false_and, if_neg Bool.false_ne_true]
        cases isDefault : k.rule.isDefault with
        | true =>
            have here : AtRule k.rule (ColumnConstraint.leading ks) b e :=
              ⟨Cursor.passes_append.mpr ⟨i, rule, collations⟩, after', fun _ => uncollated,
                fun other => absurd (isDefault.symm.trans other) (by decide)⟩
            exact beyond.cons naming rule here ordered top enough
        | false =>
            have here : AtRule k.rule [] b i :=
              ⟨by simpa [collationLexemes] using rule, after,
                fun other => absurd (isDefault.symm.trans other) (by decide), fun _ => rfl⟩
            exact others.cons naming rule here ordered top enough
      refine ⟨start, one, ?_⟩
      cases taken : k.collation? with
      | some collation =>
          refine ⟨e, ?_, after', uncollated, ?_⟩
          · rw [ColumnConstraint.leading, taken]
            refine Cursor.passes_append.mpr ⟨i, ?_, collations⟩
            show c.Passes (.keyword .COLLATE :: collation.lexemes) i
            exact collation_lexemes taken ▸ own
          · rw [ColumnConstraint.nodes, taken]
            exact beyond
      | none =>
          refine ⟨c, ?_, start, fun collates => ?_, ?_⟩
          · rw [ColumnConstraint.leading, taken]
            rfl
          · obtain ⟨collation, some, -⟩ := collation_of_starts own collates
            cases taken.symm.trans some
          · rw [ColumnConstraint.nodes, taken]
            exact one

end Grammar
end SqlAudit
