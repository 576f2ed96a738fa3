import SqlAudit.Grammar.Statement
import SqlAudit.Proofs.Grammar.Formula
import SqlAudit.Proofs.Grammar.Forward
import SqlAudit.Proofs.Script.Layout
/-!
How expressions of infix operators are read: the loop over operators groups them as a formula does.
Right operands are read by the same loop for tighter operators, so its power grows with the nesting
and no number of operators reaches the limit of that.
-/
namespace SqlAudit

namespace Lexeme

/-- What can stand after operands that are joined by operators of these powers: the end, or an
operator that binds no more tightly than any of them. -/
def Follows (powers : List Nat) (lexeme : Lexeme) : Prop :=
  lexeme = .finish ∨ ∃ power, lexeme.infixPower? = some power ∧ ∀ q ∈ powers, power ≤ q

/-- Ends an expression of operators of this power or a higher one. -/
def Ends (power : Nat) (lexeme : Lexeme) : Prop :=
  lexeme = .finish ∨ ∃ q, lexeme.infixPower? = some q ∧ q < power

variable {powers : List Nat} {power : Nat} {lexeme : Lexeme}

theorem Follows.mono {others : List Nat} (follows : lexeme.Follows powers)
    (fewer : others ⊆ powers) : lexeme.Follows others :=
  follows.imp_right fun ⟨power, infixed, least⟩ =>
    ⟨power, infixed, fun q member => least q (fewer member)⟩

theorem Follows.ends (follows : lexeme.Follows powers) (member : power ∈ powers) :
    lexeme.Ends (power + 1) :=
  follows.imp_right fun ⟨q, infixed, least⟩ => ⟨q, infixed, Nat.lt_succ_of_le (least _ member)⟩

theorem Ends.follows (ends : lexeme.Ends power) (above : ∀ q ∈ powers, power ≤ q) :
    lexeme.Follows powers :=
  ends.imp_right fun ⟨q, infixed, below⟩ =>
    ⟨q, infixed, fun p member => Nat.le_of_lt (Nat.lt_of_lt_of_le below (above p member))⟩

theorem Follows.not_word (follows : lexeme.Follows powers) (spellings : List String) :
    (TokenClass.words spellings).holds lexeme = false := by
  obtain rfl | ⟨power, infixed, -⟩ := follows
  · rfl
  · cases lexeme with
    | word text => cases infixed
    | _ => rfl

theorem Follows.not_string (follows : lexeme.Follows powers) :
    TokenClass.string.holds lexeme = false := by
  obtain rfl | ⟨power, infixed, -⟩ := follows
  · rfl
  · cases lexeme with
    | string text => cases infixed
    | _ => rfl

theorem Follows.not_symbols (follows : lexeme.Follows powers) (ss : List Symbol)
    (others : ∀ s ∈ ss, s.infixPower? = none) : (TokenClass.symbols ss).holds lexeme = false := by
  obtain rfl | ⟨power, infixed, -⟩ := follows
  · rfl
  · cases lexeme with
    | symbol s =>
        have absent : s ∉ ss := by
          intro member
          simp [infixPower?, others s member] at infixed
        simpa [TokenClass.holds] using absent
    | _ => rfl

theorem Follows.not_keyword (follows : lexeme.Follows powers) {k : Keyword}
    (other : k.infixPower? = none) : (TokenClass.keywords [k]).holds lexeme = false := by
  obtain rfl | ⟨power, infixed, -⟩ := follows
  · rfl
  · cases lexeme with
    | keyword l =>
        have different : l ≠ k := by
          rintro rfl
          simp [infixPower?, other] at infixed
        simpa [TokenClass.holds] using different
    | _ => rfl

theorem infixPower_mem_levels (infixed : lexeme.infixPower? = some power) :
    power ∈ Binding.levels := by
  cases lexeme with
  | symbol s => cases s <;> cases infixed <;> decide
  | keyword k => cases k <;> cases infixed <;> decide
  | operator text => cases infixed; decide
  | _ => cases infixed

theorem IsOperand.not_word {spelling : String} (operand : lexeme.IsOperand)
    (other : spelling ∈ Grammar.operandWords) :
    (TokenClass.words [spelling]).holds lexeme = false := by
  cases lexeme with
  | word text =>
      have different : Text.capitals text ≠ spelling := by
        rintro rfl
        exact operand other
      simpa [TokenClass.holds] using different
  | _ => rfl

theorem IsOperand.not_keyword (operand : lexeme.IsOperand) (ks : List Keyword) :
    (TokenClass.keywords ks).holds lexeme = false := by
  cases lexeme with
  | keyword k => exact operand.elim
  | _ => rfl

end Lexeme

namespace Operator

variable (op : Operator)

theorem power_le : op.power ≤ 17 := by
  have level := Lexeme.infixPower_mem_levels op.infixPower_eq
  have bounds : ∀ power ∈ Binding.levels, power ≤ 17 := by decide
  exact bounds _ level

theorem follows : op.val.Follows [] := .inr ⟨_, op.infixPower_eq, by simp⟩

theorem ne_not : op.val ≠ .keyword .NOT := by
  intro same
  have binary : Keyword.NOT ∈ [Keyword.OR, .AND, .LIKE, .ILIKE] := by
    have binary := op.property
    rwa [same] at binary
  exact absurd binary (by decide)

/-- LIKE and ILIKE are read with the predicates, the others by their power. -/
theorem match_or_plain :
    (op.val = .keyword .LIKE ∨ op.val = .keyword .ILIKE) ∨
      ∀ ks : List Keyword, .OR ∉ ks → .AND ∉ ks →
        (TokenClass.keywords ks).holds op.val = false := by
  obtain ⟨lexeme, binary⟩ := op
  cases lexeme with
  | keyword k =>
      have member : k ∈ [Keyword.OR, .AND, .LIKE, .ILIKE] := binary
      simp only [List.mem_cons, List.not_mem_nil, or_false] at member
      obtain rfl | rfl | rfl | rfl := member
      · exact .inr fun ks notOr _ => by simpa using notOr
      · exact .inr fun ks _ notAnd => by simpa using notAnd
      · exact .inl (.inl rfl)
      · exact .inl (.inr rfl)
  | _ => exact .inr fun ks _ _ => rfl

end Operator

namespace Formula

theorem lexemes_eq_cons (t : Formula) : ∃ (a : Operand) (others : List Lexeme),
    t.lexemes = a.val :: others := by
  induction t with
  | operand a => exact ⟨a, [], rfl⟩
  | binary left op right ihLeft ihRight =>
      obtain ⟨a, others, first⟩ := ihLeft
      exact ⟨a, _, by rw [lexemes, first, List.cons_append]⟩
  | between left denied low right ihLeft ihLow ihRight =>
      obtain ⟨a, others, first⟩ := ihLeft
      exact ⟨a, _, by simp only [lexemes, first, List.cons_append]; rfl⟩

end Formula

namespace Grammar

variable {call : Nonterminal → Frame → Cursor → Reading} {f g : Frame} {c d e : Cursor}
  {power q : Nat} {powers : List Nat}

theorem continues_ends (ends : c.current.lexeme.Ends power) :
    (continues power).holds f c = false := by
  have follows : c.current.lexeme.Follows [] := ends.follows (by simp)
  have opens := follows.not_symbols [.doubleColon, .openBracket] (by decide)
  have collate := follows.not_keyword (k := .COLLATE) rfl
  have loose : (TokenClass.infixFrom power).holds c.current.lexeme = false := by
    obtain last | ⟨q, infixed, below⟩ := ends
    · rw [last]
      rfl
    · simpa [TokenClass.holds, infixed] using below
  simp [continues, symbols, keyword, Test.holds, opens, collate, loose]

theorem continues_infix (infixed : c.current.lexeme.infixPower? = some q) (tight : power ≤ q)
    (meant : c.current.lexeme ≠ .keyword .NOT ∨ c.peek.lexeme = .keyword .BETWEEN) :
    (continues power).holds f c = true := by
  have bound : (TokenClass.infixFrom power).holds c.current.lexeme = true := by
    simpa [TokenClass.holds, infixed] using tight
  have predicate : (TokenClass.keywords [.NOT]).holds c.current.lexeme = true →
      (TokenClass.keywords [.IN, .LIKE, .ILIKE, .BETWEEN]).holds c.peek.lexeme = true := by
    intro denied
    obtain other | next := meant
    · refine absurd ?_ other
      cases current : c.current.lexeme <;> simp_all [TokenClass.holds]
    · rw [next]
      rfl
  simp only [continues, holds_or, holds_and, holds_not, Bool.or_eq_true, Bool.and_eq_true,
    Bool.not_eq_true']
  refine .inr ⟨bound, .inl ?_⟩
  cases denied : (keyword .NOT).holds f c with
  | false => exact .inl rfl
  | true => exact .inr (predicate denied)

theorem continues_between {denied : Bool} (passes : c.Passes (betweenWords denied) d)
    (tight : power ≤ Binding.comparison) : (continues power).holds f c = true := by
  cases denied with
  | false =>
      obtain ⟨here, -, -⟩ := passes
      exact continues_infix (by rw [here]; rfl) tight (.inl (by simp [here]))
  | true =>
      obtain ⟨here, -, next, -⟩ := passes
      rw [Cursor.advance_current] at next
      exact continues_infix (by rw [here]; rfl) tight (.inr next)

theorem follows_between {denied : Bool} (passes : c.Passes (betweenWords denied) d)
    (least : ∀ q ∈ powers, Binding.comparison ≤ q) : c.current.lexeme.Follows powers := by
  refine .inr ⟨Binding.comparison, ?_, least⟩
  cases denied <;> rw [passes.1] <;> rfl

theorem read_column {text : String} (plain : Text.capitals text ∉ operandWords)
    (here : c.current.lexeme = .word text) (follows : c.advance.current.lexeme.Follows powers) :
    read call operand f c = .ok (f.push ⟨.columnRef, ⟨c.current.span.start,
      max c.current.span.stop c.current.span.start⟩, some (Text.lowercase text), []⟩,
      c.advance) := by
  have notArray : Text.capitals text ≠ "ARRAY" := by
    rintro same
    simp [same, operandWords] at plain
  have notString : (Test.next .string).holds f c = false := by
    rw [Test.holds, ← Cursor.advance_current, follows.not_string]
  have notDot := follows.not_symbols [.dot] (by decide)
  have notCall := follows.not_symbols [.openParen] (by decide)
  have operator : read call operand f c = read call nameExpression f c := by
    simp [operand, choose, primary, read, symbols, symbol, keywords, keyword, word, Test.holds,
      here, TokenClass.holds, notArray, anyName]
  have named : ∀ g, read call name g c =
      .ok (g.write (Text.lowercase text), c.advance) := by
    simp [name, read, anyName, Test.holds, here, TokenClass.holds, takeAs, append_eq_seq,
      Spelling.of]
  have unqualified : ∀ g,
      (symbol .dot &&& ~~~ nextSymbol .star).holds g c.advance = false := by
    simp [symbol, Test.holds, notDot]
  rw [operator, nameExpression, read_no notString, read_node (g :=
    ⟨some .columnRef, c.current.span.start, some (Text.lowercase text), []⟩) (d := c.advance)]
  · simp [Frame.close, Cursor.advance_previous]
  · have alone : ∀ g, read call (name ++ .loop (symbol .dot &&& ~~~ nextSymbol .star)
        (.take ++ .write "." ++ name)) g c = .ok (g.write (Text.lowercase text), c.advance) := by
      intro g
      rw [read_append (named g), read_loop_none (unqualified _)]
    have notQualified : ∀ g, (symbol .dot).holds g c.advance = false := by
      simp [symbol, Test.holds, notDot]
    have notApplied : ∀ g, (symbol .openParen).holds g c.advance = false := by
      simp [symbol, Test.holds, notCall]
    rw [read_append (alone _), choose, read_no (notQualified _), choose,
      read_no (notApplied _), choose, read]
    rfl

/-- An operand is a node of its own before anything that can follow it. -/
theorem read_operand (call : Nonterminal → Frame → Cursor → Reading) (a : Operand)
    (here : c.current.lexeme = a.val)
    (follows : c.advance.current.lexeme.Follows powers) :
    ∃ node : Node, node.unplaced = a.node ∧
      ∀ f, read call operand f c = .ok (f.push node, c.advance) := by
  obtain ⟨lexeme, isOperand⟩ := a
  cases lexeme with
  | word text => exact ⟨_, rfl, fun f => read_column isOperand here follows⟩
  | number text =>
      refine ⟨⟨.literal, ⟨c.current.span.start, max c.current.span.stop c.current.span.start⟩,
        some text, []⟩, rfl, fun f => ?_⟩
      simp [operand, choose, primary, read, symbols, symbol, keywords, keyword, Test.holds, here,
        TokenClass.holds, takeAs, append_eq_seq, Spelling.of, Lexeme.text, Frame.opened,
        Frame.write, Frame.close, Cursor.advance_previous]
  | _ => exact isOperand.elim

/-! An operator is read with what stands to its right, and takes what was read to its left. -/

theorem read_binaryAt (infixed : c.current.lexeme.infixPower? = some q) {levels : List Nat}
    (member : q ∈ levels) :
    read call (choose (levels.map binaryAt) .nothing) f c = read call (binaryAt q).2 f c := by
  induction levels with
  | nil => cases member
  | cons level levels ih =>
      rw [List.map_cons, binaryAt, choose]
      by_cases same : q = level
      · subst same
        rw [read_yes (by simp [Test.holds, TokenClass.holds, infixed]), binaryAt]
      · rw [read_no (by simp [Test.holds, TokenClass.holds, infixed, same])]
        exact ih ((List.mem_cons.mp member).resolve_left same)

/-- The node of a binary operator whose right operand is read up to `d`. -/
def binaryNode (op : Operator) (left right : Node) (d : Cursor) : Node :=
  ⟨.binaryExpr, ⟨left.span.start, max d.previous.stop left.span.start⟩, some op.val.describe,
    [left, right]⟩

/-- A pattern match binds as a comparison does and can have an escape, which is no operator. -/
theorem read_match (op : Operator) (like : op.val = .keyword .LIKE ∨ op.val = .keyword .ILIKE)
    (here : c.current.lexeme = op.val) {left right : Node}
    (called : ∀ f, call (.expression (op.power + 1)) f c.advance = .ok (f.push right, d))
    (follows : d.current.lexeme.Follows powers) :
    read call operatorTail (f.push left) c = .ok (f.push (binaryNode op left right d), d) := by
  have power : op.power = 5 := by
    have infixed := op.infixPower_eq
    obtain like | like := like <;> rw [like] at infixed <;> exact (Option.some.inj infixed).symm
  rw [power] at called
  have noEscape : ∀ g, (word "ESCAPE").holds g d = false := fun g => follows.not_word ["ESCAPE"]
  have matched : read call (takeAs .described ++ pattern)
      ⟨some .binaryExpr, left.span.start, none, [left]⟩ c =
        .ok (⟨some .binaryExpr, left.span.start, some op.val.describe, [right, left]⟩, d) := by
    simp [append_eq_seq, takeAs, pattern, whenever, expressionOf, Binding.comparisonOperand, read,
      called, noEscape, Spelling.of, here, Frame.write, Frame.push]
  have chosen : read call operatorTail (f.push left) c =
      read call (.wrap .binaryExpr (takeAs .described ++ pattern)) (f.push left) c := by
    obtain like | like := like <;> rw [like] at here <;>
      simp [operatorTail, predicate, choose, read, symbol, keyword, keywords, word, Test.holds,
        here, TokenClass.holds, append_eq_seq, whenever]
  rw [chosen, read_wrap matched]
  rfl

theorem read_binary (op : Operator) (here : c.current.lexeme = op.val) {left right : Node}
    (called : ∀ f, call (.expression (op.power + 1)) f c.advance = .ok (f.push right, d))
    (follows : d.current.lexeme.Follows powers) :
    read call operatorTail (f.push left) c = .ok (f.push (binaryNode op left right d), d) := by
  have notCast := op.follows.not_symbols [.doubleColon] (by decide)
  have notSubscript := op.follows.not_symbols [.openBracket] (by decide)
  have notCollate := op.follows.not_keyword (k := .COLLATE) rfl
  have infixed : c.current.lexeme.infixPower? = some op.power := by rw [here, op.infixPower_eq]
  obtain like | plain := op.match_or_plain
  · exact read_match op like here called follows
  · have notIs := plain [.IS] (by decide) (by decide)
    have notPredicate := plain [.NOT, .IN, .BETWEEN, .LIKE, .ILIKE] (by decide) (by decide)
    have skipped : read call operatorTail (f.push left) c =
        read call (choose (Binding.levels.map binaryAt) .nothing) (f.push left) c := by
      simp [operatorTail, choose, read, symbol, keyword, keywords, Test.holds, here, notCast,
        notSubscript, notCollate, notIs, notPredicate]
    have joined : read call (takeAs .described ++ expressionOf (op.power + 1))
        ⟨some .binaryExpr, left.span.start, none, [left]⟩ c =
          .ok (⟨some .binaryExpr, left.span.start, some op.val.describe, [right, left]⟩, d) := by
      simp [append_eq_seq, takeAs, expressionOf, read, called, Spelling.of, here, Frame.write,
        Frame.push]
    rw [skipped, read_binaryAt infixed (Lexeme.infixPower_mem_levels infixed), binaryAt,
      read_wrap joined]
    rfl

/-- The node of a range whose upper bound is read up to `d`. -/
def betweenNode (denied : Bool) (left low right : Node) (d : Cursor) : Node :=
  ⟨.between, ⟨left.span.start, max d.previous.stop left.span.start⟩,
    some (if denied then "NOT BETWEEN" else "BETWEEN"), [left, low, right]⟩

/-- What follows the left operand of a range, but for a denial. -/
def range : Grammar :=
  .become .between ++ takeAs .capitals ++ accept (word "SYMMETRIC") ++
    expressionOf Binding.comparisonOperand ++ expectKeyword .AND ++
    expressionOf Binding.comparisonOperand

/-- The AND after the lower bound is the one of the range. -/
theorem read_range (here : c.current.lexeme = .keyword .BETWEEN) {low right : Node}
    (plain : (TokenClass.words ["SYMMETRIC"]).holds c.advance.current.lexeme = false)
    (lower : ∀ f, call (.expression 6) f c.advance = .ok (f.push low, d))
    (closed : d.current.lexeme = .keyword .AND)
    (upper : ∀ f, call (.expression 6) f d.advance = .ok (f.push right, e)) :
    read call range f c =
      .ok (⟨some .between, f.start, some (f.value.getD "" ++ "BETWEEN"),
        right :: low :: f.parts⟩, e) := by
  simp [range, append_eq_seq, read, takeAs, accept, whenever, word, Test.holds, plain,
    expressionOf, Binding.comparisonOperand, lower, expectKeyword, expect, keyword, closed, upper,
    Spelling.of, here, Lexeme.capitals?, Frame.write, Frame.push, Keyword.text]

theorem read_between (denied : Bool) (passes : c.Passes (betweenWords denied) d)
    {left low right : Node} {h : Cursor}
    (plain : (TokenClass.words ["SYMMETRIC"]).holds d.current.lexeme = false)
    (lower : ∀ f, call (.expression 6) f d = .ok (f.push low, e))
    (closed : e.current.lexeme = .keyword .AND)
    (upper : ∀ f, call (.expression 6) f e.advance = .ok (f.push right, h)) :
    read call operatorTail (f.push left) c =
      .ok (f.push (betweenNode denied left low right h), h) := by
  cases denied with
  | false =>
      obtain ⟨here, -, rfl⟩ := passes
      have chosen : read call operatorTail (f.push left) c =
          read call (.wrap .binaryExpr range) (f.push left) c := by
        simp [operatorTail, predicate, range, choose, read, symbol, keyword, keywords, Test.holds,
          here, TokenClass.holds, append_eq_seq, whenever]
      rw [chosen, read_wrap (read_range here plain lower closed upper)]
      rfl
  | true =>
      obtain ⟨here, -, next, -, rfl⟩ := passes
      have chosen : read call operatorTail (f.push left) c =
          read call (.wrap .binaryExpr (takeAs .capitals ++ .gap ++ range)) (f.push left) c := by
        simp [operatorTail, predicate, range, choose, read, symbol, keyword, keywords, Test.holds,
          here, next, TokenClass.holds, append_eq_seq, whenever, takeAs]
      have refused : ∀ g, read call (takeAs .capitals ++ .gap) g c =
          .ok ((g.write "NOT").gap, c.advance) := by
        simp [append_eq_seq, takeAs, read, Spelling.of, here, Lexeme.capitals?, Keyword.text]
      rw [chosen, read_wrap
        ((read_append (refused _)).trans (read_range next plain lower closed upper))]
      rfl

end Grammar

open Grammar

namespace Formula

/-- The formula stands from `c` to `d` in a place for operators of this power or a higher one, and
what follows it takes none of its operands. -/
structure Ahead (t : Formula) (power : Nat) (c d : Cursor) : Prop where
  grouped : t.Grouped
  above : ∀ q ∈ t.powers, power ≤ q
  passes : c.Passes t.lexemes d
  follows : d.current.lexeme.Follows t.powers

/-- An expression that starts at `c` has the tree of the formula at `d`, whatever the operators are
that follow. -/
def IsRead (t : Formula) (power : Nat) (left : List Token) (c d : Cursor) : Prop :=
  ∃ node : Node, node.unplaced = t.node ∧ ∀ (f : Frame) (result : Reading),
    (∀ fuel : List Token, d.rest.length < fuel.length →
      repeatWhile (continues power) (read (callRule rules left) operatorTail) fuel
        (f.push node) d = result) →
    read (callRule rules left) (Grammar.operand ++ .loop (continues power) operatorTail) f c =
      result

variable {t u : Formula} {power : Nat} {left : List Token} {c d e : Cursor}

/-- One more operator is read after what was read of a formula. -/
theorem IsRead.step (before : t.IsRead power left c d)
    (goesOn : ∀ f, (continues power).holds f d = true)
    (onward : e.rest.length < d.rest.length)
    (joined : ∀ first : Node, first.unplaced = t.node → ∃ node : Node, node.unplaced = u.node ∧
      ∀ f : Frame, read (callRule rules left) operatorTail (f.push first) d =
        .ok (f.push node, e)) :
    u.IsRead power left c e := by
  obtain ⟨first, sameFirst, reads⟩ := before
  obtain ⟨node, same, step⟩ := joined first sameFirst
  refine ⟨node, same, fun f result later => reads f result fun fuel enough => ?_⟩
  cases fuel with
  | nil => exact absurd enough (Nat.not_lt_zero _)
  | cons token fuel =>
      rw [repeatWhile, if_pos (goesOn _), step]
      rw [List.length_cons] at enough
      exact later fuel (by omega)

/-- A formula is read whole where nothing follows that belongs to it. -/
theorem Ahead.call (ahead : t.Ahead power c d)
    (isRead : ∀ {left : List Token} {c d : Cursor}, t.Ahead power c d →
      c.rest.length ≤ left.length → c.depth + 18 ≤ maxDepth + power → t.IsRead power left c d)
    (ends : d.current.lexeme.Ends power) (low : power ≤ 18)
    (left : List Token) (enough : c.rest.length < left.length)
    (shallow : c.depth + 19 ≤ maxDepth + power) :
    ∃ node : Node, node.unplaced = t.node ∧
      ∀ f, callRule rules left (.expression power) f c = .ok (f.push node, d) := by
  cases left with
  | nil => exact absurd enough (Nat.not_lt_zero _)
  | cons token left =>
      have turned : t.Ahead power { c with depth := c.depth + 1 } { d with depth := c.depth + 1 } :=
        ⟨ahead.grouped, ahead.above, ahead.passes.turn _, ahead.follows⟩
      obtain ⟨node, same, reads⟩ :=
        isRead turned (Nat.le_of_lt_succ enough) (by simpa using shallow)
      refine ⟨node, same, fun f => ?_⟩
      have whole := reads f (.ok (f.push node, { d with depth := c.depth + 1 })) fun fuel _ => by
        have stops := continues_ends (c := { d with depth := c.depth + 1 }) (f := f.push node) ends
        cases fuel <;> simp [repeatWhile, stops]
      have within : ¬maxDepth < c.depth + 1 := by omega
      have level := ahead.passes.depth
      simp only [callRule, rules, expressionFrom, Grammar.read, if_neg within, whole]
      rw [Nat.add_sub_cancel, ← level]

theorem Ahead.of_binary {before after : Formula} {op : Operator}
    (ahead : (binary before op after).Ahead power c d) :
    ∃ e, before.Ahead power c e ∧ e.current.lexeme = op.val ∧ e.rest ≠ [] ∧
      after.Ahead (op.power + 1) e.advance d := by
  obtain ⟨⟨groupedBefore, groupedAfter, least, tighter⟩, above, passes, follows⟩ := ahead
  obtain ⟨e, first, here, more, second⟩ := Cursor.passes_append.mp passes
  refine ⟨e, ⟨groupedBefore, fun q member => above q (by simp [powers, member]), first, ?_⟩, here,
    more, groupedAfter, tighter, second, follows.mono (by simp [powers])⟩
  exact .inr ⟨_, by rw [here, op.infixPower_eq], least⟩

theorem Ahead.of_between {before low after : Formula} {denied : Bool}
    (ahead : (between before denied low after).Ahead power c d) :
    ∃ e h i, before.Ahead power c e ∧ e.Passes (betweenWords denied) h ∧ low.Ahead 6 h i ∧
      i.current.lexeme = .keyword .AND ∧ i.rest ≠ [] ∧ after.Ahead 6 i.advance d := by
  obtain ⟨⟨groupedBefore, groupedLow, groupedAfter, least, within, tighter⟩, above, passes,
    follows⟩ := ahead
  obtain ⟨i, passes, closed, more, second⟩ := Cursor.passes_append.mp passes
  obtain ⟨h, passes, bound⟩ := Cursor.passes_append.mp passes
  obtain ⟨e, first, words⟩ := Cursor.passes_append.mp passes
  have aheadLow : low.Ahead 6 h i := by
    refine ⟨groupedLow, within, bound, ?_⟩
    rw [closed]
    exact .inr ⟨3, rfl, fun q member => Nat.le_trans (by decide) (within q member)⟩
  exact ⟨e, h, i, ⟨groupedBefore, fun q member => above q (by simp [powers, member]), first,
    follows_between words least⟩, words, aheadLow, closed, more, groupedAfter, tighter, second,
    follows.mono (by simp [powers])⟩

theorem Ahead.not_symmetric (ahead : t.Ahead power c d) :
    (TokenClass.words ["SYMMETRIC"]).holds c.current.lexeme = false := by
  obtain ⟨a, others, starts⟩ := t.lexemes_eq_cons
  have passes := ahead.passes
  rw [starts] at passes
  rw [passes.1]
  exact a.property.not_word (by decide)

/-- The induction is on the formula: its left part is read before the loop that reads its operator
goes on, and its right part inside that, in a place for tighter operators only. -/
theorem isRead (t : Formula) {power : Nat} {left : List Token} {c d : Cursor}
    (ahead : t.Ahead power c d) (enough : c.rest.length ≤ left.length)
    (shallow : c.depth + 18 ≤ maxDepth + power) : t.IsRead power left c d := by
  induction t generalizing power left c d with
  | operand a =>
      obtain ⟨-, -, ⟨here, more, rfl⟩, follows⟩ := ahead
      obtain ⟨node, same, reads⟩ := read_operand (callRule rules left) a here follows
      refine ⟨node, same, fun f result later => ?_⟩
      rw [read_append (reads f), Grammar.read]
      exact later _ (Nat.lt_succ_self _)
  | binary before op after ihBefore ihAfter =>
      have follows := ahead.follows
      have tight : power ≤ op.power := ahead.above _ (by simp [powers])
      obtain ⟨e, aheadBefore, here, more, aheadAfter⟩ := ahead.of_binary
      have infixed : e.current.lexeme.infixPower? = some op.power := by
        rw [here, op.infixPower_eq]
      have lengths := aheadBefore.passes.length
      have shorter := Cursor.advance_shorter more
      have onward := aheadAfter.passes.length
      have depth := (Cursor.advance_depth e).trans aheadBefore.passes.depth
      obtain ⟨right, sameRight, called⟩ := aheadAfter.call ihAfter
        (follows.ends (by simp [powers])) (Nat.succ_le_succ op.power_le) left (by omega) (by omega)
      refine (ihBefore aheadBefore enough shallow).step
        (fun _ => continues_infix infixed tight (.inl (by rw [here]; exact op.ne_not)))
        (by omega) fun left sameLeft => ?_
      refine ⟨binaryNode op left right d, ?_, fun f => read_binary op here called follows⟩
      simp [binaryNode, Node.unplaced, Node.unplacedAll, sameLeft, sameRight, node]
  | between before denied low after ihBefore ihLow ihAfter =>
      have follows := ahead.follows
      have tight : power ≤ 5 := ahead.above _ (by simp [powers, Binding.comparison])
      obtain ⟨e, h, i, aheadBefore, words, aheadLow, closed, more, aheadAfter⟩ :=
        ahead.of_between
      have lengths := aheadBefore.passes.length
      have onward := words.length
      have later := aheadLow.passes.length
      have shorter := Cursor.advance_shorter more
      have last := aheadAfter.passes.length
      have depth := words.depth.trans aheadBefore.passes.depth
      have depthAfter := (Cursor.advance_depth i).trans (aheadLow.passes.depth.trans depth)
      have some : 0 < (betweenWords denied).length := by cases denied <;> decide
      have ends : i.current.lexeme.Ends 6 := by
        rw [closed]
        exact .inr ⟨3, rfl, by decide⟩
      obtain ⟨lower, sameLow, calledLow⟩ := aheadLow.call ihLow ends (by decide) left
        (by omega) (by omega)
      obtain ⟨right, sameRight, called⟩ := aheadAfter.call ihAfter
        (follows.ends (by simp [powers, Binding.comparison])) (by decide) left (by omega)
        (by omega)
      refine (ihBefore aheadBefore enough shallow).step (fun _ => continues_between words tight)
        (by omega) fun left sameLeft => ?_
      refine ⟨betweenNode denied left lower right d, ?_,
        fun f => read_between denied words aheadLow.not_symmetric calledLow closed called⟩
      simp [betweenNode, Node.unplaced, Node.unplacedAll, sameLeft, sameLow, sameRight, node]

/-- A formula of any length is read as an expression, up to the end or to a looser operator. -/
theorem Ahead.read (ahead : t.Ahead power c d) (ends : d.current.lexeme.Ends power)
    (low : power ≤ 18) (left : List Token) (enough : c.rest.length < left.length)
    (shallow : c.depth + 19 ≤ maxDepth + power) :
    ∃ node : Node, node.unplaced = t.node ∧
      ∀ f, callRule rules left (.expression power) f c = .ok (f.push node, d) :=
  ahead.call t.isRead ends low left enough shallow

/-- Tokens can be grouped in one way only: both formulas are what is read of them. -/
theorem grouped_unique (first : t.Grouped) (second : u.Grouped) (same : t.lexemes = u.lexemes) :
    t = u := by
  let tokens : List Token := (t.lexemes ++ [Lexeme.finish]).map (Token.mk · ⟨0, 0⟩)
  have spelled : (Cursor.ofTokens tokens).tokens.map (·.lexeme) = t.lexemes ++ [.finish] := by
    rw [Script.tokens_ofTokens (by simp [tokens])]
    simp [tokens, Function.comp_def]
  obtain ⟨d, passes, left⟩ := Cursor.exists_passes spelled
  have last : d.current.lexeme = .finish := (List.cons.inj left).1
  have shallow : (Cursor.ofTokens tokens).depth + 19 ≤ maxDepth + 0 := by
    rw [Cursor.depth_ofTokens]
    decide
  have firstAhead : t.Ahead 0 (.ofTokens tokens) d :=
    ⟨first, fun _ _ => Nat.zero_le _, passes, .inl last⟩
  have secondAhead : u.Ahead 0 (.ofTokens tokens) d :=
    ⟨second, fun _ _ => Nat.zero_le _, same ▸ passes, .inl last⟩
  obtain ⟨node, sameFirst, read⟩ := firstAhead.read (.inl last) (by decide)
    (Cursor.ofTokens tokens).tokens (Nat.lt_succ_self _) shallow
  obtain ⟨node', sameSecond, read'⟩ := secondAhead.read (.inl last) (by decide)
    (Cursor.ofTokens tokens).tokens (Nat.lt_succ_self _) shallow
  have once := (read (.opened none d)).symm.trans (read' (.opened none d))
  have nodes : node = node' := by simpa [Frame.push] using once
  exact eq_of_node (by rw [← sameFirst, ← sameSecond, nodes]) same

end Formula
end SqlAudit
