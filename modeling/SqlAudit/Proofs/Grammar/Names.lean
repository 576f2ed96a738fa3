import SqlAudit.Grammar.Statement
import SqlAudit.Proofs.Grammar.Forward
/-!
Names, numbers and parenthesized groups that are spelled out. A loop is followed round by round;
each round takes a token, so the number of tokens never ends a loop before its test does.
-/
namespace SqlAudit

namespace Lexeme

/-- An unquoted name with this spelling in any case. -/
def Means (lexeme : Lexeme) (spelling : String) : Prop :=
  (TokenClass.words [spelling]).holds lexeme = true

instance (lexeme : Lexeme) (spelling : String) : Decidable (lexeme.Means spelling) :=
  inferInstanceAs (Decidable (_ = true))

theorem Means.exists {lexeme : Lexeme} {spelling : String} (means : lexeme.Means spelling) :
    ∃ text, lexeme = .word text ∧ Text.capitals text = spelling := by
  cases lexeme with
  | word text => exact ⟨text, rfl, by simpa [Means, TokenClass.holds] using means⟩
  | _ => cases means

/-- A name, quoted or not. -/
def IsName (lexeme : Lexeme) : Prop :=
  (TokenClass.anyWord.holds lexeme || TokenClass.quoted.holds lexeme) = true

instance (lexeme : Lexeme) : Decidable lexeme.IsName := inferInstanceAs (Decidable (_ = true))

variable {lexeme : Lexeme}

theorem IsName.cases (named : lexeme.IsName) :
    (∃ text, lexeme = .word text) ∨ ∃ name, lexeme = .quoted name := by
  cases lexeme with
  | word text => exact .inl ⟨text, rfl⟩
  | quoted name => exact .inr ⟨name, rfl⟩
  | _ => cases named

theorem IsName.not_symbols (named : lexeme.IsName) (ss : List Symbol) :
    (TokenClass.symbols ss).holds lexeme = false := by
  cases lexeme with
  | symbol s => cases named
  | _ => rfl

theorem IsName.not_keywords (named : lexeme.IsName) (ks : List Keyword) :
    (TokenClass.keywords ks).holds lexeme = false := by
  cases lexeme with
  | keyword k => cases named
  | _ => rfl

/-- Neither a parenthesis nor anything that a group cannot go on over. -/
def IsPlain (lexeme : Lexeme) : Prop :=
  (TokenClass.symbols [.openParen, .closeParen, .semicolon]).holds lexeme = false ∧
    TokenClass.finish.holds lexeme = false ∧ TokenClass.invalid.holds lexeme = false

instance (lexeme : Lexeme) : Decidable lexeme.IsPlain := inferInstanceAs (Decidable (_ ∧ _ ∧ _))

end Lexeme

/-- How a name is stored: its parts in lowercase unless they are quoted, and the dots between them. -/
def dotted : List Lexeme → String
  | [] => ""
  | lexeme :: lexemes => Spelling.lowered.of lexeme ++ dotted lexemes

/-- Further names, each after a dot. -/
inductive IsTail : List Lexeme → Prop
  | nil : IsTail []
  | cons {name : Lexeme} {lexemes : List Lexeme} (named : name.IsName) (rest : IsTail lexemes) :
      IsTail (.symbol .dot :: name :: lexemes)

/-- A name, perhaps with those of what it belongs to. -/
structure QualifiedName where
  first : Lexeme
  tail : List Lexeme
  named : first.IsName
  rest : IsTail tail

namespace QualifiedName

def lexemes (q : QualifiedName) : List Lexeme := q.first :: q.tail

/-- The node of a name, without its place. -/
def node (q : QualifiedName) : Node := .leaf .qualifiedName ⟨0, 0⟩ (dotted q.lexemes)

end QualifiedName

/-- A number with a sign or without one. -/
inductive IsSigned : List Lexeme → Prop
  | plain (text : String) : IsSigned [.number text]
  | minus (text : String) : IsSigned [.symbol .minus, .number text]
  | plus (text : String) : IsSigned [.symbol .plus, .number text]

/-- What can stand in parentheses: within it they are balanced and no statement ends. -/
inductive IsBalanced : List Lexeme → Prop
  | nil : IsBalanced []
  | plain {lexeme : Lexeme} {lexemes : List Lexeme} (plain : lexeme.IsPlain)
      (rest : IsBalanced lexemes) : IsBalanced (lexeme :: lexemes)
  | group {inner lexemes : List Lexeme} (inside : IsBalanced inner) (rest : IsBalanced lexemes) :
      IsBalanced (.symbol .openParen :: inner ++ .symbol .closeParen :: lexemes)

namespace Grammar

variable {call : Nonterminal → Frame → Cursor → Reading} {a : Grammar} {test : Test}
  {f g : Frame} {c d : Cursor} {lexemes : List Lexeme} {kind : NodeKind}

/-- Rounds of a loop, each of which takes a token, up to where its test fails. -/
inductive Rounds (call : Nonterminal → Frame → Cursor → Reading) (test : Test) (a : Grammar) :
    Frame → Cursor → Frame → Cursor → Prop
  | done {f : Frame} {c : Cursor} (stops : test.holds f c = false) : Rounds call test a f c f c
  | round {f g h : Frame} {c d e : Cursor} (goes : test.holds f c = true)
      (reads : read call a f c = .ok (g, d)) (onward : d.rest.length < c.rest.length)
      (others : Rounds call test a g d h e) : Rounds call test a f c h e

theorem read_rounds (rounds : Rounds call test a f c g d) :
    read call (.loop test a) f c = .ok (g, d) := by
  have all : ∀ left : List Token, c.rest.length < left.length →
      repeatWhile test (read call a) left f c = .ok (g, d) := by
    induction rounds with
    | done stops =>
        intro left enough
        cases left <;> simp [repeatWhile, stops]
    | round goes reads onward others ih =>
        intro left enough
        cases left with
        | nil => exact absurd enough (Nat.not_lt_zero _)
        | cons token left =>
            rw [repeatWhile, if_pos goes, reads]
            rw [List.length_cons] at enough
            exact ih left (by omega)
  rw [read]
  exact all _ (Nat.lt_succ_self _)

theorem read_then {b : Grammar} {h : Frame} {e : Cursor} (first : read call a f c = .ok (g, d))
    (second : read call b g d = .ok (h, e)) : read call (a ++ b) f c = .ok (h, e) :=
  (read_append first).trans second

/-- From `c` to `d` the grammar reads one node, of which `P` holds. -/
def ReadsNode (call : Nonterminal → Frame → Cursor → Reading) (a : Grammar) (P : Node → Prop)
    (c d : Cursor) : Prop :=
  ∃ node, P node ∧ ∀ f, read call a f c = .ok (f.push node, d)

/-- A node of this kind that has no parts. -/
def IsLeaf (kind : NodeKind) (node : Node) : Prop := node.kind = kind ∧ node.children = []

/-- A leaf of this value. -/
def IsLeafOf (kind : NodeKind) (value : String) (node : Node) : Prop :=
  ∃ span, node = .leaf kind span value

theorem IsLeafOf.isLeaf {value : String} {node : Node} (leaf : IsLeafOf kind value node) :
    IsLeaf kind node := by
  obtain ⟨span, rfl⟩ := leaf
  exact ⟨rfl, rfl⟩

/-- What is read into a node of its own without parts makes a leaf. -/
theorem readsNode_leaf (value : Option String) (inner : read call a (.opened (some kind) c) c =
    .ok ({ Frame.opened (some kind) c with value := value }, d)) :
    ReadsNode call (.node kind a) (IsLeaf kind) c d :=
  ⟨_, ⟨rfl, rfl⟩, fun _ => read_node inner⟩

variable (test) in
/-- What reads nothing can as well be left out. -/
theorem read_whenever_nothing (nothing : read call a f c = .ok (f, c)) :
    read call (whenever test a) f c = .ok (f, c) := by
  rw [whenever, read]
  split
  · exact nothing
  · rw [read]

/-- A name where one is expected, whatever is said of its absence. -/
theorem read_lowered (named : c.current.lexeme.IsName) :
    read call (.branch anyName (takeAs .lowered) a) f c =
      .ok (f.write (Spelling.lowered.of c.current.lexeme), c.advance) := by
  have goes : anyName.holds f c = true := named
  rw [read_yes goes]
  rfl

theorem read_name (named : c.current.lexeme.IsName) : read call name f c =
    .ok (f.write (Spelling.lowered.of c.current.lexeme), c.advance) :=
  read_lowered named

@[simp] theorem write_write (f : Frame) (first second : String) :
    (f.write first).write second = f.write (first ++ second) := by
  simp [Frame.write, String.append_assoc]

variable (call) in
theorem tail_rounds (tail : IsTail lexemes) (passes : c.Passes lexemes d)
    (ends : (TokenClass.symbols [.dot]).holds d.current.lexeme = false) (f : Frame)
    (text : String) : Rounds call (symbol .dot) (.take ++ .write "." ++ name) (f.write text) c
      (f.write (text ++ dotted lexemes)) d := by
  induction tail generalizing c text with
  | nil =>
      cases passes
      rw [dotted, String.append_empty]
      exact .done ends
  | @cons name lexemes named rest ih =>
      obtain ⟨dot, more, here, others, passes⟩ := passes
      have rounds := ih passes (text ++ "." ++ Spelling.lowered.of name)
      have spelled : text ++ dotted (.symbol .dot :: name :: lexemes) =
          text ++ "." ++ Spelling.lowered.of name ++ dotted lexemes := by
        simp [dotted, Spelling.of, Lexeme.text, Lexeme.describe, Symbol.text, String.append_assoc]
      rw [spelled]
      refine .round ?_ ?_ ?_ rounds
      · simp [symbol, Test.holds, dot, TokenClass.holds]
      · rw [← here] at named ⊢
        simp [append_eq_seq, read, read_name named]
      · have first := Cursor.advance_shorter more
        have second := Cursor.advance_shorter others
        omega

variable (call) in
theorem read_dottedName {name : Lexeme} (named : name.IsName) (tail : IsTail lexemes)
    (passes : c.Passes (name :: lexemes) d)
    (ends : (TokenClass.symbols [.dot]).holds d.current.lexeme = false) (f : Frame) :
    read call dottedName f c = .ok (f.write (dotted (name :: lexemes)), d) := by
  obtain ⟨here, -, passes⟩ := passes
  rw [← here] at named ⊢
  have rounds := tail_rounds call tail passes ends f (Spelling.lowered.of c.current.lexeme)
  rw [dottedName, read_append (read_name named), read_rounds rounds]
  rfl

variable (call) in
theorem reads_qualifiedName {name : Lexeme} (named : name.IsName) (tail : IsTail lexemes)
    (passes : c.Passes (name :: lexemes) d)
    (ends : (TokenClass.symbols [.dot]).holds d.current.lexeme = false) :
    ReadsNode call qualifiedName (IsLeafOf .qualifiedName (dotted (name :: lexemes))) c d := by
  have inner := read_dottedName call named tail passes ends
    (.opened (some .qualifiedName) c)
  refine ⟨_, ⟨⟨c.current.span.start, max d.previous.stop c.current.span.start⟩, ?_⟩,
    fun f => read_node inner⟩
  simp [Frame.opened, Frame.write, Node.leaf]

variable (call) in
theorem reads_signedNumber (signed : IsSigned lexemes) (passes : c.Passes lexemes d) :
    ReadsNode call signedNumber (IsLeaf .literal) c d := by
  cases signed with
  | plain text =>
      obtain ⟨here, -, rfl⟩ := passes
      refine readsNode_leaf (some text) ?_
      simp [append_eq_seq, read, symbol, accept, whenever, takeAs, Test.holds, here,
        TokenClass.holds, Spelling.of, Lexeme.text, Frame.write, Frame.opened]
  | minus text =>
      obtain ⟨sign, -, here, -, rfl⟩ := passes
      refine readsNode_leaf (some ("-" ++ text)) ?_
      simp [append_eq_seq, read, symbol, takeAs, Test.holds, sign, here,
        TokenClass.holds, Spelling.of, Lexeme.text, Frame.write, Frame.opened]
  | plus text =>
      obtain ⟨sign, -, here, -, rfl⟩ := passes
      refine readsNode_leaf (some text) ?_
      simp [append_eq_seq, read, symbol, accept, whenever, takeAs, Test.holds, sign, here,
        TokenClass.holds, Spelling.of, Lexeme.text, Frame.write, Frame.opened]

/-- What a group repeats up to its closing parenthesis. -/
def groupStep : Grammar :=
  choose [(symbol .openParen, group), (terminator ||| invalid, .fail ")")] .take

theorem read_plain (plain : c.current.lexeme.IsPlain) :
    (~~~symbol .closeParen).holds f c = true ∧
      read call groupStep f c = .ok (f, c.advance) := by
  obtain ⟨parens, finish, invalid⟩ := plain
  cases current : c.current.lexeme with
  | symbol s =>
      rw [current] at parens
      cases s <;>
        simp_all [groupStep, choose, read, symbol, terminator, Grammar.invalid, Test.holds,
          TokenClass.holds]
  | _ =>
      simp_all [groupStep, choose, read, symbol, terminator, Grammar.invalid, Test.holds,
        TokenClass.holds]

/-- A group is read where its rounds are, by the rule that is left for groups within it. -/
theorem read_group (token : Token) {left : List Token}
    (opens : c.current.lexeme = .symbol .openParen)
    (rounds : Rounds (callRule rules left) (~~~symbol .closeParen) groupStep f c.advance f d)
    (closed : d.current.lexeme = .symbol .closeParen) :
    callRule rules (token :: left) .group f c = .ok (f, d.advance) := by
  have opened : read (callRule rules left) (expectSymbol .openParen) f c = .ok (f, c.advance) := by
    rw [expectSymbol, expect,
      read_yes (by simp [symbol, Test.holds, opens, TokenClass.holds]), read]
  have body : read (callRule rules left) (expectSymbol .openParen ++
      .loop (~~~symbol .closeParen) groupStep) f c = .ok (f, d) :=
    (read_append opened).trans (read_rounds rounds)
  rw [callRule, rules, groupRule, inParens, ← groupStep, read_append body, expectSymbol, expect,
    read_yes (by simp [symbol, Test.holds, closed, TokenClass.holds]), read]

theorem group_rounds (balanced : IsBalanced lexemes) {left : List Token}
    (passes : c.Passes lexemes d) (closed : d.current.lexeme = .symbol .closeParen)
    (enough : c.rest.length < left.length) :
    Rounds (callRule rules left) (~~~symbol .closeParen) groupStep f c f d := by
  induction balanced generalizing c d left f with
  | nil =>
      cases passes
      exact .done (by simp [symbol, Test.holds, closed, TokenClass.holds])
  | plain plain rest ih =>
      obtain ⟨here, more, passes⟩ := passes
      have onward := Cursor.advance_shorter more
      rw [← here] at plain
      obtain ⟨goes, reads⟩ := read_plain (f := f) plain
      exact .round goes reads onward (ih passes closed (by omega))
  | group inside rest ihInside ihRest =>
      obtain ⟨e, ⟨opens, more, passes⟩, close, others, later⟩ := Cursor.passes_append.mp passes
      have first := Cursor.advance_shorter more
      have inner := passes.length
      have last := Cursor.advance_shorter others
      cases left with
      | nil => exact absurd enough (Nat.not_lt_zero _)
      | cons token left =>
          rw [List.length_cons] at enough
          have fewer : c.advance.rest.length < left.length := by omega
          have called := read_group (f := f) token opens (ihInside passes close fewer) close
          refine .round ?_ ?_ ?_ (ihRest later closed ?_)
          · simp [symbol, Test.holds, opens, TokenClass.holds]
          · rw [groupStep, choose, read_yes (by simp [symbol, Test.holds, opens, TokenClass.holds]),
              group, read, called]
          · omega
          · rw [List.length_cons]
            omega

/-- A group in parentheses is passed over. -/
theorem read_balanced (balanced : IsBalanced lexemes) {left : List Token}
    (passes : c.Passes (.symbol .openParen :: lexemes ++ [.symbol .closeParen]) d)
    (enough : c.rest.length < left.length) :
    read (callRule rules left) group f c = .ok (f, d) := by
  obtain ⟨e, ⟨opens, more, inner⟩, closed, -, rfl⟩ := Cursor.passes_append.mp passes
  have onward := Cursor.advance_shorter more
  cases left with
  | nil => exact absurd enough (Nat.not_lt_zero _)
  | cons token left =>
      rw [List.length_cons] at enough
      rw [group, read]
      exact read_group token opens (group_rounds balanced inner closed (by omega)) closed

end Grammar
end SqlAudit
