import SqlAudit.Proofs.Grammar.Infix
import SqlAudit.Proofs.Grammar.Respelling
import SqlAudit.Proofs.Script.Phrases
import SqlAudit.Proofs.Script.Subqueries
import SqlAudit.Proofs.Token.Spelling
/-!
The operators of a text. Those with a name of their own can stand for each other wherever one is
read, so the operators that match regular expressions without regard to case or that deny a match
are read alike. The sign of a plain match is none of them: it is only read in front of an operand.
-/
namespace SqlAudit

/-- Every operator of a text is a sign, and none is the sign of a plain match. -/
theorem tokenize_operator (d : Dialect) (text : String) :
    ∀ token ∈ tokenize d text, ∀ o, token.lexeme = .operator o → IsSign o ∧ o ≠ "~" := by
  have spelled : ∀ entry ∈ Lexer.spellings, ∀ o, entry.2 = .operator o → IsSign o ∧ o ≠ "~" := by
    simp [Lexer.spellings, IsSign, Text.isWords]
  have lexes := tokenize_lexes d text
  generalize tokenize d text = tokens, text.toList = chars, 0 = offset at lexes
  induction lexes with
  | finish layout => simp
  | token layout more ih =>
      refine List.forall_mem_cons.mpr ⟨fun o operator => ?_, ih⟩
      obtain ⟨spelling, member⟩ := Lexer.scan_operator operator
      exact spelled _ member o rfl

/-- The same lexemes, as far as there are any. -/
theorem TokensRespelled.of_same {o o' : String} {xs ys : List Token} (some : xs ≠ [])
    (same : ys.map (·.lexeme) = xs.map (·.lexeme)) : TokensRespelled o o' 0 xs ys := by
  induction xs generalizing ys with
  | nil => exact absurd rfl some
  | cons x xs ih =>
      obtain ⟨y, ys, rfl, first, others⟩ := List.map_eq_cons_iff.mp same
      cases xs with
      | nil =>
          obtain rfl := List.map_eq_nil_iff.mp others
          exact .last first
      | cons z zs => exact .cons (m := 0) (n := 0) (first ▸ .same _) (ih nofun others)

/-- The same lexemes but for one operator, which is not the last one. -/
theorem TokensRespelled.of_lexemes {o o' : String} {lo hi : Nat} {before after : List Lexeme}
    {xs ys : List Token} (ordered : InOrder lo hi xs)
    (reads : xs.map (·.lexeme) = before ++ .operator o :: after)
    (other : ys.map (·.lexeme) = before ++ .operator o' :: after) :
    TokensRespelled o o' 1 xs ys := by
  induction before generalizing lo xs ys with
  | nil =>
      obtain ⟨x, xs, rfl, first, others⟩ := List.map_eq_cons_iff.mp reads
      obtain ⟨y, ys, rfl, first', others'⟩ := List.map_eq_cons_iff.mp other
      have more : xs ≠ [] := fun last => by
        cases first.symm.trans (ordered.finish_iff.mpr last)
      have one : x.lexeme.Respelled o o' 1 y.lexeme := by
        rw [first, first']
        exact .operator
      exact .cons one (.of_same more (others'.trans others.symm))
  | cons lexeme before ih =>
      obtain ⟨x, xs, rfl, first, others⟩ := List.map_eq_cons_iff.mp reads
      obtain ⟨y, ys, rfl, first', others'⟩ := List.map_eq_cons_iff.mp other
      have more : xs ≠ [] := by
        rintro rfl
        simp at others
      have same : x.lexeme.Respelled o o' 0 y.lexeme := by
        rw [first, first']
        exact .same _
      exact .cons (m := 0) same (ih (ordered.tail more).2 others others')

namespace Script

variable {o o' : String} {n : Nat} {c d c' : Cursor}

theorem readStatement_respelled {node : Node} (sign : IsSign o) (sign' : IsSign o')
    (cursor : Cursor.Respelled o o' n c c') (read : readStatement c = .ok (node, d)) :
    ∃ node' d' i k, i + k = n ∧ readStatement c' = .ok (node', d') ∧
      node.Respelled o o' i node' ∧ Cursor.Respelled o o' k d d' := by
  have calls := Grammar.callRule_respelled sign sign' cursor.tokens.length
  rw [readStatement] at read
  split at read <;> cases read
  rename_i ok
  obtain ⟨⟨_, _, _, parts⟩, d', ok', i, k, sum, frame, cursor'⟩ :=
    Grammar.read_respelled sign sign' calls Grammar.statement Grammar.steady_statement
      (absurd · Bool.false_ne_true) ⟨0, n, Nat.zero_add n, .opened none c c', cursor⟩ ok
  obtain ⟨-, p, q, rfl, -, shared⟩ := frame
  cases shared with
  | @cons r s _ node' _ _ first others =>
      refine ⟨node', d', r, s + p + k, by omega, ?_, first, cursor'.mono (by omega)⟩
      rw [readStatement, Grammar.run, ok']

theorem readComplete_respelled {node : Node} (sign : IsSign o) (sign' : IsSign o')
    (cursor : Cursor.Respelled o o' n c c') (read : readComplete c = .ok (node, d)) :
    ∃ node' d' i k, i + k = n ∧ readComplete c' = .ok (node', d') ∧
      node.Respelled o o' i node' ∧ Cursor.Respelled o o' k d d' := by
  rw [readComplete] at read
  split at read
  · rename_i own e found
    split at read <;> cases read
    rename_i ends
    obtain ⟨node', d', i, k, sum, found', same, cursor'⟩ :=
      readStatement_respelled sign sign' cursor found
    refine ⟨node', d', i, k, sum, ?_, same, cursor'⟩
    rw [readComplete, found']
    have lexeme : d'.current.lexeme = d.current.lexeme :=
      cursor'.current.eq_of_other fun text operator => by
        rw [operator] at ends
        cases ends
    dsimp only
    rw [lexeme, if_pos ends]
  · cases read

theorem isTerminator_respelled {x y : Lexeme} (respelled : x.Respelled o o' n y) :
    isTerminator y = isTerminator x := by
  cases respelled <;> rfl

/-- Statements without errors are read alike one after another. -/
theorem statements_respelled (sign : IsSign o) (sign' : IsSign o') (fuel : Nat)
    (cursor : Cursor.Respelled o o' n c d) (clean : (statements fuel c).2 = []) :
    (statements fuel d).2 = [] ∧
      Shared (Node.Respelled o o') n (statements fuel c).1 (statements fuel d).1 := by
  induction fuel generalizing c d n with
  | zero => exact ⟨rfl, .nil⟩
  | succ fuel ih =>
      have lexeme := cursor.current
      cases ends : isTerminator c.current.lexeme with
      | true =>
          have same := lexeme.eq_of_other fun text operator => by
            rw [operator] at ends
            cases ends
          rcases (isTerminator_iff _).mp ends with semicolon | finish
          · rw [statements, semicolon] at clean
            rw [statements, statements, same, semicolon]
            exact ih (cursor.advance_of_eq same) clean
          · rw [statements, statements, same, finish]
            exact ⟨rfl, .nil⟩
      | false =>
          have goes := (isTerminator_respelled lexeme).trans ends
          rw [statements_readOne fuel ends] at clean ⊢
          rw [statements_readOne fuel goes]
          cases found : readComplete { c with depth := 0 } with
          | error error =>
              rw [readOne, found] at clean
              cases clean
          | ok result =>
              obtain ⟨node, b⟩ := result
              obtain ⟨node', b', i, k, rfl, found', first, cursor'⟩ :=
                readComplete_respelled sign sign' (cursor.turn 0) found
              have one : readOne c = (node, none, b) := by rw [readOne, found]
              have two : readOne d = (node', none, b') := by rw [readOne, found']
              rw [one] at clean ⊢
              obtain ⟨errors, nodes⟩ := ih cursor' clean
              rw [two]
              exact ⟨errors, .cons first nodes⟩

theorem ofTokens_respelled {tokens tokens' : List Token}
    (respelled : TokensRespelled o o' n tokens tokens') :
    Cursor.Respelled o o' n (.ofTokens tokens) (.ofTokens tokens') := by
  cases respelled with
  | last same => exact ⟨.last same, rfl⟩
  | cons first others => exact ⟨.cons first others, rfl⟩

theorem Statement.notBy {size : Nat} {node : Node} (read : Statement size c node d)
    (absent : ∀ token ∈ c.tokens, token.lexeme ≠ .operator "~") :
    node.Every (Node.IsNotBy "~") := by
  apply read.of_derives
  intro g derives part member
  exact (Grammar.derives_notBy derives absent (.inl Grammar.statement_tells)).2
    (all_opened _ none c) part member

/-- No text is read as a plain match. -/
theorem read_notBy (d : Dialect) (text : String) :
    (read d text).root.Every (Node.IsNotBy "~") := by
  refine Node.every_iff.mpr ⟨nofun, fun node member => ?_⟩
  rcases read_statement d text node member with
    ⟨span, value, rfl⟩ | ⟨original, c, e, rfl, inside, start, read⟩
  · exact ⟨nofun, trivial⟩
  · have absent : ∀ token ∈ c.tokens, token.lexeme ≠ .operator "~" :=
      fun token member operator =>
        (tokenize_operator d text token (inside.mem member) _ operator).2 rfl
    refine every_nameOptions text.toList ?_ original (read.notBy absent)
    intro part other binary
    rw [nameOptions_kind] at binary
    rw [nameOptions_value _ (by simp [binary])]
    exact other binary

end Script

/-- Two operators with names of their own can stand for each other: if the one is read without errors
at some place, then so is the other one there, and the trees are the same but for the places of their
nodes, the texts of routine options and that operator in the one value it is written to. The sign of a
plain match is no such operator, and no binary expression of any text has it. -/
theorem operators_interchangeable (d : Dialect) {o o' : String} {before after : List Lexeme}
    {a b : String} (reads : (tokenize d a).map (·.lexeme) = before ++ .operator o :: after)
    (other : (tokenize d b).map (·.lexeme) = before ++ .operator o' :: after)
    (complete : (Script.read d a).errors = []) :
    (Script.read d b).errors = [] ∧
      (Script.read d a).root.unplaced.Respelled o o' 1 (Script.read d b).root.unplaced ∧
      ∀ c : String, (Script.read d c).root.Every (Node.IsNotBy "~") := by
  have isSign (text : String) {o : String}
      (has : Lexeme.operator o ∈ (tokenize d text).map (·.lexeme)) : IsSign o := by
    obtain ⟨token, member, operator⟩ := List.mem_map.mp has
    exact (tokenize_operator d text token member o operator).1
  have sign : IsSign o := isSign a (by rw [reads]; simp)
  have sign' : IsSign o' := isSign b (by rw [other]; simp)
  have tokens := TokensRespelled.of_lexemes (tokenize_inOrder d a) reads other
  obtain ⟨errors, nodes⟩ := Script.statements_respelled sign sign' ((tokenize d a).length + 1)
    (Script.ofTokens_respelled tokens) complete
  rw [tokens.length] at errors nodes
  refine ⟨errors, ?_, Script.read_notBy d⟩
  rw [Script.read, Script.read, Script.unplaced_nameOptions, Script.unplaced_nameOptions]
  have root : Node.Respelled o o' 1
      (Script.ofTokens a.utf8ByteSize (tokenize d a)).root
      (Script.ofTokens b.utf8ByteSize (tokenize d b)).root := by
    rw [Script.ofTokens, Script.ofTokens, tokens.length]
    exact .node (m := 0) (n := 1) .none nodes
  exact root.unplaced

/-- A match without regard to case and a denied one. -/
theorem match_denied :
    let before : List Lexeme := [.keyword .SELECT, .word "a"]
    let after : List Lexeme := [.word "b", .finish]
    (tokenize .postgres "SELECT a ~* b").map (·.lexeme) = before ++ .operator "~*" :: after ∧
      (tokenize .postgres "SELECT a !~ b").map (·.lexeme) = before ++ .operator "!~" :: after ∧
      (Script.read .postgres "SELECT a ~* b").errors = [] ∧
      (Script.read .postgres "SELECT a !~ b").errors = [] := by
  intro before after
  have tokens : (tokenize .postgres "SELECT a ~* b").map (·.lexeme) =
      before ++ .operator "~*" :: after := by decide +kernel
  have tokens' : (tokenize .postgres "SELECT a !~ b").map (·.lexeme) =
      before ++ .operator "!~" :: after := by decide +kernel
  have complete : (Script.read .postgres "SELECT a ~* b").errors = [] := by decide +kernel
  exact ⟨tokens, tokens', complete, (operators_interchangeable _ tokens tokens' complete).1⟩

/-- The sign of a plain match, which is also written before an operand, is not read between two. -/
theorem plain_match_unread :
    (Script.read .postgres "SELECT a~*b").errors = [] ∧
      (Script.read .postgres "SELECT a ~ b").errors =
        [⟨.unexpected "; or end of input" "~", ⟨9, 10⟩⟩] ∧
      (Script.read .postgres "SELECT ~ b").errors = [] :=
  ⟨by decide +kernel, by decide +kernel, by decide +kernel⟩

end SqlAudit
