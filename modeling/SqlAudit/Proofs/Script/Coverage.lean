import Mathlib.Data.List.Pairwise
import SqlAudit.Proofs.Script.Nesting
/-!
No text is dropped. The statements of a script are not empty and follow one another from the start
of a token each; every token but a semicolon and the end of the text lies within one of them, so all
that stands outside of them is semicolons and layout.
-/
namespace SqlAudit

namespace Script

variable {size : Nat} {c d : Cursor} {nodes : List Node} {errors : List SyntaxError}

/-- Statements that take in the tokens from a cursor on. -/
structure Covers (c : Cursor) (nodes : List Node) : Prop where
  begins : ∀ node ∈ nodes, node.span.start < node.span.stop ∧
    ∃ token ∈ c.tokens, token.span.start = node.span.start
  tokens : ∀ token ∈ c.tokens, isTerminator token.lexeme = false →
    ∃ node ∈ nodes, node.span.contains token.span = true

/-- A statement takes in the tokens up to where the next one is looked for. -/
theorem covers_cons {node : Node} (ordered : c.Ordered size)
    (starts : isTerminator c.current.lexeme = false) (path : Path (fun _ => True) c d)
    (moved : d.rest.length < c.rest.length)
    (span : node.span = ⟨c.current.span.start, d.previous.stop⟩) (rest : Covers d nodes) :
    Covers c (node :: nodes) := by
  obtain ⟨front, split⟩ := path.suffix
  have passed := path.previous_stop_le ordered moved
  have nonempty := ordered.current_nonempty (ne_finish starts)
  constructor
  · intro n member
    rcases List.mem_cons.mp member with rfl | later
    · rw [span]
      exact ⟨nonempty.trans_le passed, c.current, .head _, rfl⟩
    · obtain ⟨some, token, inside, start⟩ := rest.begins n later
      exact ⟨some, token, path.suffix.mem inside, start⟩
  · intro token member other
    rw [← split] at member
    rcases List.mem_append.mp member with here | later
    · have bounds := path.passed ordered split.symm token here
      exact ⟨node, .head _, by simp [span, Span.contains, bounds]⟩
    · obtain ⟨n, inside, contains⟩ := rest.tokens token later other
      exact ⟨n, .tail _ inside, contains⟩

theorem reads_covers (reads : Reads size c nodes errors) (ordered : c.Ordered size) :
    Covers c nodes := by
  induction reads with
  | @finish c last =>
      refine ⟨by simp, ?_⟩
      intro token member other
      rw [Cursor.tokens, ordered.finish_iff.mp last, List.mem_singleton] at member
      rw [member] at other
      simp [isTerminator, last] at other
  | @semicolon c nodes errors here rest ih =>
      have covers := ih ordered.advance
      have split := Cursor.tokens_advance (ordered.more (by simp [here]))
      constructor
      · intro node member
        obtain ⟨some, token, inside, start⟩ := covers.begins node member
        exact ⟨some, token, split ▸ .tail _ inside, start⟩
      · intro token member other
        rw [split] at member
        rcases List.mem_cons.mp member with rfl | later
        · simp [isTerminator, here] at other
        · exact covers.tokens token later other
  | statement starts read ends rest ih =>
      have after := read.path.ordered ordered
      exact covers_cons ordered starts read.passes read.moved read.span (ih after)
  | region starts read ends rest ih =>
      have after := read.passes.ordered ordered
      exact covers_cons ordered starts read.passes read.moved (by rw [read.region]; rfl) (ih after)

theorem tokenize_ne_nil (d : Dialect) (text : String) : tokenize d text ≠ [] := by
  intro none
  have ordered := tokenize_inOrder d text
  rw [none] at ordered
  cases ordered

theorem read_covers (d : Dialect) (text : String) :
    Covers (.ofTokens (tokenize d text)) (read d text).root.children := by
  obtain ⟨ordered, reads⟩ := tokenize_reads d text
  obtain ⟨begins, tokens⟩ := reads_covers reads ordered
  rw [read_children]
  constructor
  · intro node member
    obtain ⟨original, inside, rfl⟩ := List.mem_map.mp member
    rw [nameOptions_span]
    exact begins original inside
  · intro token member other
    obtain ⟨node, inside, contains⟩ := tokens token member other
    exact ⟨_, List.mem_map_of_mem inside, by rwa [nameOptions_span]⟩

/-- A span with something in it lies in one node at most of those that follow one another. -/
theorem contains_unique {nodes : List Node}
    (apart : nodes.Pairwise fun first second => first.span.stop ≤ second.span.start)
    {span : Span} (some : span.start < span.stop) {first second : Node} (left : first ∈ nodes)
    (right : second ∈ nodes) (inFirst : first.span.contains span = true)
    (inSecond : second.span.contains span = true) : first = second := by
  simp only [Span.contains, Bool.and_eq_true, decide_eq_true_eq] at inFirst inSecond
  by_contra other
  let Apart (a b : Node) : Prop := a.span.stop ≤ b.span.start ∨ b.span.stop ≤ a.span.start
  have symmetric : Std.Symm Apart := ⟨fun _ _ => Or.symm⟩
  have either : nodes.Pairwise Apart := apart.imp .inl
  rcases either.forall left right other with before | after <;> omega

end Script

/-- The statements of a script are not empty, follow one another and start where a token does; each
token but a semicolon and the end of the text lies within exactly one of them, and what stands
outside of all of them belongs to a semicolon or is layout. -/
theorem statements_cover_text (d : Dialect) (text : String) :
    (∀ statement ∈ (Script.read d text).root.children,
      statement.span.start < statement.span.stop ∧
      ∃ token ∈ tokenize d text, token.span.start = statement.span.start) ∧
    ((Script.read d text).root.children.Pairwise fun first second =>
      first.span.stop ≤ second.span.start) ∧
    (∀ token ∈ tokenize d text, token.lexeme ≠ .symbol .semicolon → token.lexeme ≠ .finish →
      ∃! statement, statement ∈ (Script.read d text).root.children ∧
        statement.span.contains token.span = true) ∧
    ∀ place < text.utf8ByteSize,
      (∀ statement ∈ (Script.read d text).root.children,
        ¬ (statement.span.start ≤ place ∧ place < statement.span.stop)) →
      (∃ token ∈ tokenize d text, token.lexeme = .symbol .semicolon ∧
        token.span.start ≤ place ∧ place < token.span.stop) ∨
      Lexer.InLayout text.toList place := by
  have covers := Script.read_covers d text
  have same := Script.tokens_ofTokens (Script.tokenize_ne_nil d text)
  have apart := Node.row_pairwise ((Node.nested_iff_row _).mp (Script.read_nested d text))
  have within : ∀ token ∈ tokenize d text, token.lexeme ≠ .symbol .semicolon →
      token.lexeme ≠ .finish → ∃ statement ∈ (Script.read d text).root.children,
        statement.span.contains token.span = true := by
    intro token member notSemicolon notFinish
    refine covers.tokens token (same ▸ member) ?_
    simpa [Script.isTerminator] using ⟨notSemicolon, notFinish⟩
  refine ⟨?_, apart, ?_, ?_⟩
  · intro statement member
    have begins := covers.begins statement member
    rwa [same] at begins
  · intro token member notSemicolon notFinish
    obtain ⟨statement, inside, contains⟩ := within token member notSemicolon notFinish
    refine ⟨statement, ⟨inside, contains⟩, ?_⟩
    rintro other ⟨also, alsoContains⟩
    have nonempty := (tokenize_inOrder d text).nonempty token member notFinish
    exact Script.contains_unique apart nonempty also inside alsoContains contains
  · intro place inside outside
    rw [← Lexer.size_toList] at inside
    rcases (tokenize_lexes d text).locate inside with
      ⟨token, member, notFinish, lower, upper⟩ | layout
    · rw [Nat.zero_add] at lower upper
      by_cases semicolon : token.lexeme = .symbol .semicolon
      · exact .inl ⟨token, member, semicolon, lower, upper⟩
      · obtain ⟨statement, among, contains⟩ := within token member semicolon notFinish
        simp only [Span.contains, Bool.and_eq_true, decide_eq_true_eq] at contains
        exact absurd ⟨by omega, by omega⟩ (outside statement among)
    · exact .inr layout

end SqlAudit
