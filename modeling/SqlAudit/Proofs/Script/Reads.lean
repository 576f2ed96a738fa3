import SqlAudit.Proofs.Grammar.Derivation
import SqlAudit.Proofs.Grammar.Nesting
import SqlAudit.Proofs.Grammar.Whole
import SqlAudit.Script
/-!
A script read statement by statement. `Reads` follows the loop over the statements without its
bound: each statement is one node or one region that was given up, it spans everything from its
first token to the last one before the next terminator it stops at, and the loop goes on from there.
-/
namespace SqlAudit

namespace Script

/-- The tokens of a statement, as far as the text goes. -/
def range (size : Nat) (c : Cursor) : Range := ⟨c.tokens, size, 0⟩

/-- Pieces of text that are no token are only passed where the grammar does not look. -/
def Lexical (size : Nat) (c : Cursor) : Cursor → Prop := Guard .lexical (range size c)

def Skipped (c : Cursor) : Prop := isTerminator c.current.lexeme = false

/-- A node that was read from `c` up to `d`, as the grammar has it from depth zero on. -/
structure Statement (size : Nat) (c : Cursor) (node : Node) (d : Cursor) : Prop where
  path : Path (Lexical size c) c d
  moved : d.rest.length < c.rest.length
  span : node.span = ⟨c.current.span.start, d.previous.stop⟩
  nested : node.Nested
  parsed : node.Every (·.kind ≠ .unparsed)
  derived : ∃ g, g.parts = [node] ∧ Grammar.Derives Grammar.rules Grammar.statement
    (.opened none c) { c with depth := 0 } g d

/-- A region from `c` up to `d` that was given up for an error met at `b`. -/
structure Region (size : Nat) (c : Cursor) (error : SyntaxError) (b : Cursor) (node : Node)
    (d : Cursor) : Prop where
  path : Path (Lexical size c) c b
  blamed : error.span = b.current.span
  skip : Path Skipped b d
  moved : d.rest.length < c.rest.length
  region : node = .leaf .unparsed ⟨c.current.span.start, d.previous.stop⟩ error.message

/-- What holds of all parts that a statement can be derived with holds of one that was read. -/
theorem Statement.of_derives {size : Nat} {c d : Cursor} {node : Node} {P : Node → Prop}
    (read : Statement size c node d)
    (holds : ∀ g, Grammar.Derives Grammar.rules Grammar.statement (.opened none c)
      { c with depth := 0 } g d → ∀ part ∈ g.parts, P part) : P node := by
  obtain ⟨g, single, derives⟩ := read.derived
  apply holds g derives
  rw [single]
  exact .head _

inductive Reads (size : Nat) : Cursor → List Node → List SyntaxError → Prop
  | finish {c : Cursor} (last : c.current.lexeme = .finish) : Reads size c [] []
  | semicolon {c : Cursor} {nodes : List Node} {errors : List SyntaxError}
      (here : c.current.lexeme = .symbol .semicolon) (rest : Reads size c.advance nodes errors) :
      Reads size c nodes errors
  | statement {c d : Cursor} {node : Node} {nodes : List Node} {errors : List SyntaxError}
      (starts : isTerminator c.current.lexeme = false) (read : Statement size c node d)
      (ends : isTerminator d.current.lexeme = true) (rest : Reads size d nodes errors) :
      Reads size c (node :: nodes) errors
  | region {c b d : Cursor} {error : SyntaxError} {node : Node} {nodes : List Node}
      {errors : List SyntaxError} (starts : isTerminator c.current.lexeme = false)
      (read : Region size c error b node d) (ends : isTerminator d.current.lexeme = true)
      (rest : Reads size d nodes errors) : Reads size c (node :: nodes) (error :: errors)

variable {size : Nat} {c d : Cursor}

theorem isTerminator_iff (lexeme : Lexeme) :
    isTerminator lexeme = true ↔ lexeme = .symbol .semicolon ∨ lexeme = .finish := by
  simp [isTerminator]

theorem ne_finish {lexeme : Lexeme} (goes : isTerminator lexeme = false) : lexeme ≠ .finish := by
  rintro rfl
  cases goes

/-- A statement, or an error about the token it was met at. -/
def Found (size : Nat) (c : Cursor) : Except (SyntaxError × Cursor) (Node × Cursor) → Prop
  | .ok (node, d) => Statement size c node d
  | .error (error, d) => Path (Lexical size c) c d ∧ error.span = d.current.span

theorem within_range (ordered : c.Ordered size) (depth : Nat) :
    Cursor.Within (range size c) { c with depth := depth } :=
  ⟨List.suffix_refl _, ordered, Nat.zero_le _⟩

theorem unbarred_lexical (c : Cursor) : Grammar.Unbarred .lexical (range size c) := by
  intro test member
  cases member

theorem readStatement_found (ordered : c.Ordered size) :
    Found size c (readStatement { c with depth := 0 }) := by
  have within := within_range ordered 0
  have frame : Frame.opened none { c with depth := 0 } = .opened none c := rfl
  generalize same : ({ c with depth := 0 } : Cursor) = b at within frame
  have lower : b.Ordered size := within.ordered
  have turn : Path (Lexical size c) c b := by rw [← same]; exact .turn .here 0
  have begins : b.current = c.current := by rw [← same]
  have left : b.rest = c.rest := by rw [← same]
  have lawful := Grammar.run_sound (unbarred_lexical c) (fun name _ => Grammar.lexical_rules name)
    Grammar.lexical_statement (.opened none b) b within
  have whole := Grammar.statement_oneNode (.opened none b) rfl b
  rw [readStatement]
  split <;> rename_i found <;> rw [found] at lawful whole
  · rename_i kind start value node parts d
    obtain ⟨steps, fits⟩ := lawful (Nat.zero_le _)
    obtain ⟨only, single, span⟩ := whole
    cases single
    have moved := fits.moved rfl
    have passed := steps.path.previous_stop_le lower moved
    have token := lower.current_span
    have stop : max d.previous.stop b.current.span.start = d.previous.stop :=
      Nat.max_eq_left (by omega)
    have fitted := steps_fitted steps lower (fitted_opened none b)
    have parsed := steps_parsed steps ⟨by simp [Frame.opened], all_opened _ none b⟩
    have derives := Grammar.run_derives rfl (unbarred_lexical c)
      (fun name _ => Grammar.lexical_rules name) Grammar.lexical_statement within found
    refine ⟨turn.trans steps.path, left ▸ moved, ?_, ?_, parsed.parts _ (.head _),
      ⟨kind, start, value, [node]⟩, rfl, ?_⟩
    · rw [span, stop, begins]
    · exact (Node.row_mem fitted.row _ (by simp)).1
    · rw [same, ← frame]
      exact derives
  · obtain ⟨only, single, span⟩ := whole
    cases single
  · obtain ⟨path, blamed⟩ := lawful (Nat.zero_le _)
    exact ⟨turn.trans path, blamed⟩

theorem readComplete_found (ordered : c.Ordered size) :
    Found size c (readComplete { c with depth := 0 }) := by
  have sound := readStatement_found ordered
  rw [readComplete]
  split <;> rename_i found <;> rw [found] at sound
  · split
    · exact sound
    · exact ⟨sound.path, by simp [SyntaxError.unexpected]⟩
  · exact sound

theorem readComplete_ends {node : Node} (read : readComplete c = .ok (node, d)) :
    isTerminator d.current.lexeme = true := by
  rw [readComplete] at read
  split at read
  · split at read
    · cases read
      assumption
    · cases read
  · cases read

/-- Skipping ends at a terminator, and passes everything up to it. -/
theorem skipStatement_sound (stop : Nat) (left : List Token) (ordered : c.Ordered size)
    (enough : c.rest.length < left.length) :
    Path Skipped c (skipStatement stop left c).2 ∧
      isTerminator (skipStatement stop left c).2.current.lexeme = true ∧
      ((skipStatement stop left c = (stop, c)) ∨
        ((skipStatement stop left c).2.rest.length < c.rest.length ∧
          (skipStatement stop left c).1 = (skipStatement stop left c).2.previous.stop)) := by
  induction left generalizing stop c with
  | nil => exact absurd enough (Nat.not_lt_zero _)
  | cons token left ih =>
      rw [skipStatement]
      split
      · exact ⟨.here, ‹_›, .inl rfl⟩
      · rename_i more
        have skipped : Skipped c := by simpa [Skipped] using more
        have rest := Cursor.advance_shorter (ordered.more (ne_finish skipped))
        rw [List.length_cons] at enough
        obtain ⟨path, ends, result⟩ := ih c.current.span.stop ordered.advance (by omega)
        refine ⟨(Path.take .here skipped).trans path, ends, .inr ?_⟩
        rcases result with same | ⟨later, stops⟩
        · rw [same]
          exact ⟨rest, by rw [Cursor.advance_previous]⟩
        · exact ⟨later.trans rest, stops⟩

theorem recover_sound {b : Cursor} {error : SyntaxError} (ordered : c.Ordered size)
    (starts : isTerminator c.current.lexeme = false) (path : Path (Lexical size c) c b)
    (blamed : error.span = b.current.span) :
    Region size c error b (recover c.current.span.start error b).1
        (recover c.current.span.start error b).2 ∧
      isTerminator (recover c.current.span.start error b).2.current.lexeme = true := by
  have there := path.ordered ordered
  rw [recover]
  generalize reach : (if c.current.span.start ≤ b.previous.start then b.previous.stop
    else c.current.span.start) = reached
  obtain ⟨skip, ends, result⟩ := skipStatement_sound reached b.tokens there (Nat.lt_succ_self _)
  generalize skipStatement reached b.tokens b = skipped at skip ends result ⊢
  obtain ⟨stop, d⟩ := skipped
  dsimp only at skip ends result ⊢
  have shorter := Cursor.rest_length_le path.suffix
  rcases result with same | ⟨moved, stops⟩
  · -- Nothing was skipped, so tokens were taken before the error and the last of them is passed.
    obtain ⟨rfl, rfl⟩ := Prod.mk.inj same
    rcases path.previous_cases ordered with ⟨tokens, _⟩ | ⟨first, last⟩
    · have current : d.current = c.current := by injection tokens
      rw [current, starts] at ends
      cases ends
    · rw [if_pos first] at reach
      subst reach
      refine ⟨⟨path, blamed, skip, ?_, rfl⟩, ends⟩
      apply Nat.lt_of_le_of_ne shorter
      intro same
      have tokens : d.tokens = c.tokens :=
        path.suffix.eq_of_length (by rw [Cursor.length_tokens, Cursor.length_tokens, same])
      have current : d.current = c.current := by injection tokens
      rw [current, starts] at ends
      cases ends
  · subst stops
    exact ⟨⟨path, blamed, skip, moved.trans_le shorter, rfl⟩, ends⟩

/-- One statement, read or given up, its error, and the cursor behind it. -/
def readOne (c : Cursor) : Node × Option SyntaxError × Cursor :=
  match readComplete { c with depth := 0 } with
  | .ok (node, d) => (node, none, d)
  | .error (error, b) =>
    let (node, d) := recover c.current.span.start error b
    (node, some error, d)

theorem statements_readOne (fuel : Nat) (starts : isTerminator c.current.lexeme = false) :
    statements (fuel + 1) c =
      ((readOne c).1 :: (statements fuel (readOne c).2.2).1,
        (readOne c).2.1.toList ++ (statements fuel (readOne c).2.2).2) := by
  rw [statements, readOne]
  split
  · simp [isTerminator, *] at starts
  · simp [isTerminator, *] at starts
  · cases readComplete { c with depth := 0 } <;> rfl

theorem readOne_found (ordered : c.Ordered size) (starts : isTerminator c.current.lexeme = false) :
    isTerminator (readOne c).2.2.current.lexeme = true ∧
      (((readOne c).2.1 = none ∧ Statement size c (readOne c).1 (readOne c).2.2) ∨
        ∃ error b, (readOne c).2.1 = some error ∧
          Region size c error b (readOne c).1 (readOne c).2.2) := by
  have sound := readComplete_found ordered
  rw [readOne]
  cases found : readComplete { c with depth := 0 } with
  | ok result =>
      rw [found] at sound
      exact ⟨readComplete_ends found, .inl ⟨rfl, sound⟩⟩
  | error error =>
      rw [found] at sound
      obtain ⟨path, blamed⟩ := sound
      obtain ⟨read, ends⟩ := recover_sound ordered starts path blamed
      exact ⟨ends, .inr ⟨_, _, rfl, read⟩⟩

theorem statements_reads (fuel : Nat) (c : Cursor) (ordered : c.Ordered size)
    (enough : c.rest.length < fuel) :
    Reads size c (statements fuel c).1 (statements fuel c).2 := by
  induction fuel generalizing c with
  | zero => exact absurd enough (Nat.not_lt_zero _)
  | succ fuel ih =>
      by_cases ends : isTerminator c.current.lexeme = true
      · rw [statements]
        rcases (isTerminator_iff _).mp ends with semicolon | finish
        · have shorter := Cursor.advance_shorter (ordered.more (by simp [semicolon]))
          rw [semicolon]
          exact .semicolon semicolon (ih c.advance ordered.advance (by omega))
        · rw [finish]
          exact .finish finish
      · have starts : isTerminator c.current.lexeme = false := by simpa using ends
        rw [statements_readOne fuel starts]
        obtain ⟨stops, ⟨error, read⟩ | ⟨error, b, same, read⟩⟩ := readOne_found ordered starts
        · have moved := read.moved
          rw [error]
          exact .statement starts read stops (ih _ (read.path.ordered ordered) (by omega))
        · have moved := read.moved
          have after := read.skip.ordered (read.path.ordered ordered)
          rw [same]
          exact .region starts read stops (ih _ after (by omega))

end Script
end SqlAudit
