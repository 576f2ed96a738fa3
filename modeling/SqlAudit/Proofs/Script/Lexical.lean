import SqlAudit.Proofs.Script.Coverage
/-!
Where pieces of text that are no token end up. A statement that cannot be read takes them into its
region. A statement that is read holds none, but for those right after a word after which the
grammar takes the next token without looking at it: there the piece is taken for an operator or for
a part of an option, and no error is reported.
-/
namespace SqlAudit

/-- What a reader sees of a piece of text that is no token. -/
def Token.IsInvalid (token : Token) : Prop := TokenClass.invalid.holds token.lexeme = true

/-- After such a token the next one is taken without being looked at. -/
def Token.IsUnseeing (token : Token) : Prop := token.lexeme.outline ∈ Watch.unseen

instance (token : Token) : Decidable token.IsInvalid := inferInstanceAs (Decidable (_ = true))

instance (token : Token) : Decidable token.IsUnseeing := inferInstanceAs (Decidable (_ ∈ _))

theorem invalid_outline {token : Token} (invalid : token.IsInvalid) :
    token.lexeme.outline = Watch.lexical.watched := by
  unfold Token.IsInvalid at invalid
  cases same : token.lexeme <;> simp [same, TokenClass.holds] at invalid
  rfl

theorem invalid_notTerminator {token : Token} (invalid : token.IsInvalid) :
    Script.isTerminator token.lexeme = false := by
  unfold Token.IsInvalid at invalid
  cases same : token.lexeme <;> simp [same, TokenClass.holds] at invalid
  rfl

/-- Where an element of a list stands when the list is split in two. -/
theorem append_split {α : Type} {first second front back : List α} {a : α}
    (same : first ++ second = front ++ a :: back) :
    (∃ mid, front = first ++ mid ∧ second = mid ++ a :: back) ∨
      ∃ mid, first = front ++ a :: mid ∧ back = mid ++ second := by
  rcases List.append_eq_append_iff.mp same with ⟨mid, left, right⟩ | ⟨mid, left, right⟩
  · exact .inl ⟨mid, left, right⟩
  · cases mid with
    | nil => exact .inl ⟨[], by simpa using left.symm, by simpa using right.symm⟩
    | cons b mid =>
        obtain ⟨rfl, rest⟩ := List.cons.inj right
        exact .inr ⟨mid, left, rest⟩

namespace Script

variable {size : Nat} {c d : Cursor} {nodes : List Node} {errors : List SyntaxError}

/-- The statement that holds a token: either it is a region and its error was recorded, or the token
was taken unseen after one of the same statement. -/
def Accounted (nodes : List Node) (errors : List SyntaxError) (front : List Token) (token : Token) :
    Prop :=
  ∃ node ∈ nodes, node.span.contains token.span = true ∧
    ((node.kind = .unparsed ∧ errors ≠ []) ∨
      (node.kind ≠ .unparsed ∧ ∃ earlier before, front = earlier ++ [before] ∧
        before.IsUnseeing ∧ node.span.contains before.span = true))

theorem Accounted.later {node : Node} (error : Option SyntaxError) {passed front : List Token}
    {token : Token} (accounted : Accounted nodes errors front token) :
    Accounted (node :: nodes) (error.toList ++ errors) (passed ++ front) token := by
  obtain ⟨n, member, contains, account⟩ := accounted
  refine ⟨n, .tail _ member, contains, ?_⟩
  rcases account with ⟨region, some⟩ | ⟨read, earlier, before, rfl, unseeing, also⟩
  · exact .inl ⟨region, by simp [some]⟩
  · exact .inr ⟨read, passed ++ earlier, before, by simp, unseeing, also⟩

/-- A token taken by a statement that could be read. -/
theorem statement_accounts {node : Node} (ordered : c.Ordered size) (read : Statement size c node d)
    {front mid : List Token} {token : Token} (invalid : token.IsInvalid)
    (split : c.tokens = (front ++ token :: mid) ++ d.tokens) :
    Accounted (node :: nodes) errors front token := by
  have inside : ∀ t ∈ front ++ token :: mid, node.span.contains t.span = true := by
    intro t member
    have bounds := read.path.passed ordered split t member
    simp [read.span, Span.contains, bounds]
  have between : c.tokens = front ++ token :: (mid ++ d.tokens) := by simp [split]
  obtain ⟨b, _, guard, there⟩ := read.path.taken between (by simp)
  have here : b.current = token := by injection there
  obtain ⟨before, unseeing, suffix⟩ := guard (by rw [here]; exact invalid_outline invalid)
  have two : (before :: token :: (mid ++ d.tokens)) <:+ front ++ token :: (mid ++ d.tokens) := by
    rw [← between, ← there]
    exact suffix
  obtain ⟨earlier, same⟩ := two
  have ends : front = earlier ++ [before] := by
    rw [← List.singleton_append, ← List.append_assoc] at same
    exact (List.append_cancel_right same).symm
  refine ⟨node, .head _, inside token (by simp), .inr ⟨?_, earlier, before, ends, unseeing, ?_⟩⟩
  · exact (Node.every_iff.mp read.parsed).1
  · exact inside before (by simp [ends])

theorem reads_account (reads : Reads size c nodes errors) (ordered : c.Ordered size)
    {front back : List Token} {token : Token} (split : c.tokens = front ++ token :: back)
    (invalid : token.IsInvalid) : Accounted nodes errors front token := by
  have other := invalid_notTerminator invalid
  induction reads generalizing front with
  | @finish c last =>
      rw [Cursor.tokens, ordered.finish_iff.mp last] at split
      obtain ⟨-, rfl, -⟩ : front = [] ∧ c.current = token ∧ back = [] := by
        cases front <;> simp_all
      simp [isTerminator, last] at other
  | @semicolon c nodes errors here rest ih =>
      rw [Cursor.tokens_advance (ordered.more (by simp [here]))] at split
      cases front with
      | nil =>
          obtain ⟨rfl, -⟩ := List.cons.inj split
          simp [isTerminator, here] at other
      | cons first front =>
          obtain ⟨rfl, later⟩ := List.cons.inj split
          obtain ⟨n, member, contains, account⟩ := ih ordered.advance later
          refine ⟨n, member, contains, account.imp id ?_⟩
          rintro ⟨read, earlier, before, rfl, unseeing, also⟩
          exact ⟨read, c.current :: earlier, before, rfl, unseeing, also⟩
  | @statement c d node nodes errors starts read ends rest ih =>
      obtain ⟨passed, whole⟩ := read.path.suffix
      rcases append_split (whole.trans split) with ⟨mid, rfl, later⟩ | ⟨mid, rfl, -⟩
      · exact (ih (read.path.ordered ordered) later).later none
      · exact statement_accounts ordered read invalid whole.symm
  | @region c b d error node nodes errors starts read ends rest ih =>
      obtain ⟨passed, whole⟩ := read.passes.suffix
      rcases append_split (whole.trans split) with ⟨mid, rfl, later⟩ | ⟨mid, rfl, -⟩
      · exact (ih (read.passes.ordered ordered) later).later (some error)
      · have bounds := read.passes.passed ordered whole.symm token (by simp)
        refine ⟨node, .head _, ?_, .inl ⟨by rw [read.region]; rfl, by simp⟩⟩
        simp [read.region, Node.leaf, Span.contains, bounds]

theorem read_account (d : Dialect) (text : String) {front back : List Token} {token : Token}
    (split : tokenize d text = front ++ token :: back) (invalid : token.IsInvalid) :
    Accounted (read d text).root.children (read d text).errors front token := by
  obtain ⟨ordered, reads⟩ := tokenize_reads d text
  rw [← tokens_ofTokens (tokenize_ne_nil d text)] at split
  obtain ⟨node, member, contains, account⟩ := reads_account reads ordered split invalid
  refine ⟨nameOptions text.toList node, ?_, ?_, ?_⟩
  · rw [read_children]
    exact List.mem_map_of_mem member
  · rwa [nameOptions_span]
  · rw [nameOptions_span, nameOptions_kind]
    exact account

end Script

/-- A piece of text that is no token lies in a region that could not be read, unless it stands right
after a word after which the grammar does not look, in a statement that was read; and a script that
was read without an error has such pieces in such places only. -/
theorem invalid_token_in_region (d : Dialect) (text : String) :
    (∀ front token back, tokenize d text = front ++ token :: back → token.IsInvalid →
      ((∃ statement ∈ (Script.read d text).root.children,
          statement.kind = .unparsed ∧ statement.span.contains token.span = true) ↔
        ¬ ∃ statement ∈ (Script.read d text).root.children, statement.kind ≠ .unparsed ∧
          statement.span.contains token.span = true ∧
          ∃ earlier before, front = earlier ++ [before] ∧ before.IsUnseeing ∧
            statement.span.contains before.span = true)) ∧
    ((Script.read d text).isComplete = true →
      ∀ front token back, tokenize d text = front ++ token :: back → token.IsInvalid →
        ∃ earlier before, front = earlier ++ [before] ∧ before.IsUnseeing) := by
  constructor
  · intro front token back split invalid
    obtain ⟨node, member, contains, account⟩ := Script.read_account d text split invalid
    have apart := Node.row_pairwise ((Node.nested_iff_row _).mp (Script.read_nested d text))
    have among : token ∈ tokenize d text := by simp [split]
    have more : token.lexeme ≠ .finish := by
      intro finish
      simp [Token.IsInvalid, finish, TokenClass.holds] at invalid
    have some := (tokenize_inOrder d text).nonempty token among more
    constructor
    · rintro ⟨region, inside, unparsed, holds⟩ ⟨statement, also, read, within, -⟩
      have same := Script.contains_unique apart some inside also holds within
      exact read (same ▸ unparsed)
    · intro seen
      rcases account with ⟨unparsed, -⟩ | ⟨read, taken⟩
      · exact ⟨node, member, unparsed, contains⟩
      · exact absurd ⟨node, member, read, contains, taken⟩ seen
  · intro complete front token back split invalid
    obtain ⟨node, member, contains, account⟩ := Script.read_account d text split invalid
    rcases account with ⟨-, errors⟩ | ⟨-, earlier, before, ends, unseeing, -⟩
    · exact absurd (List.isEmpty_iff.mp complete) errors
    · exact ⟨earlier, before, ends, unseeing⟩

/-- The operator of an order is not looked at, so a stray character in its place is no error. -/
theorem stray_operator_accepted :
    (Script.read .postgres "SELECT 1 ORDER BY 1 USING $").isComplete = true ∧
    (∀ statement ∈ (Script.read .postgres "SELECT 1 ORDER BY 1 USING $").root.children,
      statement.kind ≠ .unparsed) ∧
    ∃ token ∈ tokenize .postgres "SELECT 1 ORDER BY 1 USING $", token.IsInvalid := by
  decide +kernel

end SqlAudit
