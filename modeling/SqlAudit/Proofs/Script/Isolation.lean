import SqlAudit.Proofs.Script.Lexical
import SqlAudit.Proofs.Script.Source
import SqlAudit.Proofs.Script.Twins
import SqlAudit.Proofs.Token.Locality
/-!
Statements are read apart from one another. A text without a semicolon of its own makes one
statement when it is terminated, and the text after it reads as it would alone, only further on. The
one way out of this is that the semicolon itself is taken for a part of the statement.
-/
namespace SqlAudit

def Node.shift (n : Nat) (node : Node) : Node := node.relocate (· + n)

def SyntaxError.shift (n : Nat) (error : SyntaxError) : SyntaxError := error.relocate (· + n)

namespace Script

/-- A text and a semicolon on a line of its own. -/
def terminated (a : String) : String := a ++ "\n;\n"

/-- A text of one statement at most: it has a token, all of its tokens are valid, none of them is a
semicolon, and none begins a block of statements. -/
structure Plain (d : Dialect) (a : String) : Prop where
  some : ∃ token ∈ tokenize d a, token.lexeme ≠ .finish
  plain : ∀ token ∈ tokenize d a, token.lexeme ≠ .symbol .semicolon ∧ ¬ token.IsInvalid ∧
    token.lexeme.isWord "ATOMIC" = false

/-- The statement of a terminated text goes on beyond the text. -/
def Overruns (d : Dialect) (a : String) : Prop :=
  ∃ statement ∈ (read d (terminated a)).root.children, a.utf8ByteSize < statement.span.stop

/-- A terminated text makes this statement, of all its tokens, and these errors, one at most; and
what follows makes the statements and errors that it makes alone, only further on. -/
structure Apart (d : Dialect) (a b : String) (statement : Node) (errors : List SyntaxError) :
    Prop where
  upper : statement.span.stop ≤ a.utf8ByteSize
  whole : ∀ token ∈ tokenize d a, token.lexeme ≠ .finish →
    statement.span.contains token.span = true
  single : errors.length ≤ 1
  children : (read d (terminated a ++ b)).root.children =
    statement :: (read d b).root.children.map (·.shift (terminated a).utf8ByteSize)
  reports : (read d (terminated a ++ b)).errors =
    errors ++ (read d b).errors.map (·.shift (terminated a).utf8ByteSize)

/-- A terminated text is read apart from the one that follows. -/
def Isolated (d : Dialect) (a b : String) : Prop :=
  ∃ (statement : Node) (errors : List SyntaxError), Apart d a b statement errors

variable {d : Dialect} {a : String}

theorem size_terminated (a : String) : (terminated a).utf8ByteSize = a.utf8ByteSize + 3 := by
  rw [terminated, String.utf8ByteSize_append]
  rfl

/-- The semicolon of a terminated text. -/
def semicolon (a : String) : Token :=
  ⟨.symbol .semicolon, ⟨a.utf8ByteSize + 1, a.utf8ByteSize + 2⟩⟩

/-- The tokens of a text that stands after a terminated one. -/
def following (d : Dialect) (a b : String) : List Token :=
  (tokenize d b).map (·.relocate (· + (a.utf8ByteSize + 3)))

theorem tokenize_terminated (plain : Plain d a) (b : String) :
    tokenize d (terminated a ++ b) = (tokenize d a).dropLast ++ semicolon a :: following d a b := by
  have valid : ∀ token ∈ tokenize d a, ∀ message, token.lexeme ≠ .invalid message := by
    intro token member message invalid
    exact (plain.plain token member).2.1 (by rw [Token.IsInvalid, invalid]; rfl)
  have alone : tokenize d ";" = [⟨.symbol .semicolon, ⟨0, 1⟩⟩, ⟨.finish, ⟨1, 1⟩⟩] := by
    cases d <;> decide +kernel
  have parts : terminated a ++ b = a ++ "\n" ++ (";" ++ "\n" ++ b) := by
    simp only [terminated, String.append_assoc]
    rfl
  rw [parts, tokenize_newline d a _ valid, tokenize_newline d ";" b (by simp [alone]), alone]
  have first : Token.shift (a.utf8ByteSize + 1) ⟨.symbol .semicolon, ⟨0, 1⟩⟩ = semicolon a := by
    have starts : 0 + (a.utf8ByteSize + 1) = a.utf8ByteSize + 1 := Nat.zero_add _
    have stops : 1 + (a.utf8ByteSize + 1) = a.utf8ByteSize + 2 := by omega
    simp only [Token.shift, Span.shift, semicolon, starts, stops]
  have later : Token.shift (a.utf8ByteSize + 1) ∘ Token.shift (";".utf8ByteSize + 1) =
      Token.relocate (· + (a.utf8ByteSize + 3)) := by
    funext token
    have places : ∀ place : Nat, place + (";".utf8ByteSize + 1) + (a.utf8ByteSize + 1) =
        place + (a.utf8ByteSize + 3) := by
      intro place
      have size : ";".utf8ByteSize + 1 = 2 := rfl
      omega
    simp only [Function.comp, Token.shift, Token.relocate, Span.shift, Span.relocate, places]
  simp only [following, List.dropLast, List.cons_append, List.nil_append, List.map_cons,
    List.map_map, first]
  rw [← later]

/-- The cursor before a terminated text that another one follows. -/
def opening (d : Dialect) (a b : String) : Cursor := .ofTokens (tokenize d (terminated a ++ b))

theorem opening_ordered (d : Dialect) (a b : String) :
    (opening d a b).Ordered (terminated a ++ b).utf8ByteSize :=
  ofTokens_ordered (tokenize_inOrder d _)

/-- The tokens of both texts, followed as far as the semicolon. -/
def textRange (d : Dialect) (a b : String) : Range :=
  ⟨(opening d a b).tokens, (terminated a ++ b).utf8ByteSize, (following d a b).length⟩

/-- The first statement of both texts leaves the semicolon and the tokens after it unread. -/
def Stops (d : Dialect) (a b : String) : Prop :=
  (following d a b).length ≤ (readOne (opening d a b)).2.2.rest.length

theorem tokenize_empty (d : Dialect) : tokenize d "" = [⟨.finish, ⟨0, 0⟩⟩] := by
  cases d <;> decide +kernel

theorem following_empty (d : Dialect) (a : String) :
    following d a "" = [⟨.finish, ⟨a.utf8ByteSize + 3, a.utf8ByteSize + 3⟩⟩] := by
  simp [following, tokenize_empty, Token.relocate, Span.relocate]

theorem following_beyond {b : String} {token : Token} (member : token ∈ following d a b) :
    a.utf8ByteSize + 3 ≤ token.span.stop := by
  obtain ⟨original, -, rfl⟩ := List.mem_map.mp member
  exact Nat.le_add_left _ _

namespace Plain

variable (plain : Plain d a)

include plain

/-- The text has a first token, and all of its tokens but the end stand before the semicolon. -/
theorem opens : ∃ first front, (tokenize d a).dropLast = first :: front ∧
    ∀ b, opening d a b = ⟨⟨0, 0⟩, first, front ++ semicolon a :: following d a b, 0⟩ := by
  obtain ⟨token, member, notFinish⟩ := plain.some
  cases split : (tokenize d a).dropLast with
  | nil =>
      have whole := (tokenize_inOrder d a).split_last.1
      rw [split] at whole
      rw [whole] at member
      exact absurd (congrArg Token.lexeme (List.mem_singleton.mp member)) notFinish
  | cons first front =>
      refine ⟨first, front, rfl, fun b => ?_⟩
      rw [opening, tokenize_terminated plain, split]
      rfl

theorem opening_tokens (b : String) :
    (opening d a b).tokens = (tokenize d a).dropLast ++ semicolon a :: following d a b := by
  obtain ⟨first, front, split, opens⟩ := plain.opens
  rw [opens b, split]
  rfl

theorem opening_twin (b b' : String) :
    Twin id (following d a b) (following d a b') (opening d a b) (opening d a b') := by
  obtain ⟨first, front, _, opens⟩ := plain.opens
  rw [opens b, opens b']
  exact ⟨rfl, ⟨front ++ [semicolon a], by simp, by simp⟩, .inl rfl, rfl⟩

theorem opening_seam (b b' : String) :
    Seam .terminator (textRange d a b) (following d a b) (following d a b') := by
  refine ⟨rfl, .inr ⟨by simp [following, tokenize_ne_nil], semicolon a, rfl, ?_⟩⟩
  rw [textRange, plain.opening_tokens]
  exact List.suffix_append ..

/-- The tokens before the semicolon belong to one statement. -/
theorem before (token : Token) (member : token ∈ (tokenize d a).dropLast) :
    isTerminator token.lexeme = false ∧ token.span.stop ≤ a.utf8ByteSize := by
  obtain ⟨notFinish, upper⟩ := (tokenize_inOrder d a).split_last.2 token member
  have notSemicolon := (plain.plain token (List.dropLast_subset _ member)).1
  exact ⟨by simpa [isTerminator] using ⟨notSemicolon, notFinish⟩, upper⟩

theorem opening_mem {b : String} {token : Token} (member : token ∈ (opening d a b).tokens) :
    token ∈ (tokenize d a).dropLast ∨ token = semicolon a ∨ token ∈ following d a b := by
  rwa [plain.opening_tokens, List.mem_append, List.mem_cons] at member

/-- No block of statements begins as far as the semicolon, nor at the end of a text after it. -/
theorem opening_unbarred (b : String) {r : Range} (all : r.tokens = (opening d a b).tokens)
    (far : b = "" ∨ (following d a b).length ≤ r.beyond) : Grammar.Unbarred .terminator r := by
  intro test member f c within
  obtain rfl := List.mem_singleton.mp member
  have spelled : ∀ token ∈ (tokenize d a).dropLast ++ [semicolon a],
      (TokenClass.words ["ATOMIC"]).holds token.lexeme = false := by
    intro token among
    rcases List.mem_append.mp among with inside | last
    · have other := (plain.plain token (List.dropLast_subset _ inside)).2.2
      have capitals : Text.capitals "ATOMIC" = "ATOMIC" := by decide +kernel
      cases lexeme : token.lexeme with
      | word text => simpa [lexeme, Lexeme.isWord, TokenClass.holds, capitals] using other
      | _ => rfl
    · rw [List.mem_singleton.mp last]
      rfl
  show ((TokenClass.words ["BEGIN"]).holds c.current.lexeme &&
    (TokenClass.words ["ATOMIC"]).holds c.peek.lexeme) = false
  obtain ⟨passed, split⟩ := within.suffix
  rw [all, plain.opening_tokens] at split
  rcases append_split split with ⟨mid, front, rest⟩ | ⟨mid, front, rest⟩
  · cases mid with
    | nil =>
        have current : c.current = semicolon a := (List.cons.inj rest).1
        rw [current]
        rfl
    | cons token mid =>
        have next : c.rest = mid ++ semicolon a :: following d a b := (List.cons.inj rest).2
        have among : c.peek ∈ (tokenize d a).dropLast ++ [semicolon a] := by
          rw [Cursor.peek, next, front]
          cases mid <;> simp
        rw [spelled _ among, Bool.and_false]
  · have lengths := congrArg List.length rest
    rw [List.length_append, Cursor.length_tokens] at lengths
    rcases far with rfl | far
    · rw [following_empty, List.length_singleton] at lengths
      have none : c.rest = [] := List.length_eq_zero_iff.mp (by omega)
      have finish := within.ordered.finish_iff.mpr none
      rw [finish]
      rfl
    · have inside := within.inside
      omega

theorem opening_starts (b : String) :
    isTerminator (opening d a b).current.lexeme = false := by
  obtain ⟨first, front, split, opens⟩ := plain.opens
  rw [opens b]
  exact (plain.before first (by simp [split])).1

/-- A statement that stops at the semicolon ends with the text before it. -/
theorem stops_before {b : String} (stops : Stops d a b) :
    (readOne (opening d a b)).2.2.tokens = semicolon a :: following d a b ∧
      (readOne (opening d a b)).1.span.stop ≤ a.utf8ByteSize := by
  have ordered := opening_ordered d a b
  obtain ⟨path, moved, span, ends⟩ := readOne_sound ordered (plain.opening_starts b)
  have tokens : (readOne (opening d a b)).2.2.tokens = semicolon a :: following d a b := by
    obtain ⟨passed, whole⟩ := path.suffix
    rw [plain.opening_tokens] at whole
    rcases append_split whole with ⟨mid, front, rest⟩ | ⟨mid, front, rest⟩
    · cases mid with
      | nil => exact rest
      | cons token mid =>
          have current := (List.cons.inj rest).1
          have member : token ∈ (tokenize d a).dropLast := by simp [front]
          rw [current, (plain.before token member).1] at ends
          cases ends
    · have lengths := congrArg List.length rest
      rw [List.length_append, Cursor.length_tokens] at lengths
      unfold Stops at stops
      omega
  refine ⟨tokens, ?_⟩
  have here := (path.ordered ordered).previous_stop_le
  have current : (readOne (opening d a b)).2.2.current = semicolon a := (List.cons.inj tokens).1
  rw [current] at here
  rw [span]
  rcases path.previous_mem with same | ⟨token, member, same⟩
  · obtain ⟨first, front, -, opens⟩ := plain.opens
    rw [same, opens]
    exact Nat.zero_le _
  · rw [same] at here ⊢
    dsimp only [semicolon] at here
    rcases plain.opening_mem member with inside | rfl | later
    · exact (plain.before token inside).2
    · simp [semicolon] at here
    · have beyond := following_beyond later
      omega

/-- A statement that does not has taken the semicolon. -/
theorem beyond_stop {b : String} (goes : ¬ Stops d a b) :
    a.utf8ByteSize < (readOne (opening d a b)).1.span.stop := by
  have ordered := opening_ordered d a b
  obtain ⟨path, moved, span, ends⟩ := readOne_sound ordered (plain.opening_starts b)
  obtain ⟨passed, whole⟩ := path.suffix
  have tokens := plain.opening_tokens b
  rw [tokens] at whole
  unfold Stops at goes
  rcases append_split whole with ⟨mid, front, rest⟩ | ⟨mid, front, rest⟩
  · have lengths := congrArg List.length rest
    rw [List.length_append, Cursor.length_tokens, List.length_cons] at lengths
    omega
  · rw [← tokens] at whole
    have bounds := path.passed ordered whole.symm (semicolon a) (by simp [front])
    rw [span]
    dsimp only [semicolon] at bounds ⊢
    omega

/-- It has taken the semicolon unseen. -/
theorem beyond_unseeing (goes : ¬ Stops d a "") :
    ∃ earlier before, (tokenize d a).dropLast = earlier ++ [before] ∧ before.IsUnseeing := by
  have tokens := plain.opening_tokens ""
  have unbarred : Grammar.Unbarred .terminator (range (terminated a ++ "").utf8ByteSize
      (opening d a "")) := plain.opening_unbarred "" rfl (.inl rfl)
  have path := readOne_path kept_terminator unbarred (opening_ordered d a "")
    (plain.opening_starts "")
  have short : (readOne (opening d a "")).2.2.tokens.length ≤ (following d a "").length := by
    unfold Stops at goes
    rw [Cursor.length_tokens]
    omega
  obtain ⟨b, -, allowed, there⟩ := path.taken tokens short
  have current : b.current = semicolon a := (List.cons.inj there).1
  rcases allowed with guard | skipped
  · obtain ⟨before, unseeing, earlier, suffix⟩ := guard (by rw [current]; rfl)
    refine ⟨earlier, before, ?_, unseeing⟩
    rw [there, range, tokens, ← List.singleton_append, ← List.append_assoc] at suffix
    exact (List.append_cancel_right suffix).symm
  · rw [Skipped, current] at skipped
    cases skipped

/-- A statement that stops at the semicolon is read the same whatever follows. -/
theorem stops_apart {b : String} (stops : Stops d a b) (b' : String) :
    (readOne (opening d a b')).1 = (readOne (opening d a b)).1 ∧
      (readOne (opening d a b')).2.1 = (readOne (opening d a b)).2.1 ∧
      (readOne (opening d a b')).2.2.tokens = semicolon a :: following d a b' := by
  have ordered := opening_ordered d a b
  have within : (opening d a b).Within (textRange d a b) := by
    refine ⟨List.suffix_refl _, ordered, ?_⟩
    exact Nat.le_trans stops (readOne_sound ordered (plain.opening_starts b)).2.1.le
  have terminates : following d a b ≠ [] → ∀ lexeme : Lexeme,
      lexeme.outline = Watch.terminator.watched → isTerminator lexeme = true := by
    intro _ lexeme watched
    cases lexeme <;> simp [Lexeme.outline, Watch.terminator] at watched
    rw [watched]
    rfl
  obtain ⟨node, error, twin⟩ := readOne_follows (plain.opening_seam b b') monotone_id
    kept_terminator (plain.opening_unbarred b rfl (.inr (Nat.le_refl _))) terminates ordered
    (plain.opening_starts b) within (plain.opening_twin b b') stops
  obtain ⟨current, rest⟩ := List.cons.inj (plain.stops_before stops).1
  obtain ⟨front, here, there⟩ := twin.ahead
  have none : front = [] := by
    rw [rest] at here
    simpa using here
  have same := twin.current
  rw [none, List.map_nil, List.nil_append] at there
  rw [current, Token.relocate_id] at same
  refine ⟨by rw [node, Node.relocate_id], ?_, by rw [Cursor.tokens, same, there]⟩
  rw [error]
  simp

theorem stops_always {b : String} (stops : Stops d a b) (b' : String) : Stops d a b' := by
  have rest : (readOne (opening d a b')).2.2.rest = following d a b' :=
    (List.cons.inj (plain.stops_apart stops b').2.2).2
  rw [Stops, rest]

end Plain

/-- The statements behind the semicolon are those of the text that follows. -/
theorem statements_following (b : String) (fuel : Nat) {c : Cursor}
    (here : c.tokens = semicolon a :: following d a b) (enough : (tokenize d b).length ≤ fuel) :
    statements (fuel + 1) c =
      ((statements ((tokenize d b).length + 1) (.ofTokens (tokenize d b))).1.map
          (·.relocate (· + (a.utf8ByteSize + 3))),
        (statements ((tokenize d b).length + 1) (.ofTokens (tokenize d b))).2.map
          (·.relocate (· + (a.utf8ByteSize + 3)))) := by
  obtain ⟨current, rest⟩ := List.cons.inj here
  rw [statements, current]
  simp only [semicolon]
  cases split : tokenize d b with
  | nil => exact absurd split (tokenize_ne_nil d b)
  | cons first tokens =>
      rw [following, split, List.map_cons] at rest
      rw [split, List.length_cons] at enough
      have mono : Monotone (· + (a.utf8ByteSize + 3)) := fun _ _ le => Nat.add_le_add_right le _
      have ordered := ofTokens_ordered (tokenize_inOrder d b)
      rw [split] at ordered
      have twin : Twin (· + (a.utf8ByteSize + 3)) [] [] (.ofTokens (first :: tokens))
          { c.advance with depth := 0 } := by
        refine ⟨?_, ⟨tokens, ?_, ?_⟩, .inr ⟨rfl, ?_⟩, rfl⟩
        · simp [Cursor.advance, rest, Cursor.ofTokens]
        · simp [Cursor.ofTokens]
        · simp [Cursor.advance, rest]
        · rw [Cursor.advance_previous, current]
          simp [semicolon]
      have alike := statements_follows mono (tokens.length + 1 + 1) fuel _ _ ordered (by
        simp only [Cursor.ofTokens]
        omega) (by
        rw [Cursor.advance_rest, rest, List.tail_cons, List.length_map]
        omega) twin
      rw [statements_turn] at alike
      exact alike

theorem read_statements (d : Dialect) (text : String) :
    (read d text).root.children =
        (statements ((tokenize d text).length + 1) (.ofTokens (tokenize d text))).1.map
          (nameOptions text.toList) ∧
      (read d text).errors =
        (statements ((tokenize d text).length + 1) (.ofTokens (tokenize d text))).2 :=
  ⟨read_children d text, rfl⟩

/-- The first statement of both texts is the first one of the script. -/
theorem read_head (plain : Plain d a) (b : String) :
    ∃ nodes, (read d (terminated a ++ b)).root.children =
      nameOptions (terminated a ++ b).toList (readOne (opening d a b)).1 :: nodes := by
  have whole := statements_readOne (tokenize d (terminated a ++ b)).length
    (plain.opening_starts b)
  rw [(read_statements d (terminated a ++ b)).1, ← opening, whole, List.map_cons]
  exact ⟨_, rfl⟩

theorem readOne_nested (plain : Plain d a) (b : String) :
    (readOne (opening d a b)).1.Nested := by
  have row := reads_row (tokenize_reads d (terminated a ++ b)).2 (opening_ordered d a b)
  have whole := statements_readOne (tokenize d (terminated a ++ b)).length
    (plain.opening_starts b)
  refine (Node.row_mem row _ ?_).1
  show _ ∈ (statements ((tokenize d (terminated a ++ b)).length + 1) (opening d a b)).1
  rw [whole]
  exact .head _

/-- Both texts together make the first statement and what the second one makes alone. -/
theorem read_apart (plain : Plain d a) (stops : Stops d a "") (b : String) :
    (read d (terminated a ++ b)).root.children =
        nameOptions (terminated a).toList (readOne (opening d a "")).1 ::
          (read d b).root.children.map (·.shift (terminated a).utf8ByteSize) ∧
      (read d (terminated a ++ b)).errors = (readOne (opening d a "")).2.1.toList ++
        (read d b).errors.map (·.shift (terminated a).utf8ByteSize) := by
  obtain ⟨first, front, split, -⟩ := plain.opens
  obtain ⟨node, error, tokens⟩ := plain.stops_apart stops b
  have length : (tokenize d (terminated a ++ b)).length + 1 =
      front.length + (tokenize d b).length + 1 + 1 + 1 := by
    rw [tokenize_terminated plain, split, following]
    simp only [List.length_append, List.length_cons, List.length_map]
    omega
  have whole := statements_readOne (front.length + (tokenize d b).length + 1 + 1)
    (plain.opening_starts b)
  rw [statements_following b _ tokens (by omega), node, error, ← length] at whole
  have nested := readOne_nested plain ""
  have upper := (plain.stops_before stops).2
  have bytes : Lexer.size (terminated a).toList = a.utf8ByteSize + 3 := by
    rw [Lexer.size_toList, size_terminated]
  obtain ⟨children, errors⟩ := read_statements d (terminated a ++ b)
  obtain ⟨children', errors'⟩ := read_statements d b
  rw [opening] at whole
  rw [whole] at children errors
  rw [children, errors, children', errors', String.toList_append, size_terminated]
  constructor
  · rw [List.map_cons, nameOptions_before _ nested (by omega), List.map_map, List.map_map]
    have shifted := nameOptions_shift (terminated a).toList b.toList
    rw [bytes] at shifted
    simp only [Function.comp_def, shifted, Node.shift]
  · rfl

theorem read_empty (d : Dialect) : (read d "").root.children = [] := by
  rw [(read_statements d "").1, tokenize_empty]
  rfl

theorem apart_stops (plain : Plain d a) (stops : Stops d a "") (b : String) :
    Apart d a b (nameOptions (terminated a).toList (readOne (opening d a "")).1)
      (readOne (opening d a "")).2.1.toList := by
  have apart := read_apart plain stops
  refine ⟨?_, ?_, ?_, (apart b).1, (apart b).2⟩
  · rw [nameOptions_span]
    exact (plain.stops_before stops).2
  · intro token member notFinish
    have whole := (tokenize_inOrder d a).split_last.1
    rw [whole, List.mem_append, List.mem_singleton] at member
    have front : token ∈ (tokenize d a).dropLast := by
      apply member.resolve_right
      rintro rfl
      exact notFinish rfl
    have among : token ∈ (opening d a "").tokens := by
      rw [plain.opening_tokens]
      exact List.mem_append_left _ front
    obtain ⟨node, only, contains⟩ := (read_covers d (terminated a ++ "")).tokens token among
      (plain.before token front).1
    rw [(apart "").1, read_empty, List.map_nil, List.mem_singleton] at only
    rwa [only] at contains
  · cases (readOne (opening d a "")).2.1 <;> simp

theorem Isolated.stops {b : String} (isolated : Isolated d a b) (plain : Plain d a) :
    Stops d a b := by
  obtain ⟨statement, errors, apart⟩ := isolated
  obtain ⟨nodes, head⟩ := read_head plain b
  by_contra goes
  have beyond := plain.beyond_stop goes
  have first := (List.cons.inj (head.symm.trans apart.children)).1
  have upper := apart.upper
  rw [← first, nameOptions_span] at upper
  omega

theorem overruns_iff (plain : Plain d a) : Overruns d a ↔ ¬ Stops d a "" := by
  have alone : terminated a ++ "" = terminated a := String.append_empty
  constructor
  · rintro ⟨statement, member, longer⟩ stops
    have apart := apart_stops plain stops ""
    have children := apart.children
    rw [read_empty, List.map_nil, alone] at children
    rw [children, List.mem_singleton] at member
    have upper := apart.upper
    rw [← member] at upper
    omega
  · intro goes
    obtain ⟨nodes, head⟩ := read_head plain ""
    rw [alone] at head
    refine ⟨_, by rw [head]; exact .head _, ?_⟩
    rw [nameOptions_span]
    exact plain.beyond_stop goes

end Script

/-- A terminated text is read apart from one that follows exactly if its statement ends with it, and
is then read the same whatever follows. It goes on beyond the text only where the semicolon stands
after a word after which the grammar takes the next token without looking at it. -/
theorem statement_isolated (d : Dialect) (a : String) (plain : Script.Plain d a) :
    (∀ b, Script.Isolated d a b ↔ ¬ Script.Overruns d a) ∧
    (¬ Script.Overruns d a → ∃ statement errors, ∀ b, Script.Apart d a b statement errors) ∧
    (Script.Overruns d a → ∃ earlier before, (tokenize d a).dropLast = earlier ++ [before] ∧
      before.IsUnseeing) := by
  rw [Script.overruns_iff plain, not_not]
  refine ⟨fun b => ⟨?_, ?_⟩, ?_, plain.beyond_unseeing⟩
  · intro isolated
    exact plain.stops_always (isolated.stops plain) ""
  · intro stops
    exact ⟨_, _, Script.apart_stops plain stops b⟩
  · intro stops
    exact ⟨_, _, Script.apart_stops plain stops⟩

theorem select_isolated :
    Script.Plain .postgres "SELECT 1" ∧ ∀ b, Script.Isolated .postgres "SELECT 1" b := by
  have plain : Script.Plain .postgres "SELECT 1" := ⟨by decide +kernel, by decide +kernel⟩
  have ends : ¬ Script.Overruns .postgres "SELECT 1" := by
    unfold Script.Overruns
    decide +kernel
  refine ⟨plain, fun b => ?_⟩
  exact ((statement_isolated .postgres "SELECT 1" plain).1 b).mpr ends

/-- The operator of an order is not looked at, so a semicolon in its place does not end the
statement, and the next statement is lost. -/
theorem operator_takes_semicolon :
    Script.Plain .postgres "SELECT 1 ORDER BY 1 USING" ∧
    ¬ Script.Isolated .postgres "SELECT 1 ORDER BY 1 USING" "DROP TABLE t" ∧
    (Script.read .postgres "SELECT 1 ORDER BY 1 USING\n;\nDROP TABLE t").root.children.map
      (fun node => (node.kind, node.span)) = [(.unparsed, ⟨0, 40⟩)] := by
  refine ⟨⟨by decide +kernel, by decide +kernel⟩, ?_, by decide +kernel⟩
  rintro ⟨statement, errors, apart⟩
  have lengths := congrArg List.length apart.children
  rw [List.length_cons, List.length_map] at lengths
  revert lengths
  decide +kernel

end SqlAudit
