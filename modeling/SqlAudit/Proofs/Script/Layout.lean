import SqlAudit.Proofs.Script.Twins
/-!
Layout makes no difference. Tokens that agree but for their places are the same evenly spaced tokens
moved to where each text has them, so what is read of either text is what is read of the evenly
spaced ones: blanks, comments and offsets never decide what a script is read as.
-/
namespace SqlAudit

/-- Lexemes as tokens of one byte each with a byte between them; the last one takes no byte. -/
def evenly (offset : Nat) : List Lexeme → List Token
  | [] => []
  | [lexeme] => [⟨lexeme, ⟨offset, offset⟩⟩]
  | lexeme :: next :: rest =>
    ⟨lexeme, ⟨offset, offset + 1⟩⟩ :: evenly (offset + 2) (next :: rest)

theorem length_evenly (offset : Nat) (lexemes : List Lexeme) :
    (evenly offset lexemes).length = lexemes.length := by
  fun_induction evenly offset lexemes with
  | case1 => rfl
  | case2 => rfl
  | case3 offset lexeme next rest ih => simp [ih]

namespace InOrder

variable {lo hi : Nat} {tokens : List Token}

theorem ne_nil (ordered : InOrder lo hi tokens) : tokens ≠ [] := by
  cases ordered <;> simp

theorem evenly_inOrder (ordered : InOrder lo hi tokens) (offset : Nat) :
    ∃ stop, InOrder offset stop (evenly offset (tokens.map (·.lexeme))) := by
  induction ordered generalizing offset with
  | finish after => exact ⟨offset, .finish (Nat.le_refl _)⟩
  | @token _ _ token rest after nonempty more ordered ih =>
      obtain ⟨stop, spaced⟩ := ih (offset + 2)
      obtain ⟨next, others, rfl⟩ := List.exists_cons_of_ne_nil ordered.ne_nil
      exact ⟨stop, .token (Nat.le_refl _) (Nat.lt_succ_self _) more
        (spaced.lower (Nat.le_succ _))⟩

/-- The places of the evenly spaced tokens go to those of the tokens, in order. Of `other` it only
matters where it sends places that the tokens stand at. -/
theorem exists_place (ordered : InOrder lo hi tokens) (offset : Nat) :
    ∃ place : Nat → Nat, Monotone place ∧ (∀ k, lo ≤ place k) ∧
      ∀ other : Nat → Nat, (∀ k, offset ≤ k → other k = place k) →
        (evenly offset (tokens.map (·.lexeme))).map (·.relocate other) = tokens := by
  induction ordered generalizing offset with
  | @finish lo hi after =>
      refine ⟨fun _ => hi, fun _ _ _ => Nat.le_refl _, fun _ => after, ?_⟩
      intro other agrees
      simp [evenly, Token.relocate, Span.relocate, agrees]
  | @token lo hi token rest after nonempty more ordered ih =>
      obtain ⟨later, mono, above, moves⟩ := ih (offset + 2)
      obtain ⟨next, others, rfl⟩ := List.exists_cons_of_ne_nil ordered.ne_nil
      let place : Nat → Nat := fun k =>
        if k ≤ offset then token.span.start
        else if k = offset + 1 then token.span.stop
        else later k
      have beyond : ∀ k, offset + 2 ≤ k → place k = later k := by
        intro k far
        simp only [place]
        rw [if_neg (by omega), if_neg (by omega)]
      refine ⟨place, ?_, ?_, ?_⟩
      · intro j k le
        have first := above j
        have second := above k
        have between := mono le
        simp only [place]
        split_ifs <;> omega
      · intro k
        have far := above k
        simp only [place]
        split
        · exact after
        · split <;> omega
      · intro other agrees
        have rest := moves other fun k far => (agrees k (by omega)).trans (beyond k far)
        have start : other offset = token.span.start := by
          rw [agrees offset (Nat.le_refl _)]
          simp [place]
        have stop : other (offset + 1) = token.span.stop := by
          rw [agrees (offset + 1) (Nat.le_succ _)]
          simp [place]
        simp only [List.map_cons, evenly] at rest ⊢
        rw [rest]
        simp [Token.relocate, Span.relocate, start, stop]

end InOrder

namespace Node

mutual

/-- The tree without its places and without the texts that options take from the script. -/
def unplaced : Node → Node
  | ⟨kind, _, value, children⟩ =>
    ⟨kind, ⟨0, 0⟩, if kind = .routineOption then none else value, unplacedAll children⟩

def unplacedAll : List Node → List Node
  | [] => []
  | node :: nodes => unplaced node :: unplacedAll nodes

end

theorem unplacedAll_eq_map (nodes : List Node) : unplacedAll nodes = nodes.map unplaced := by
  induction nodes with
  | nil => rfl
  | cons node nodes ih => rw [unplacedAll, ih, List.map_cons]

mutual

theorem unplaced_relocate (place : Nat → Nat) :
    ∀ node : Node, (node.relocate place).unplaced = node.unplaced
  | ⟨_, _, _, children⟩ => by
    rw [relocate, unplaced, unplaced, unplacedAll_relocate place children]

theorem unplacedAll_relocate (place : Nat → Nat) :
    ∀ nodes : List Node, unplacedAll (relocateAll place nodes) = unplacedAll nodes
  | [] => rfl
  | node :: nodes => by
    rw [relocateAll, unplacedAll, unplacedAll, unplaced_relocate place node,
      unplacedAll_relocate place nodes]

end

end Node

namespace Script

mutual

theorem unplaced_nameOptions (text : List Char) :
    ∀ node : Node, (nameOptions text node).unplaced = node.unplaced
  | ⟨kind, span, value, children⟩ => by
    rw [nameOptions, Node.unplaced, Node.unplaced, unplacedAll_nameOptions text children]
    split <;> rfl

theorem unplacedAll_nameOptions (text : List Char) :
    ∀ nodes : List Node, Node.unplacedAll (nameOptionsOfList text nodes) = Node.unplacedAll nodes
  | [] => rfl
  | node :: nodes => by
    rw [nameOptionsOfList, Node.unplacedAll, Node.unplacedAll, unplaced_nameOptions text node,
      unplacedAll_nameOptions text nodes]

end

/-- The statements of lexemes that are spaced evenly. -/
def spaced (lexemes : List Lexeme) : List Node × List SyntaxError :=
  statements (lexemes.length + 1) (.ofTokens (evenly 0 lexemes))

/-- Evenly spaced lexemes that are moved are read as they were, moved as well. -/
theorem statements_moved {lexemes : List Lexeme} {tokens : List Token} {place : Nat → Nat}
    (mono : Monotone place) {stop : Nat} (inOrder : InOrder 0 stop (evenly 0 lexemes))
    (moved : (evenly 0 lexemes).map (·.relocate place) = tokens) :
    statements (tokens.length + 1) (.ofTokens tokens) =
      ((spaced lexemes).1.map (·.relocate place), (spaced lexemes).2.map (·.relocate place)) := by
  have length := length_evenly 0 lexemes
  obtain ⟨first, rest, split⟩ := List.exists_cons_of_ne_nil inOrder.ne_nil
  rw [split, List.map_cons] at moved
  rw [split, List.length_cons] at length
  have start := ofTokens_ordered inOrder
  rw [split] at start
  have twin : Twin place [] [] (.ofTokens (first :: rest))
      (.ofTokens (first.relocate place :: rest.map (·.relocate place))) :=
    ⟨rfl, ⟨rest, by simp [Cursor.ofTokens], by simp [Cursor.ofTokens]⟩,
      .inr ⟨rfl, Nat.zero_le _⟩, rfl⟩
  rw [spaced, split, ← moved]
  apply statements_follows mono _ _ _ _ start _ _ twin
  · simp only [Cursor.ofTokens]
    omega
  · simp only [Cursor.ofTokens, List.length_cons, List.length_map]
    omega

/-- Every text is read as its lexemes are when they are spaced evenly, but for the places. -/
theorem statements_spaced {size : Nat} {tokens : List Token} (ordered : InOrder 0 size tokens) :
    ∃ place, statements (tokens.length + 1) (.ofTokens tokens) =
      ((spaced (tokens.map (·.lexeme))).1.map (·.relocate place),
        (spaced (tokens.map (·.lexeme))).2.map (·.relocate place)) := by
  obtain ⟨place, mono, -, moves⟩ := ordered.exists_place 0
  obtain ⟨stop, inOrder⟩ := ordered.evenly_inOrder 0
  exact ⟨place, statements_moved mono inOrder (moves place fun _ _ => rfl)⟩

theorem read_spaced (d : Dialect) (text : String) :
    (read d text).root.unplaced = ⟨.script, ⟨0, 0⟩, none,
        Node.unplacedAll (spaced ((tokenize d text).map (·.lexeme))).1⟩ ∧
      (read d text).errors.map (·.cause) =
        (spaced ((tokenize d text).map (·.lexeme))).2.map (·.cause) := by
  obtain ⟨place, same⟩ := statements_spaced (tokenize_inOrder d text)
  constructor
  · rw [read, unplaced_nameOptions, ofTokens, same, Node.unplaced, ← Node.relocateAll_eq_map,
      Node.unplacedAll_relocate]
    rfl
  · rw [read, ofTokens, same, List.map_map]
    rfl

end Script

/-- Texts with the same lexemes, whatever stands between these and wherever, are read as the same
tree but for its places and the texts of options, with errors that say the same. -/
theorem layout_insensitive (d : Dialect) (a b : String)
    (same : (tokenize d a).map (·.lexeme) = (tokenize d b).map (·.lexeme)) :
    (Script.read d a).root.unplaced = (Script.read d b).root.unplaced ∧
      (Script.read d a).errors.map (·.message) = (Script.read d b).errors.map (·.message) := by
  obtain ⟨tree, causes⟩ := Script.read_spaced d a
  obtain ⟨tree', causes'⟩ := Script.read_spaced d b
  rw [same] at tree causes
  refine ⟨tree.trans tree'.symm, ?_⟩
  have alike := causes.trans causes'.symm
  have messages := congrArg (List.map fun cause => SyntaxError.message ⟨cause, ⟨0, 0⟩⟩) alike
  simpa [List.map_map, Function.comp_def, SyntaxError.message] using messages

/-- Comments, line breaks and blanks between the same lexemes, which stand further on for them. -/
theorem commented_alike :
    (tokenize .postgres "SELECT a+1;SELEKT").map (·.lexeme) =
        (tokenize .postgres "select\n  a /* /* b */ */ + 1 -- c\n; SELEKT ").map (·.lexeme) ∧
      (Script.read .postgres "SELECT a+1;SELEKT").root.unplaced =
        (Script.read .postgres "select\n  a /* /* b */ */ + 1 -- c\n; SELEKT ").root.unplaced ∧
      (Script.read .postgres "SELECT a+1;SELEKT").errors.map (·.message) =
        (Script.read .postgres "select\n  a /* /* b */ */ + 1 -- c\n; SELEKT ").errors.map
          (·.message) :=
  have same : (tokenize .postgres "SELECT a+1;SELEKT").map (·.lexeme) =
      (tokenize .postgres "select\n  a /* /* b */ */ + 1 -- c\n; SELEKT ").map (·.lexeme) := by
    decide +kernel
  ⟨same, layout_insensitive .postgres _ _ same⟩

end SqlAudit
