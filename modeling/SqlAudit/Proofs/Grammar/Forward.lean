import SqlAudit.Proofs.Grammar.Movement
import SqlAudit.Proofs.Grammar.Schema
/-!
Reading ahead of known tokens. Where the next lexemes are given, each construct of a grammar has an
equation that says what is read by it; so a text that is spelled out can be followed to its end.
-/
namespace SqlAudit

namespace Cursor

/-- The tokens from one cursor up to the other are of these lexemes, and others follow. -/
def Passes (c : Cursor) : List Lexeme → Cursor → Prop
  | [], d => d = c
  | lexeme :: lexemes, d =>
    c.current.lexeme = lexeme ∧ c.rest ≠ [] ∧ c.advance.Passes lexemes d

variable {c d e : Cursor} {first second lexemes lexemes' : List Lexeme}

theorem passes_append : c.Passes (first ++ second) e ↔
    ∃ d, c.Passes first d ∧ d.Passes second e := by
  induction first generalizing c with
  | nil => simp [Passes]
  | cons lexeme first ih => simp [Passes, ih, and_assoc]

theorem Passes.length (passes : c.Passes lexemes d) :
    c.rest.length = d.rest.length + lexemes.length := by
  induction lexemes generalizing c with
  | nil => rw [passes, List.length_nil, Nat.add_zero]
  | cons lexeme lexemes ih =>
      obtain ⟨-, more, later⟩ := passes
      have shorter := ih later
      have some := List.length_pos_iff.mpr more
      rw [advance_rest, List.length_tail] at shorter
      rw [List.length_cons]
      omega

theorem Passes.depth (passes : c.Passes lexemes d) : d.depth = c.depth := by
  induction lexemes generalizing c with
  | nil => rw [passes]
  | cons lexeme lexemes ih => rw [ih passes.2.2, advance_depth]

theorem advance_turn (c : Cursor) (depth : Nat) :
    advance { c with depth := depth } = { c.advance with depth := depth } := by
  obtain ⟨previous, current, rest, other⟩ := c
  cases rest <;> rfl

/-- At another depth the tokens are the same. -/
theorem Passes.turn (passes : c.Passes lexemes d) (depth : Nat) :
    Passes { c with depth := depth } lexemes { d with depth := depth } := by
  induction lexemes generalizing c with
  | nil => rw [passes, Passes]
  | cons lexeme lexemes ih =>
      obtain ⟨here, more, later⟩ := passes
      refine ⟨here, more, ?_⟩
      rw [advance_turn]
      exact ih later

theorem depth_ofTokens (tokens : List Token) : (ofTokens tokens).depth = 0 := by
  cases tokens <;> rfl

/-- Where so many tokens are passed there is one place to arrive at. -/
theorem Passes.unique (passes : c.Passes lexemes d) (passes' : c.Passes lexemes' e)
    (same : d.rest.length = e.rest.length) : d = e := by
  have length := passes.length
  have length' := passes'.length
  induction lexemes generalizing c lexemes' with
  | nil =>
      cases lexemes' with
      | nil => exact passes.trans passes'.symm
      | cons lexeme lexemes' =>
          rw [List.length_nil] at length
          rw [List.length_cons] at length'
          omega
  | cons lexeme lexemes ih =>
      cases lexemes' with
      | nil =>
          rw [List.length_nil] at length'
          rw [List.length_cons] at length
          omega
      | cons other lexemes' =>
          obtain ⟨-, -, later⟩ := passes
          obtain ⟨-, -, later'⟩ := passes'
          exact ih later later' later.length later'.length

/-- The tokens that are passed. -/
theorem Passes.front (passes : c.Passes lexemes d) :
    ∃ front, c.tokens = front ++ d.tokens ∧ front.map (·.lexeme) = lexemes := by
  induction lexemes generalizing c with
  | nil => exact ⟨[], by rw [passes]; rfl, rfl⟩
  | cons lexeme lexemes ih =>
      obtain ⟨here, more, later⟩ := passes
      obtain ⟨front, tokens, same⟩ := ih later
      exact ⟨c.current :: front, by rw [tokens_advance more, tokens]; rfl, by simp [here, same]⟩

/-- What is left of the tokens of a text is passed where lexemes are given up to one of them. -/
theorem exists_passes {last : Lexeme} {others : List Lexeme}
    (tokens : c.tokens.map (·.lexeme) = lexemes ++ last :: others) :
    ∃ d, c.Passes lexemes d ∧ d.tokens.map (·.lexeme) = last :: others := by
  induction lexemes generalizing c with
  | nil => exact ⟨c, rfl, tokens⟩
  | cons lexeme lexemes ih =>
      have here : c.current.lexeme = lexeme := (List.cons.inj tokens).1
      have later : c.rest.map (·.lexeme) = lexemes ++ last :: others := (List.cons.inj tokens).2
      have more : c.rest ≠ [] := by
        intro empty
        simp [empty] at later
      have advanced : c.advance.tokens = c.rest :=
        (List.cons.inj (tokens_advance more)).2.symm
      obtain ⟨d, passes, left⟩ := ih (advanced ▸ later)
      exact ⟨d, ⟨here, more, passes⟩, left⟩

end Cursor

namespace Grammar

variable {call : Nonterminal → Frame → Cursor → Reading} {a b : Grammar} {test : Test}
  {f g : Frame} {c d : Cursor}

theorem read_append (first : read call a f c = .ok (g, d)) :
    read call (a ++ b) f c = read call b g d := by
  rw [append_eq_seq, read, first]

/-- Where the first part fails, the second one is not read. -/
theorem read_broken {failure : SyntaxError × Cursor} (failed : read call a f c = .error failure) :
    read call (a ++ b) f c = .error failure := by
  rw [append_eq_seq, read, failed]

theorem read_yes (holds : test.holds f c = true) :
    read call (.branch test a b) f c = read call a f c := by
  rw [read, if_pos holds]

theorem read_no (fails : test.holds f c = false) :
    read call (.branch test a b) f c = read call b f c := by
  rw [read, if_neg (by simp [fails])]

/-- What is not there is passed over. -/
theorem read_absent (fails : test.holds f c = false) :
    read call (whenever test a) f c = .ok (f, c) := by
  rw [whenever, read_no fails, read]

theorem read_node {kind : NodeKind} (inner : read call a (.opened kind c) c = .ok (g, d)) :
    read call (.node kind a) f c = .ok (f.close g d, d) := by
  rw [read, inner]

/-- A node around the last one. -/
theorem read_wrap {kind : NodeKind} {node : Node} {g : Frame}
    (inner : read call a ⟨kind, node.span.start, none, [node]⟩ c = .ok (g, d)) :
    read call (.wrap kind a) (f.push node) c = .ok (f.close g d, d) := by
  have last : (f.push node).wrapLast kind c = (⟨kind, node.span.start, none, [node]⟩, f) := rfl
  rw [read, last]
  simp only [inner]

theorem read_loop_none (fails : test.holds f c = false) :
    read call (.loop test a) f c = .ok (f, c) := by
  rw [read, Cursor.tokens, repeatWhile, if_neg (by simp [fails])]

end Grammar
end SqlAudit
