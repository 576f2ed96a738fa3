import SqlAudit.Proofs.Grammar.Schema
import SqlAudit.Proofs.Grammar.Weights
import SqlAudit.Proofs.Script.Nesting
import SqlAudit.Proofs.Token.Locality
/-!
Schemas in schemas. What follows the header of a CREATE SCHEMA can be another one, which is read as
part of it and enters no level of nesting; a text of many headers is therefore read without an
error, however many they are, and each is a statement on the way to the last one.
-/
namespace SqlAudit

namespace Script

open Grammar (atHeader)

/-- The tokens of some headers, each followed by the others. -/
inductive Headers : Nat → List Token → Prop
  | finish (s : Span) : Headers 0 [⟨.finish, s⟩]
  | header {n : Nat} {tokens : List Token} (s₁ s₂ s₃ : Span) (others : Headers n tokens) :
      Headers (n + 1) (⟨.keyword .CREATE, s₁⟩ :: ⟨.word "SCHEMA", s₂⟩ :: ⟨.word "a", s₃⟩ :: tokens)

theorem Headers.length_eq {n : Nat} {tokens : List Token} (headers : Headers n tokens) :
    tokens.length = 3 * n + 1 := by
  induction headers with
  | finish s => rfl
  | header s₁ s₂ s₃ others ih =>
      simp only [List.length_cons, ih]
      omega

theorem tally_schema (s s' : Span) (value value' : Option String) (node : Node) :
    1 + node.weight Scale.tally.of ≤ Node.weight Scale.tally.of
      ⟨.createSchema, s, value, [⟨.schemaElements, s', value', [node]⟩]⟩ := by
  have schema : Scale.tally.of .createSchema = 1 := by decide
  have elements : Scale.tally.of .schemaElements = 0 := by decide
  simp only [Node.weight, Node.heaviest, schema, elements]
  omega

theorem read_headers {n : Nat} {tokens : List Token} (headers : Headers n tokens) :
    ∀ (s₁ s₂ s₃ p : Span) (left : List Token) (f : Frame) (depth : Nat), n < left.length →
      ∃ node d, Grammar.callRule Grammar.rules left .createStatement f
          (atHeader p s₁ s₂ s₃ depth tokens) = .ok (f.push node, d) ∧
        d.current.lexeme = .finish ∧ n + 1 ≤ node.weight Scale.tally.of := by
  induction headers with
  | finish s =>
      intro s₁ s₂ s₃ p left f depth enough
      cases left with
      | nil => cases enough
      | cons token left =>
          rw [Grammar.callRule, Grammar.rules, Grammar.read_createRule rfl
            (Grammar.read_noElements rfl)]
          refine ⟨_, _, rfl, rfl, ?_⟩
          exact Int.le_refl _
  | @header n tokens t₁ t₂ t₃ others ih =>
      intro s₁ s₂ s₃ p left f depth enough
      cases left with
      | nil => cases enough
      | cons token left =>
          obtain ⟨node, d, called, last, deep⟩ := ih t₁ t₂ t₃ s₃ left
            (.opened (some .schemaElements) ⟨s₃, ⟨.keyword .CREATE, t₁⟩, _, depth⟩) depth
            (Nat.lt_of_succ_lt_succ enough)
          rw [Grammar.callRule, Grammar.rules, Grammar.read_createRule rfl
            (Grammar.read_oneElement rfl called last)]
          refine ⟨_, d, rfl, last, ?_⟩
          refine Int.le_trans ?_ (tally_schema ..)
          omega

def lines (line : String) : Nat → String
  | 0 => ""
  | n + 1 => line ++ "\n" ++ lines line n

/-- The text of some headers, one on each line. -/
def schemas (n : Nat) : String := lines "CREATE SCHEMA a" n

theorem Headers.shift {n : Nat} {tokens : List Token} (headers : Headers n tokens) (bytes : Nat) :
    Headers n (tokens.map (·.shift bytes)) := by
  induction headers with
  | finish s => exact .finish _
  | header s₁ s₂ s₃ others ih => exact .header _ _ _ ih

theorem tokenize_schemas (d : Dialect) (n : Nat) : Headers n (tokenize d (schemas n)) := by
  induction n with
  | zero =>
      have alone : tokenize d "" = [⟨.finish, ⟨0, 0⟩⟩] := by cases d <;> decide +kernel
      rw [schemas, lines, alone]
      exact .finish _
  | succ n ih =>
      have alone : tokenize d "CREATE SCHEMA a" = [⟨.keyword .CREATE, ⟨0, 6⟩⟩,
          ⟨.word "SCHEMA", ⟨7, 13⟩⟩, ⟨.word "a", ⟨14, 15⟩⟩, ⟨.finish, ⟨15, 15⟩⟩] := by
        cases d <;> decide +kernel
      rw [schemas, lines, tokenize_newline d _ _ (by simp [alone]), alone]
      exact .header _ _ _ (ih.shift _)

/-- A statement that ends where the text does is the last one. -/
theorem statements_one {c d : Cursor} {node : Node} (fuel : Nat)
    (starts : isTerminator c.current.lexeme = false)
    (read : readStatement { c with depth := 0 } = .ok (node, d))
    (last : d.current.lexeme = .finish) : statements (fuel + 1) c = ([node], []) := by
  have ends : isTerminator d.current.lexeme = true := (isTerminator_iff _).mpr (.inr last)
  have complete : readComplete { c with depth := 0 } = .ok (node, d) := by
    rw [readComplete, read]
    exact if_pos ends
  have rest : statements fuel d = ([], []) := by
    cases fuel <;> simp [statements, last]
  rw [statements_readOne fuel starts, readOne, complete]
  simp [rest]

theorem headers_read {n : Nat} {tokens : List Token} (headers : Headers (n + 1) tokens)
    (bytes : Nat) : (ofTokens bytes tokens).errors = [] ∧
      n + 1 ≤ (ofTokens bytes tokens).root.weight Scale.tally.of := by
  cases headers with
  | @header n tokens s₁ s₂ s₃ others =>
      let c := atHeader ⟨0, 0⟩ s₁ s₂ s₃ 0 tokens
      have length := others.length_eq
      obtain ⟨node, d, called, last, deep⟩ := read_headers others s₁ s₂ s₃ ⟨0, 0⟩ c.tokens
        (.opened none c) 0 (by simp [c, Cursor.tokens, atHeader]; omega)
      have read : readStatement c = .ok (node, d) := by
        rw [readStatement, Grammar.run, Grammar.read_create rfl, called]
        rfl
      have all : statements (c.tokens.length + 1) c = ([node], []) :=
        statements_one _ rfl read last
      have whole : ofTokens bytes c.tokens = ⟨⟨.script, ⟨0, bytes⟩, none, [node]⟩, []⟩ := by
        show Script.mk ⟨.script, ⟨0, bytes⟩, none, (statements (c.tokens.length + 1) c).1⟩
          (statements (c.tokens.length + 1) c).2 = _
        rw [all]
      have script : Scale.tally.of .script = 0 := rfl
      show (ofTokens bytes c.tokens).errors = [] ∧ _ ≤ (ofTokens bytes c.tokens).root.weight _
      rw [whole]
      refine ⟨rfl, ?_⟩
      simp only [Node.weight, Node.heaviest, script]
      omega

/-- However many headers follow one another, all are read, and each is a statement in the one
before. -/
theorem schemas_read (d : Dialect) (n : Nat) :
    (read d (schemas (n + 1))).errors = [] ∧
      n + 1 ≤ (read d (schemas (n + 1))).root.weight Scale.tally.of := by
  obtain ⟨errors, deep⟩ :=
    headers_read (tokenize_schemas d (n + 1)) (schemas (n + 1)).utf8ByteSize
  refine ⟨errors, deep.trans ?_⟩
  exact (weight_nameOptions _ _).ge

end Script
end SqlAudit
