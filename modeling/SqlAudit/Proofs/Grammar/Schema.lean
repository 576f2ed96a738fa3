import SqlAudit.Grammar.Reading
import SqlAudit.Grammar.Statement
/-!
How CREATE SCHEMA is read where nothing optional is said. The statements in a schema are read by the
rule that reads the schema itself, at the depth at which it is read.
-/
namespace SqlAudit

namespace Grammar

variable {call : Nonterminal → Frame → Cursor → Reading} {f g h : Frame} {c d : Cursor}
  {a b : Test} {text : String} {spellings : List String} {k : Keyword} {ks : List Keyword}
  {ss : List Symbol}

@[simp] theorem holds_and : (a &&& b).holds f c = (a.holds f c && b.holds f c) := rfl

@[simp] theorem holds_or : (a ||| b).holds f c = (a.holds f c || b.holds f c) := rfl

@[simp] theorem holds_not : (~~~a).holds f c = !a.holds f c := rfl

@[simp] theorem words_word : (TokenClass.words spellings).holds (.word text) =
    spellings.contains (Text.capitals text) := rfl

@[simp] theorem keywords_keyword : (TokenClass.keywords ks).holds (.keyword k) = ks.contains k :=
  rfl

@[simp] theorem keywords_word : (TokenClass.keywords ks).holds (.word text) = false := rfl

@[simp] theorem keywords_finish : (TokenClass.keywords ks).holds .finish = false := rfl

@[simp] theorem symbols_keyword : (TokenClass.symbols ss).holds (.keyword k) = false := rfl

@[simp] theorem anyWord_word : TokenClass.anyWord.holds (.word text) = true := rfl

/-- At the header of a schema, before other tokens. -/
def atHeader (p s₁ s₂ s₃ : Span) (depth : Nat) (tokens : List Token) : Cursor :=
  ⟨p, ⟨.keyword .CREATE, s₁⟩, ⟨.word "SCHEMA", s₂⟩ :: ⟨.word "a", s₃⟩ :: tokens, depth⟩

theorem append_eq_seq (a b : Grammar) : a ++ b = .seq a b := rfl

/-- A token that is no modifier is left alone. -/
theorem read_modifiers {s : Span} (here : c.current = ⟨.word "SCHEMA", s⟩) :
    Grammar.read call modifiers f c = .ok (f, c) := by
  have capitals : Text.capitals "SCHEMA" = "SCHEMA" := by decide +kernel
  simp [modifiers, Grammar.read, Cursor.tokens, repeatWhile, keywords, words, Test.holds, here,
    capitals]

/-- The name of a schema, with none of the options that can stand around it. -/
theorem read_createSchema {p s₁ s₂ : Span} {next : Token} {more : List Token} {depth : Nat}
    (plain : TokenClass.holds (.words ["AUTHORIZATION"]) next.lexeme = false)
    (unnamed : f.value = none) :
    Grammar.read call createSchema f
        ⟨p, ⟨.word "SCHEMA", s₁⟩, ⟨.word "a", s₂⟩ :: next :: more, depth⟩ =
      Grammar.read call schemaElements { f with value := some "a" } ⟨s₂, next, more, depth⟩ := by
  have capitals : Text.capitals "a" = "A" := by decide +kernel
  have lowercase : Text.lowercase "a" = "a" := by decide +kernel
  simp [createSchema, append_eq_seq, Grammar.read, Cursor.advance, ifNotExists, whenever, word,
    anyName, Test.holds, capitals, name, takeAs, Spelling.of, lowercase, Frame.write, unnamed,
    authorization, plain]

/-- The header of a schema, and then what follows it. -/
theorem read_createRule {p s₁ s₂ s₃ : Span} {next : Token} {more : List Token} {depth : Nat}
    (plain : TokenClass.holds (.words ["AUTHORIZATION"]) next.lexeme = false)
    (elements : Grammar.read call schemaElements ⟨some .createSchema, s₁.start, some "a", []⟩
      ⟨s₃, next, more, depth⟩ = .ok (g, d)) :
    Grammar.read call createRule f (atHeader p s₁ s₂ s₃ depth (next :: more)) =
      .ok (f.close g d, d) := by
  have capitals : Text.capitals "SCHEMA" = "SCHEMA" := by decide +kernel
  simp [atHeader, createRule, append_eq_seq, Grammar.read, expectKeyword, expect, keyword,
    Test.holds, Cursor.advance, read_modifiers, choose, word, capitals, read_createSchema plain,
    Frame.opened, elements]

theorem read_noElements (last : c.current.lexeme = .finish) :
    Grammar.read call schemaElements f c = .ok (f, c) := by
  simp [schemaElements, whenever, Grammar.read, keywords, Test.holds, last]

theorem read_oneElement (here : c.current.lexeme = .keyword .CREATE)
    (called : call .createStatement (.opened (some .schemaElements) c) c = .ok (h, d))
    (last : d.current.lexeme = .finish) :
    Grammar.read call schemaElements f c = .ok (f.close h d, d) := by
  have holds : ∀ f, (keywords [.CREATE, .GRANT]).holds f c = true := by
    simp [keywords, Test.holds, here]
  have step : Grammar.read call (.branch (keyword .CREATE) (.call .createStatement) grant)
      (.opened (some .schemaElements) c) c = .ok (h, d) := by
    simp [Grammar.read, keyword, Test.holds, here, called]
  have stop : ∀ left, repeatWhile (keywords [.CREATE, .GRANT])
      (Grammar.read call (.branch (keyword .CREATE) (.call .createStatement) grant)) left h d =
        .ok (h, d) := by
    intro left
    cases left <;> simp [repeatWhile, keywords, Test.holds, last]
  rw [schemaElements, whenever, Grammar.read, if_pos (holds f), Grammar.read, Grammar.read,
    Cursor.tokens, repeatWhile, if_pos (holds _), step]
  simp only [stop]

/-- A statement that starts with CREATE is one to create something. -/
theorem read_create (here : c.current.lexeme = .keyword .CREATE) :
    Grammar.read call statement f c = call .createStatement f c := by
  simp [statement, choose, Grammar.read, startsQuery, symbol, keyword, keywords, Test.holds, here]

end Grammar
end SqlAudit
