import SqlAudit.Proofs.Script.Source
import SqlAudit.Proofs.Token.Spacing
import SqlAudit.Proofs.Token.Spelling
/-!
Nothing of a text is lost to its tokens. They cut it between characters; what a token says is what
stands at its span, and only blanks and comments stand between one token and the next.
-/
namespace SqlAudit

/-- The offset lies between two characters of a text, or at one of its ends. -/
def IsBoundary (chars : List Char) (offset : Nat) : Prop :=
  ∃ front back, chars = front ++ back ∧ Lexer.size front = offset

/-- The spans before each of the tokens that stand behind `offset`. -/
def gaps (offset : Nat) : List Token → List Span
  | [] => []
  | token :: tokens => ⟨offset, token.span.start⟩ :: gaps token.span.stop tokens

namespace Lexer

open Script (source dropBytes source_between dropBytes_between)

/-- The token has its place between characters of the text and says what stands there. -/
structure Faithful (text : List Char) (token : Token) : Prop where
  starts : IsBoundary text token.span.start
  stops : IsBoundary text token.span.stop
  spells : token.lexeme.Spells (source text token.span)

/-- Only blanks and comments stand in the span. -/
structure IsGap (text : List Char) (span : Span) : Prop where
  ordered : span.start ≤ span.stop
  spacing : Spacing (source text span) (dropBytes text span.stop)

theorem faithful_between {lexeme : Lexeme} {slice : List Char} (front back : List Char)
    (spells : lexeme.Spells slice) : Faithful (front ++ (slice ++ back))
      ⟨lexeme, ⟨size front, size front + size slice⟩⟩ := by
  constructor
  · exact ⟨front, slice ++ back, rfl, rfl⟩
  · exact ⟨front ++ slice, back, (List.append_assoc ..).symm, size_append _ _⟩
  · rwa [source_between]

theorem isGap_between {gap back : List Char} (front : List Char) (spacing : Spacing gap back) :
    IsGap (front ++ (gap ++ back)) ⟨size front, size front + size gap⟩ := by
  constructor
  · exact Nat.le_add_right ..
  · rwa [source_between, dropBytes_between]

/-- The tokens of what stands behind `front`, in the text as a whole. -/
theorem Lexes.faithful {d : Dialect} {offset : Nat} {chars : List Char} {tokens : List Token}
    (lexes : Lexes d offset chars tokens) (front : List Char) (reached : size front = offset) :
    (∀ token ∈ tokens, Faithful (front ++ chars) token) ∧
      ∀ gap ∈ gaps offset tokens, IsGap (front ++ chars) gap := by
  induction lexes generalizing front with
  | @finish offset gap layout =>
      subst reached
      constructor
      · intro token member
        cases List.mem_singleton.mp member
        have finish := @faithful_between .finish [] (front ++ gap) [] trivial
        simpa [size, size_append] using finish
      · intro span member
        cases List.mem_singleton.mp member
        simpa using isGap_between front layout.spacing
  | @token offset c gap rest tokens layout more ih =>
      subst reached
      have covers := (scan_covers d c rest).whole
      have passed : size (front ++ gap ++ (scan d c rest).source) =
          size front + size gap + size (scan d c rest).source := by
        rw [size_append, size_append]
      have whole : front ++ gap ++ (scan d c rest).source ++ (scan d c rest).rest =
          front ++ (gap ++ c :: rest) := by
        rw [← covers]
        simp
      obtain ⟨later, between⟩ := ih _ passed
      rw [whole] at later between
      constructor
      · refine List.forall_mem_cons.mpr ⟨?_, later⟩
        have here := faithful_between (front ++ gap) (scan d c rest).rest (scan_spells d c rest)
        rwa [covers, size_append, List.append_assoc] at here
      · exact List.forall_mem_cons.mpr ⟨isGap_between front layout.spacing, between⟩

end Lexer

open Lexer in
/-- Tokenization accounts for the whole text: the tokens, of which the end of the text is the last
one and no other, stand in order without overlapping, each takes some characters and says what they
are, and before and behind each only blanks and comments are left. -/
theorem tokenize_lossless (d : Dialect) (text : String) :
    (∃ tokens, tokenize d text =
        tokens ++ [⟨.finish, ⟨text.utf8ByteSize, text.utf8ByteSize⟩⟩] ∧
      ∀ token ∈ tokens, token.lexeme ≠ .finish ∧ token.span.start < token.span.stop) ∧
    ((tokenize d text).Pairwise fun first second => first.span.stop ≤ second.span.start) ∧
    (∀ token ∈ tokenize d text, Faithful text.toList token) ∧
    ∀ gap ∈ gaps 0 (tokenize d text), IsGap text.toList gap := by
  have ordered := tokenize_inOrder d text
  obtain ⟨split, others⟩ := ordered.split_last
  obtain ⟨faithful, between⟩ := (tokenize_lexes d text).faithful [] rfl
  refine ⟨⟨_, split, ?_⟩, ordered.apart, faithful, between⟩
  intro token member
  have more := (others token member).1
  exact ⟨more, ordered.nonempty token (List.dropLast_sublist _ |>.mem member) more⟩

end SqlAudit
