import SqlAudit.Proofs.Token.Alone
import SqlAudit.Proofs.Token.Recasing
/-!
The start of a text. Words, marks and blanks between them are the same tokens however the text goes
on, so a text that stands behind them has its own tokens there.
-/
namespace SqlAudit

namespace Lexer

variable {d : Dialect} {c : Char} {front rest : List Char} {lexeme : Lexeme}
  {lexemes : List Lexeme}

/-- However the text goes on, these are its first tokens. -/
def Opens (d : Dialect) (front : List Char) (lexemes : List Lexeme) : Prop :=
  ∀ offset rest more, Lexes d (offset + size front) rest more →
    ∃ tokens : List Token, tokens.map (·.lexeme) = lexemes ∧
      (∀ token ∈ tokens, token.span.stop ≤ offset + size front) ∧
      Lexes d offset (front ++ rest) (tokens ++ more)

theorem Opens.none : Opens d [] [] :=
  fun _ _ _ lexes => ⟨[], rfl, fun _ member => absurd member List.not_mem_nil, lexes⟩

theorem Opens.blank (opens : Opens d front lexemes) (white : Text.isBlank c = true) :
    Opens d (c :: front) lexemes := by
  intro offset rest more lexes
  have place : offset + size (c :: front) = offset + size [c] + size front := by
    simp only [size]
    omega
  rw [place] at lexes ⊢
  obtain ⟨tokens, same, before, whole⟩ := opens _ rest more lexes
  exact ⟨tokens, same, before, Lexes.item [c] (layoutItem?_blank white _) whole⟩

/-- A token that is read alike whatever stands behind the next one. -/
theorem Opens.token (opens : Opens d front lexemes) {source : List Char}
    (clear : ∀ rest, layoutItem? (c :: (source ++ (front ++ rest))) = .none)
    (scanned : ∀ rest, scan d c (source ++ (front ++ rest)) = ⟨lexeme, c :: source, front ++ rest⟩) :
    Opens d (c :: source ++ front) (lexeme :: lexemes) := by
  intro offset rest more lexes
  have place : offset + size (c :: source ++ front) = offset + size (c :: source) + size front := by
    rw [size_append, Nat.add_assoc]
  rw [place] at lexes ⊢
  obtain ⟨tokens, same, before, whole⟩ := opens _ rest more lexes
  have first := @Lexes.token d offset c [] (source ++ (front ++ rest)) (tokens ++ more)
    (.done (clear rest)) (by rw [scanned]; exact whole)
  rw [scanned] at first
  refine ⟨⟨lexeme, ⟨offset, offset + size (c :: source)⟩⟩ :: tokens, congrArg _ same, ?_,
    by simpa [size] using first⟩
  intro token member
  rcases List.mem_cons.mp member with rfl | later
  · exact Nat.le_add_right ..
  · exact before token later

/-- What is true of a letter without an accent. -/
theorem letter_plain (letter : c.isAlpha = true) : c ≠ '/' ∧ c ≠ '-' ∧ c ≠ '\x27' ∧ c ≠ '.' ∧
    c.isDigit = false ∧ Text.isBlank c = false ∧ isWordStart c = true := by
  have small : c.toNat < 128 := by
    show c.val.toNat < 128
    rcases (Bool.or_eq_true c.isUpper c.isLower).mp letter with upper | lower
    · have last : c.val ≤ 'Z'.val := (of_decide_eq_true upper).2
      exact Nat.lt_of_le_of_lt (UInt32.le_iff_toNat_le.mp last) (by decide)
    · have last : c.val ≤ 'z'.val := of_decide_eq_true (Bool.and_eq_true_iff.mp lower).2
      exact Nat.lt_of_le_of_lt (UInt32.le_iff_toNat_le.mp last) (by decide)
  obtain ⟨n, bound, rfl⟩ := Text.exists_ofNat small
  clear small
  revert n
  decide

/-- A word, before a character that no word goes on with. -/
theorem Opens.word {stop : Char} (opens : Opens d (stop :: front) lexemes) (name : List Char)
    (letter : startsWith Char.isAlpha name = true) (parts : name.all isWordPart = true)
    (stops : isWordPart stop = false) (unquoted : stop ≠ '\x27') :
    Opens d (name ++ stop :: front) ((Lexer.word name).lexeme :: lexemes) := by
  obtain ⟨c, name, rfl⟩ := List.exists_cons_of_ne_nil
    (show name ≠ [] by rintro rfl; cases letter)
  have each := List.all_eq_true.mp parts
  obtain ⟨slash, minus, quote, dot, digit, blank, starts⟩ := letter_plain letter
  refine opens.token (fun rest => ?_) (fun rest => ?_)
  · rw [layoutItem?_none_iff (by simp [slash])]
    simp [blank, minus]
  · have noQuote : startsWith (· == '\x27') (name ++ (stop :: front ++ rest)) = false := by
      cases name with
      | nil => simpa [startsWith] using unquoted
      | cons next name =>
          have other : next ≠ '\x27' := by
            rintro rfl
            exact absurd (each '\x27' (.tail _ (.head _))) (by decide)
          simpa [startsWith] using other
    have ends := @run_ends isWordPart (stop :: front ++ rest) _ each stops
    have alone := @run_ends isWordPart [] _ each rfl
    rw [List.append_nil] at alone
    rw [List.cons_append] at ends
    generalize name ++ (stop :: front ++ rest) = chars at noQuote ends
    simp only [scan, slash, quote, dot, digit, noQuote, starts, decide_false, Bool.false_and,
      Bool.and_false, Bool.or_false, Bool.false_eq_true, if_false, if_true, Lexer.word, ends, alone]

/-- A token of one character. -/
theorem Opens.mark (opens : Opens d front lexemes)
    (clear : ∀ rest, layoutItem? (c :: (front ++ rest)) = .none)
    (scanned : ∀ rest, scan d c (front ++ rest) = ⟨lexeme, [c], front ++ rest⟩) :
    Opens d (c :: front) (lexeme :: lexemes) :=
  @Opens.token d c front lexeme lexemes opens [] clear scanned

/-- A word with a blank behind it. -/
theorem Opens.spaced (opens : Opens d front lexemes) (name : String)
    (letter : startsWith Char.isAlpha name.toList = true)
    (parts : name.toList.all isWordPart = true) :
    Opens d (name.toList ++ ' ' :: front) ((Lexer.word name.toList).lexeme :: lexemes) :=
  (opens.blank (by decide)).word _ letter parts (by decide) (by decide)

theorem Opens.paren (opens : Opens d front lexemes) :
    Opens d ('(' :: front) (.symbol .openParen :: lexemes) := by
  cases d <;> exact opens.mark (fun _ => rfl) fun _ => rfl

theorem Opens.star (opens : Opens d front lexemes) :
    Opens d ('*' :: front) (.symbol .star :: lexemes) := by
  cases d <;> exact opens.mark (fun _ => rfl) fun _ => rfl

theorem Opens.one (opens : Opens d (' ' :: front) lexemes) :
    Opens d ('1' :: ' ' :: front) (.number "1" :: lexemes) :=
  opens.mark (fun _ => rfl) fun _ => rfl

end Lexer

open Lexer (Opens)

theorem lexemes_shift (n : Nat) (tokens : List Token) :
    (tokens.map (·.shift n)).map (·.lexeme) = tokens.map (·.lexeme) := by
  rw [List.map_map]
  rfl

/-- A text within another one has its own tokens there, if a line break stands behind it. -/
theorem tokenize_between (d : Dialect) {a : String} (q b : String) {lexemes : List Lexeme}
    (opens : Opens d a.toList lexemes)
    (valid : ∀ token ∈ tokenize d q, ∀ message, token.lexeme ≠ .invalid message) :
    ∃ front : List Token, front.map (·.lexeme) = lexemes ∧
      (∀ token ∈ front, token.span.stop ≤ a.utf8ByteSize) ∧
      tokenize d (a ++ q ++ "\n" ++ b) = front ++
        ((tokenize d q).dropLast.map (·.shift a.utf8ByteSize) ++
          (tokenize d b).map (·.shift (a.utf8ByteSize + q.utf8ByteSize + 1))) := by
  have behind := (tokenize_lexes d (q ++ "\n" ++ b)).shift a.utf8ByteSize
  rw [← Lexer.size_toList] at behind
  obtain ⟨front, same, before, whole⟩ := opens 0 _ _ behind
  rw [Nat.zero_add, Lexer.size_toList] at before
  have chars : (a ++ q ++ "\n" ++ b).toList = a.toList ++ (q ++ "\n" ++ b).toList := by
    simp [String.toList_append]
  have all := tokenize_lexes d (a ++ q ++ "\n" ++ b)
  rw [chars] at all
  have shifts (m n : Nat) (token : Token) : (token.shift m).shift n = token.shift (n + m) := by
    simp only [Token.shift, Span.shift, Nat.add_assoc, Nat.add_comm m]
  refine ⟨front, same, before, ?_⟩
  rw [all.unique whole, tokenize_newline d q b valid, List.map_append, List.map_map,
    Lexer.size_toList]
  simp only [Function.comp_def, shifts, Nat.add_assoc]

end SqlAudit
