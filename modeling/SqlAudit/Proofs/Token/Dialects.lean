import Mathlib.Data.List.Chain
import SqlAudit.Proofs.Token.Cover
import SqlAudit.Script
/-!
The dialects share a language. They differ in what a dollar sign, a backtick, the letter before a quote
and the name behind a colon mean; a text that holds none of these is the same text to all of them,
within strings and comments as well as outside.
-/
namespace SqlAudit

namespace Lexer

/-- Two characters that one dialect reads together and another does not: the mark of a string with
escapes, or of a parameter with a name. -/
def Marks (c next : Char) : Prop :=
  (c = 'E' ∨ c = 'e') ∧ next = '\x27' ∨ c = ':' ∧ (Text.isLetter next = true ∨ next = '_')

instance (c next : Char) : Decidable (Marks c next) := inferInstanceAs (Decidable (_ ∨ _))

/-- Characters that mean the same in every dialect. -/
structure Common (chars : List Char) : Prop where
  plain : ∀ c ∈ chars, c ≠ '$' ∧ c ≠ '\x60'
  unmarked : chars.IsChain fun c next => ¬Marks c next

variable {chars front rest : List Char} {c : Char} {p : Char → Bool}

theorem Common.behind (common : Common (front ++ rest)) : Common rest where
  plain c member := common.plain c (List.mem_append_right front member)
  unmarked := common.unmarked.right_of_append

/-- Where a mark has to be followed by a character, no such character follows. -/
theorem Common.not_startsWith (common : Common (c :: rest))
    (marks : ∀ next, p next = true → Marks c next) : startsWith p rest = false := by
  cases rest with
  | nil => rfl
  | cons next rest =>
      apply Bool.eq_false_iff.mpr
      intro starts
      have apart := (List.isChain_cons_cons.mp common.unmarked).1
      exact apart (marks next starts)

theorem Common.scan_eq (common : Common (c :: rest)) :
    scan .postgres c rest = scan .generic c rest := by
  obtain ⟨notDollar, notBacktick⟩ := common.plain c List.mem_cons_self
  have notEscape : ((c = 'E' || c = 'e') && startsWith (· == '\x27') rest) = false := by
    by_cases letter : c = 'E' ∨ c = 'e'
    · rw [common.not_startsWith (p := (· == '\x27'))
        (fun next quote => .inl ⟨letter, beq_iff_eq.mp quote⟩), Bool.and_false]
    · simp [not_or.mp letter]
  have notNamed : (decide (c = ':') && startsWith isWordStart rest) = false := by
    by_cases colon : c = ':'
    · rw [common.not_startsWith (p := isWordStart) fun next starts => .inr ⟨colon, by
        simpa [isWordStart] using starts⟩, Bool.and_false]
    · simp [colon]
  have sameQuotes : Dialect.postgres.quotes.contains c = Dialect.generic.quotes.contains c := by
    simp [Dialect.quotes, notBacktick]
  rw [scan, scan, notEscape, sameQuotes]
  simp [Dialect.hasDollarQuotes, Dialect.hasNamedParameters, notDollar, notNamed]

/-- Token by token the dialects stay together: what is left is as common as the whole. -/
theorem Common.tokens_eq (fuel offset : Nat) (common : Common chars) :
    tokens .postgres fuel offset chars = tokens .generic fuel offset chars := by
  induction fuel generalizing offset chars with
  | zero => rfl
  | succ fuel ih =>
      have passed := layout_covers fuel chars
      rw [tokens, tokens]
      generalize layout fuel chars = read at passed ⊢
      obtain ⟨gap, rest⟩ := read
      subst passed
      cases rest with
      | nil => rfl
      | cons c rest =>
          have here := common.behind
          have covers := (scan_covers .generic c rest).whole
          have later : Common (scan .generic c rest).rest := (covers ▸ here).behind
          dsimp only
          rw [here.scan_eq, ih _ later]

end Lexer

/-- A text in the common language has the same tokens in both dialects, and is the same script with
the same errors. -/
theorem dialects_agree (text : String) (common : Lexer.Common text.toList) :
    tokenize .postgres text = tokenize .generic text ∧
      Script.read .postgres text = Script.read .generic text := by
  have same : tokenize .postgres text = tokenize .generic text := common.tokens_eq _ _
  constructor
  · exact same
  · rw [Script.read, Script.read, same]

theorem dialects_agree_comment :
    Lexer.Common "SELECT e /* E : */ FROM \"a:1\" :".toList ∧
    tokenize .postgres "SELECT e /* E : */ FROM \"a:1\" :" =
      tokenize .generic "SELECT e /* E : */ FROM \"a:1\" :" := by
  have plain : "SELECT e /* E : */ FROM \"a:1\" :".toList.all
      (fun c => c != '$' && c != '\x60') = true := by decide +kernel
  have common : Lexer.Common "SELECT e /* E : */ FROM \"a:1\" :".toList := by
    constructor
    · intro c member
      simpa using List.all_eq_true.mp plain c member
    · decide +kernel
  exact ⟨common, (dialects_agree _ common).1⟩

end SqlAudit
