import Mathlib.Data.List.Infix
import SqlAudit.Grammar.Statement
import SqlAudit.Proofs.Grammar.Movement
/-!
Phrases of words. Where a statement names the kind of an object, words are read as long as they
start a phrase of a table: always the longest such run. Nothing asks whether the run is a whole
phrase, so it can stop before the phrase does.
-/
namespace SqlAudit

/-- The words that some tokens start with, in capitals. -/
def leadingWords : List Token → List String
  | [] => []
  | token :: rest =>
    match token.lexeme.capitals? with
    | some word => word :: leadingWords rest
    | none => []

namespace Phrases

/-- The phrases as they stand in values. -/
def texts (phrases : Phrases) : List String := phrases.map fun phrase => " ".intercalate phrase

variable {phrases : Phrases} {words : List String}

theorem extends_iff : phrases.extends words = true ↔ ∃ phrase ∈ phrases, words <+: phrase := by
  simp [Phrases.extends]

theorem extends_of_prefix {longer : List String} (first : words <+: longer)
    (starts : phrases.extends longer = true) : phrases.extends words = true := by
  obtain ⟨phrase, member, begins⟩ := extends_iff.mp starts
  exact extends_iff.mpr ⟨phrase, member, first.trans begins⟩

/-- No two starts of phrases are the same text unless they are the same words. -/
def plain (phrases : Phrases) : Bool :=
  phrases.all fun phrase => phrase.inits.all fun start =>
    phrases.all fun other => " ".intercalate start != " ".intercalate other || start == other

theorem mem_texts_iff (plain : phrases.plain = true) (starts : phrases.extends words = true) :
    " ".intercalate words ∈ phrases.texts ↔ words ∈ phrases := by
  obtain ⟨phrase, member, begins⟩ := extends_iff.mp starts
  simp only [Phrases.plain, List.all_eq_true, List.mem_inits] at plain
  constructor
  · intro spelled
    obtain ⟨other, known, same⟩ := List.mem_map.mp spelled
    have equal := plain phrase member words begins other known
    simp only [same, bne_self_eq_false, Bool.false_or, beq_iff_eq] at equal
    exact equal ▸ known
  · exact List.mem_map_of_mem

end Phrases

/-- After the words `before`, the longest run at the start of some tokens with which they start a
phrase of a table; `left` are the tokens behind it. -/
structure IsRun (phrases : Phrases) (before : List String) (tokens : List Token)
    (run : List String) (left : List Token) : Prop where
  upcoming : run <+: leadingWords tokens
  consumed : left = tokens.drop run.length
  begins : run ≠ [] → phrases.extends (before ++ run) = true
  longest : ∀ words, words <+: leadingWords tokens →
    phrases.extends (before ++ words) = true → words <+: run

/-- Nothing was read and no token passed, or the longest phrase of a table that the tokens start
with. -/
def IsWhole (phrases : Phrases) (tokens : List Token) (run : List String) (left : List Token) :
    Prop :=
  run = [] ∧ left = tokens ∨
    run ∈ phrases ∧ run <+: leadingWords tokens ∧ left = tokens.drop run.length ∧
      ∀ phrase ∈ phrases, phrase <+: leadingWords tokens → phrase <+: run

namespace IsRun

variable {phrases : Phrases} {before : List String} {tokens : List Token}

theorem none (stops : ∀ word rest, leadingWords tokens = word :: rest →
    phrases.extends (before ++ [word]) = false) : IsRun phrases before tokens [] tokens where
  upcoming := List.nil_prefix
  consumed := rfl
  begins := by simp
  longest words first starts := by
    cases words with
    | nil => exact List.nil_prefix
    | cons word words =>
        obtain ⟨rest, ahead⟩ := first
        have shorter : before ++ [word] <+: before ++ word :: words := by
          rw [List.prefix_append_right_inj]
          exact ⟨words, rfl⟩
        have refused := stops word (words ++ rest) ahead.symm
        rw [Phrases.extends_of_prefix shorter starts] at refused
        cases refused

theorem word {token : Token} {word : String} {run : List String} {left : List Token}
    (here : token.lexeme.capitals? = some word) (starts : phrases.extends (before ++ [word]) = true)
    (later : IsRun phrases (before ++ [word]) tokens run left) :
    IsRun phrases before (token :: tokens) (word :: run) left := by
  have ahead : leadingWords (token :: tokens) = word :: leadingWords tokens := by
    rw [leadingWords, here]
  obtain ⟨upcoming, consumed, begins, longest⟩ := later
  refine ⟨?_, consumed, fun _ => ?_, fun words first begun => ?_⟩
  · rw [ahead]
    exact (List.prefix_cons_inj word).mpr upcoming
  · cases run with
    | nil => exact starts
    | cons next run => simpa using begins (List.cons_ne_nil _ _)
  · rw [ahead] at first
    cases words with
    | nil => exact List.nil_prefix
    | cons other words =>
        obtain ⟨rfl, rest⟩ := List.cons_prefix_cons.mp first
        exact (List.prefix_cons_inj _).mpr (longest words rest (by simpa using begun))

/-- A run that is a phrase is the longest phrase that the tokens start with. -/
theorem whole_iff {run : List String} {left : List Token}
    (isRun : IsRun phrases [] tokens run left) :
    IsWhole phrases tokens run left ↔ run = [] ∨ run ∈ phrases := by
  constructor
  · rintro (⟨none, -⟩ | ⟨phrase, -⟩)
    · exact .inl none
    · exact .inr phrase
  · rintro (rfl | phrase)
    · exact .inl ⟨rfl, isRun.consumed⟩
    · refine .inr ⟨phrase, isRun.upcoming, isRun.consumed, fun other known first => ?_⟩
      exact isRun.longest other first (Phrases.extends_iff.mpr ⟨other, known, List.prefix_refl _⟩)

end IsRun

namespace Cursor

/-- The words read as a phrase of the table. -/
def spoken (phrases : Phrases) (c : Cursor) : List String := (c.phrase phrases [] c.tokens).1

variable {phrases : Phrases} {c : Cursor}

/-- No word is the last token of a text. -/
theorem phrase_run (phrases : Phrases) (matched : List String)
    (last : (c.tokens.getLast c.tokens_ne_nil).lexeme = .finish) (left : List Token)
    (enough : c.rest.length < left.length) :
    ∃ run, (c.phrase phrases matched left).1 = matched ++ run ∧
      IsRun phrases matched c.tokens run (c.phrase phrases matched left).2.tokens := by
  induction left generalizing matched c with
  | nil => exact absurd enough (Nat.not_lt_zero _)
  | cons token left ih =>
      rw [phrase]
      cases found : c.current.lexeme.capitals? with
      | none =>
          refine ⟨[], by simp, .none fun word rest ahead => ?_⟩
          rw [tokens, leadingWords, found] at ahead
          cases ahead
      | some word =>
          have more : c.rest ≠ [] := by
            intro empty
            have current : c.current.lexeme = .finish := by simpa [tokens, empty] using last
            rw [current] at found
            cases found
          have shorter := advance_shorter more
          have tokens := tokens_advance more
          have lastLater : (c.advance.tokens.getLast c.advance.tokens_ne_nil).lexeme = .finish := by
            simpa [tokens] using last
          dsimp only
          split
          · rename_i starts
            rw [List.length_cons] at enough
            obtain ⟨run, spoken, isRun⟩ := ih (matched ++ [word]) lastLater (by omega)
            refine ⟨word :: run, by simp [spoken], ?_⟩
            rw [tokens]
            exact isRun.word found starts
          · rename_i stops
            refine ⟨[], by simp, .none fun other rest ahead => ?_⟩
            rw [Cursor.tokens, leadingWords, found] at ahead
            obtain ⟨rfl, -⟩ := List.cons.inj ahead
            simpa using stops

theorem spoken_run (last : (c.tokens.getLast c.tokens_ne_nil).lexeme = .finish)
    (phrases : Phrases) :
    IsRun phrases [] c.tokens (c.spoken phrases) (c.phrase phrases [] c.tokens).2.tokens := by
  obtain ⟨run, spoken, isRun⟩ := phrase_run phrases [] last c.tokens (Nat.lt_succ_self _)
  rw [Cursor.spoken, spoken]
  exact isRun

/-- Whatever is read starts a phrase. -/
theorem phrase_extends (phrases : Phrases) (matched : List String) (left : List Token)
    (c : Cursor) (starts : matched ≠ [] → phrases.extends matched = true) :
    (c.phrase phrases matched left).1 ≠ [] →
      phrases.extends (c.phrase phrases matched left).1 = true := by
  induction left generalizing matched c with
  | nil => exact starts
  | cons token left ih =>
      rw [phrase]
      split
      · split
        · exact ih _ _ fun _ => ‹_›
        · exact starts
      · exact starts

/-- A word that starts a phrase is read. -/
theorem phrase_prefix (phrases : Phrases) (matched : List String) (left : List Token)
    (c : Cursor) : matched <+: (c.phrase phrases matched left).1 := by
  induction left generalizing matched c with
  | nil => exact List.prefix_refl _
  | cons token left ih =>
      rw [phrase]
      split
      · split
        · exact (List.prefix_append ..).trans (ih _ _)
        · exact List.prefix_refl _
      · exact List.prefix_refl _

theorem spoken_ne_nil {f : Frame} (holds : (Test.phrase phrases).holds f c = true) :
    c.spoken phrases ≠ [] := by
  rw [Test.holds] at holds
  rw [spoken, tokens, phrase]
  split at holds
  · rename_i word found
    have first := phrase_prefix phrases [word] c.rest c.advance
    simp only [List.nil_append, holds, if_true]
    exact fun none => by simp [none] at first
  · cases holds

end Cursor

namespace Cursor

/-- What the words read as a phrase of the table span. -/
def spokenSpan (phrases : Phrases) (c : Cursor) : Span :=
  ⟨c.current.span.start, (c.phrase phrases [] c.tokens).2.previous.stop⟩

/-- Words are read as a phrase of the table at this place among the tokens, within a span. -/
structure Speaks (tokens : List Token) (place : Span) (phrases : Phrases) (c : Cursor) : Prop where
  inside : c.tokens <:+ tokens
  within : place.contains (c.spokenSpan phrases) = true
  some : c.spoken phrases ≠ []

theorem Speaks.mono {tokens : List Token} {place wide : Span} {phrases : Phrases} {c : Cursor}
    (speaks : c.Speaks tokens place phrases) (starts : wide.start ≤ place.start)
    (stops : place.stop ≤ wide.stop) : c.Speaks tokens wide phrases := by
  obtain ⟨inside, within, some⟩ := speaks
  simp only [Span.contains, Bool.and_eq_true, decide_eq_true_eq] at within
  refine ⟨inside, ?_, some⟩
  simp only [Span.contains, Bool.and_eq_true, decide_eq_true_eq]
  exact ⟨starts.trans within.1, within.2.trans stops⟩

end Cursor

/-- A value that was read as a phrase of a table at some place among the tokens, within a span: the
words of the run there. It is one of the texts of the table exactly if that run is a phrase. -/
def Spoken (tokens : List Token) (place : Span) (phrases : Phrases) (value : String) : Prop :=
  ∃ c : Cursor, c.Speaks tokens place phrases ∧ value = " ".intercalate (c.spoken phrases) ∧
    (value ∈ phrases.texts ↔ c.spoken phrases ∈ phrases)

theorem Cursor.Speaks.spoken {phrases : Phrases} {c : Cursor} {tokens : List Token} {place : Span}
    (speaks : c.Speaks tokens place phrases) (plain : phrases.plain = true) :
    Spoken tokens place phrases (" ".intercalate (c.spoken phrases)) := by
  have starts := c.phrase_extends phrases [] c.tokens (by simp) speaks.some
  exact ⟨c, speaks, rfl, Phrases.mem_texts_iff plain starts⟩

end SqlAudit
