import SqlAudit.Grammar.Statement
import SqlAudit.Proofs.Grammar.Soundness
/-!
The rules of the language pass their surveys, so what a survey watches for holds of every reading of
a statement. Two sorts of tokens are watched: pieces of text that are no token, and the semicolon.
In both cases the grammar takes a token unseen in the same few places, after USING in an order and
after NOT or EXTERNAL among the options of a routine.
-/
namespace SqlAudit

namespace Grammar

variable {w : Watch} {r : Range} {rules : Nonterminal → Grammar}

/-- There are at least as many tokens to nest rules by as there are tokens left. -/
theorem callRule_sound (unbarred : Unbarred w r)
    (passed : ∀ name, w.closed.contains name = false → passes w (rules name) false = true)
    (left : List Token) (name : Nonterminal) (f : Frame) (c : Cursor)
    (called : w.closed.contains name = false) (within : c.Within r)
    (enough : c.rest.length < left.length) :
    Lawful w r c.rest.length c.rest.length (.unknown true true) f c
      (callRule rules left name f c) := by
  induction left generalizing name f c with
  | nil => exact absurd enough (Nat.not_lt_zero _)
  | cons token left ih =>
      rw [List.length_cons] at enough
      have passes := passed name called
      rw [SqlAudit.passes] at passes
      cases surveyed : survey w (rules name) (.unknown false false) with
      | none => simp [surveyed] at passes
      | some after =>
          simp only [surveyed, Option.map_some, Option.getD_some] at passes
          have calls : CallsSound w r (callRule rules left) c.rest.length := by
            intro name f d called within deeper
            exact ih name f d called within (by omega)
          have start : Fits w r c.rest.length c.rest.length (.unknown false false) c :=
            .unknown within (Nat.le_refl _) (by simp) (Nat.le_refl _) (by simp)
          have lawful := survey_sound (f := f) unbarred (callRule_suffix rules left) calls
            (rules name) surveyed start
          apply lawful.mono
          intro d fits
          have moved := fits.moved passes
          exact .unknown fits.within fits.begun (fun _ => moved) fits.opened fun _ => moved

theorem run_sound (unbarred : Unbarred w r)
    (passed : ∀ name, w.closed.contains name = false → passes w (rules name) false = true)
    {a : Grammar} (passes : passes w a true = true) (f : Frame) (c : Cursor)
    (within : c.Within r) :
    Lawful w r c.rest.length (c.rest.length + 1) (.unknown true true) f c (a.run rules f c) := by
  rw [SqlAudit.passes] at passes
  cases surveyed : survey w a (.unknown false true) with
  | none => simp [surveyed] at passes
  | some after =>
      simp only [surveyed, Option.map_some, Option.getD_some] at passes
      have calls : CallsSound w r (callRule rules c.tokens) (c.rest.length + 1) := by
        intro name f d called within deeper
        exact callRule_sound unbarred passed c.tokens name f d called within deeper
      have start : Fits w r c.rest.length (c.rest.length + 1) (.unknown false true) c :=
        .unknown within (Nat.le_refl _) (by simp) (Nat.le_succ _) fun _ => Nat.lt_succ_self _
      have lawful := survey_sound (f := f) unbarred (callRule_suffix rules c.tokens) calls a
        surveyed start
      apply lawful.mono
      intro d fits
      have moved := fits.moved passes
      exact .unknown fits.within fits.begun (fun _ => moved) fits.opened
        fun _ => moved.trans (Nat.lt_succ_self _)

end Grammar

namespace Watch

/-- Tokens after which the grammar takes the next one without looking at it. -/
def unseen : List Lexeme := [.keyword .USING, .keyword .NOT, .word "EXTERNAL"]

/-- Pieces of text that are no token. -/
def lexical : Watch := ⟨.invalid "", unseen, [], [], rfl⟩

/-- Semicolons, in statements without a block of statements. -/
def terminator : Watch where
  watched := .symbol .semicolon
  loose := unseen
  barred := [Grammar.word "BEGIN" &&& Grammar.nextWord "ATOMIC"]
  closed := [.atomicBody]
  notWord := rfl

end Watch

namespace Grammar

/-- The power of an expression makes no difference to its survey. -/
theorem survey_expressionFrom (w : Watch) (power : Nat) (o : Outlook) :
    survey w (expressionFrom power) o = survey w (expressionFrom 0) o := by
  have learns : ∀ o : Outlook, o.learn (continues power) = o.learn (continues 0) := fun o => rfl
  have denies : ∀ o : Outlook, o.learn (continues power).neither = o.learn (continues 0).neither :=
    fun o => rfl
  have settles : ∀ o : Outlook, o.settles w (continues power) = o.settles w (continues 0) := by
    intro o
    have may : ∀ current next verdict,
        (continues power).may current next verdict = (continues 0).may current next verdict := by
      intro current next verdict
      rw [← Test.may_plain, ← Test.may_plain (continues 0)]
      rfl
    simp only [Outlook.settles, may]
    rfl
  have parts : ∀ p, expressionFrom p = .deeper (.seq operand (.loop (continues p) operatorTail)) :=
    fun p => rfl
  simp only [parts, survey, Outlook.afterLoop, learns, denies, settles]

theorem lexical_expression : passes .lexical (expressionFrom 0) false = true := by decide +kernel

theorem lexical_rules (name : Nonterminal) : passes .lexical (rules name) false = true := by
  cases name with
  | expression power =>
      rw [rules, passes, survey_expressionFrom]
      exact lexical_expression
  | query => decide +kernel
  | joinedTable => decide +kernel
  | createStatement => decide +kernel
  | group => decide +kernel
  | atomicBody => decide +kernel

theorem lexical_statement : passes .lexical statement true = true := by decide +kernel

theorem terminator_expression : passes .terminator (expressionFrom 0) false = true := by
  decide +kernel

theorem terminator_rules (name : Nonterminal)
    (called : Watch.terminator.closed.contains name = false) :
    passes .terminator (rules name) false = true := by
  cases name with
  | expression power =>
      rw [rules, passes, survey_expressionFrom]
      exact terminator_expression
  | query => decide +kernel
  | joinedTable => decide +kernel
  | createStatement => decide +kernel
  | group => decide +kernel
  | atomicBody => exact absurd called (by decide)

theorem terminator_statement : passes .terminator statement true = true := by decide +kernel

end Grammar
end SqlAudit
