import SqlAudit.Proofs.Grammar.Origin
/-!
Options of routines that no rule looks into. Such an option goes on over whatever follows, up to the
end of the statement or a word that a characteristic can start with; what starts a statement does
not stop it.
-/
namespace SqlAudit

namespace Grammar

/-- The words that another one belongs to, whatever it is. -/
def opensPair (lexeme : Lexeme) : Bool :=
  (TokenClass.keywords [.NOT]).holds lexeme ||
    (TokenClass.words ["EXTERNAL", "RETURNS"]).holds lexeme

/-- An option does not go on here. -/
def endsOption (lexeme : Lexeme) : Bool :=
  ((TokenClass.symbols [.semicolon]).holds lexeme || TokenClass.finish.holds lexeme) ||
    ((TokenClass.words routineWords).holds lexeme ||
      (TokenClass.keywords [.AS, .NOT, .SET]).holds lexeme)

/-- So many tokens at the start of an option are taken whatever they are. -/
def unseen : List Token → Nat
  | first :: second :: _ => if opensPair first.lexeme && second.lexeme != .finish then 2 else 1
  | _ => 1

/-- The tokens of an option that starts where these do. -/
def optionTokens (tokens : List Token) : List Token :=
  tokens.take (unseen tokens) ++
    (tokens.drop (unseen tokens)).takeWhile fun token => !endsOption token.lexeme

theorem optionTokens_subset (tokens : List Token) : optionTokens tokens ⊆ tokens := by
  apply List.append_subset.mpr
  refine ⟨List.take_subset .., ?_⟩
  exact List.Subset.trans (List.takeWhile_subset _) (List.drop_subset ..)

/-- Whether an option goes on is asked of the current token only. -/
def optionGoes : Test := ~~~ (terminator ||| startsCharacteristic)

def optionStep : Grammar := .branch invalid (.fail "routine option") .take

def optionBody : Grammar :=
  .branch (keyword .NOT ||| words ["EXTERNAL", "RETURNS"]) (.take ++ .take) .take ++
    .loop optionGoes optionStep

example : routineOption = .node .routineOption optionBody := rfl

def isOptionBody (a : Grammar) : Bool := a == optionBody

variable {rules : Nonterminal → Grammar} {f g : Frame} {c d : Cursor} {size : Nat}

theorem optionGoes_holds (f : Frame) (c : Cursor) :
    optionGoes.holds f c = !endsOption c.current.lexeme := rfl

theorem take_advances (derives : Derives rules .take f c g d) : d = c.advance := by
  cases derives with
  | change changes =>
      cases changes with
      | take => rfl

theorem optionStep_advances (derives : Derives rules optionStep f c g d) : d = c.advance := by
  cases derives with
  | change changes => cases changes
  | yes holds taken =>
      cases taken with
      | change changes => cases changes
  | no fails taken => exact take_advances taken

theorem endsOption_finish : endsOption .finish = true := rfl

/-- The rounds of an option pass all tokens up to the first one that ends it. -/
theorem optionLoop_tokens (derives : Derives rules (.loop optionGoes optionStep) f c g d)
    (ordered : c.Ordered size) :
    d.tokens = c.tokens.dropWhile fun token => !endsOption token.lexeme := by
  generalize same : Grammar.loop optionGoes optionStep = a at derives
  induction derives with
  | @stop test a f c fails =>
      cases same
      rw [optionGoes_holds] at fails
      rw [Cursor.tokens, List.dropWhile_cons, fails, if_neg (by simp)]
  | @round test a f g h c d e holds once again left right =>
      cases same
      obtain rfl := optionStep_advances once
      rw [optionGoes_holds] at holds
      have more : c.rest ≠ [] := by
        apply ordered.more
        intro finish
        rw [finish, endsOption_finish] at holds
        cases holds
      rw [right ordered.advance rfl, Cursor.tokens_advance more, List.dropWhile_cons,
        if_pos holds]
  | change changes =>
      subst same
      cases changes
  | _ => cases same

theorem unseen_tokens (more : c.rest ≠ []) : unseen c.tokens =
    if opensPair c.current.lexeme && c.advance.current.lexeme != .finish then 2 else 1 := by
  rw [Cursor.tokens_advance more]
  rfl

/-- A pair is taken whole, unless the text ends within it; of anything else only the first token. -/
theorem optionStart_tokens
    (derives : Derives rules (.branch (keyword .NOT ||| words ["EXTERNAL", "RETURNS"])
      (.take ++ .take) .take) f c g d) (ordered : c.Ordered size) (more : c.rest ≠ []) :
    d.tokens = c.tokens.drop (unseen c.tokens) := by
  have onward := Cursor.tokens_advance more
  rw [unseen_tokens more]
  cases derives with
  | change changes => cases changes
  | yes pair taken =>
      replace pair : opensPair c.current.lexeme = true := pair
      cases taken with
      | change changes => cases changes
      | seq first second =>
          obtain rfl := take_advances first
          obtain rfl := take_advances second
          by_cases last : c.advance.current.lexeme = .finish
          · have none := ordered.advance.finish_iff.mp last
            rw [if_neg (by simp [last]), onward, Cursor.advance_last none]
            rfl
          · rw [if_pos (by simp [pair, last]), onward,
              Cursor.tokens_advance (ordered.advance.more last)]
            rfl
  | no single taken =>
      replace single : opensPair c.current.lexeme = false := single
      obtain rfl := take_advances taken
      rw [if_neg (by simp [single]), onward]
      rfl

theorem option_tokens (derives : Derives rules optionBody f c g d) (ordered : c.Ordered size)
    (moved : d.rest.length < c.rest.length) : c.tokens = optionTokens c.tokens ++ d.tokens := by
  have more : c.rest ≠ [] := List.ne_nil_of_length_pos (Nat.zero_lt_of_lt moved)
  cases derives with
  | change changes => cases changes
  | @seq _ _ _ between _ _ e _ first loop =>
      have start := optionStart_tokens first ordered more
      have rest := optionLoop_tokens loop (first.steps.path.ordered ordered)
      rw [optionTokens, rest, start, List.append_assoc, List.takeWhile_append_dropWhile,
        List.take_append_drop]

theorem onlyBy_expressionFrom (power : Nat) :
    onlyBy .routineOption isOptionBody (expressionFrom power) =
      onlyBy .routineOption isOptionBody (expressionFrom 0) := rfl

theorem rules_option (name : Nonterminal) :
    onlyBy .routineOption isOptionBody (Grammar.rules name) = true := by
  cases name with
  | expression power =>
      rw [Grammar.rules, onlyBy_expressionFrom]
      decide +kernel
  | query => decide +kernel
  | joinedTable => decide +kernel
  | createStatement => decide +kernel
  | group => decide +kernel
  | atomicBody => decide +kernel

theorem statement_option : onlyBy .routineOption isOptionBody statement = true := by decide +kernel

end Grammar

end SqlAudit
