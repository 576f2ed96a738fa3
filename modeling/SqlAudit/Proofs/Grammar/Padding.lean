import SqlAudit.Proofs.Grammar.Derivation
/-!
The end of a text, twice. A reading that leaves the end where it is takes no notice of another end
behind it; so it can be looked at from one token further on.
-/
namespace SqlAudit

namespace Cursor

variable {last : Token} {c d : Cursor}

/-- With this token behind all others. -/
def padded (last : Token) (c : Cursor) : Cursor := { c with rest := c.rest ++ [last] }

/-- This is the last token. -/
def EndsWith (last : Token) (c : Cursor) : Prop := c.tokens.getLast? = some last

/-- The last token has been taken. -/
def Beyond (last : Token) (c : Cursor) : Prop := c.rest = [] ∧ c.previous = last.span

theorem padded_tokens (last : Token) (c : Cursor) : (c.padded last).tokens = c.tokens ++ [last] := rfl

theorem EndsWith.current (ends : c.EndsWith last) (none : c.rest = []) : c.current = last := by
  rw [EndsWith, tokens, none] at ends
  exact Option.some.inj ends

theorem EndsWith.after (ends : c.EndsWith last) (suffix : d.tokens <:+ c.tokens) :
    d.EndsWith last := by
  obtain ⟨front, whole⟩ := suffix
  rw [EndsWith, ← whole, List.getLast?_append, List.getLast?_eq_some_getLast d.tokens_ne_nil] at ends
  rw [EndsWith, List.getLast?_eq_some_getLast d.tokens_ne_nil]
  exact ends

/-- What has been taken stays so. -/
theorem Beyond.advance (beyond : c.Beyond last) (ends : c.EndsWith last) :
    c.advance.Beyond last := by
  constructor
  · rw [advance_rest, beyond.1]
    rfl
  · rw [advance_previous, ends.current beyond.1]

theorem advance_padded (ends : c.EndsWith last) (stays : ¬c.advance.Beyond last) :
    (c.padded last).advance = c.advance.padded last := by
  cases rest : c.rest with
  | nil =>
      have beyond : c.advance.Beyond last := by
        constructor
        · rw [advance_rest, rest]
          rfl
        · rw [advance_previous, ends.current rest]
      exact absurd beyond stays
  | cons token tokens => simp [padded, Cursor.advance, rest]

theorem peek_padded (ends : c.EndsWith last) : (c.padded last).peek = c.peek := by
  cases rest : c.rest with
  | nil => simp [padded, peek, rest, ends.current rest]
  | cons token tokens => simp [padded, peek, rest]

/-- Phrases are made of words, so they end before the text does. -/
theorem phrase_padded (finish : last.lexeme = .finish) (phrases : Phrases) (matched : List String)
    (left left' : List Token) (ends : c.EndsWith last) (enough : c.rest.length < left.length)
    (enough' : c.rest.length < left'.length) :
    (c.padded last).phrase phrases matched left' =
      ((c.phrase phrases matched left).1, (c.phrase phrases matched left).2.padded last) := by
  induction left generalizing matched left' c with
  | nil => exact absurd enough (Nat.not_lt_zero _)
  | cons token left ih =>
      cases left' with
      | nil => exact absurd enough' (Nat.not_lt_zero _)
      | cons token' left' =>
          have here : (c.padded last).current = c.current := rfl
          rw [phrase, phrase, here]
          cases spelled : c.current.lexeme.capitals? with
          | none => rfl
          | some word =>
              have more : c.rest ≠ [] := by
                intro none
                rw [ends.current none, finish] at spelled
                cases spelled
              have next : (c.padded last).advance = c.advance.padded last := by
                obtain ⟨first, others, rest⟩ := List.exists_cons_of_ne_nil more
                simp [padded, Cursor.advance, rest]
              have shorter := advance_shorter more
              rw [List.length_cons] at enough enough'
              dsimp only
              split
              · rw [next]
                exact ih _ _ (ends.after c.advance_suffix) (by omega) (by omega)
              · rfl

end Cursor

variable {last : Token} {c d : Cursor} {f g : Frame}

theorem Path.beyond {ok : Cursor → Prop} (path : Path ok c d) (ends : c.EndsWith last)
    (beyond : c.Beyond last) : d.Beyond last := by
  induction path with
  | here => exact beyond
  | take before allowed ih => exact ih.advance (ends.after before.suffix)
  | turn before depth ih => exact ih

theorem Test.holds_padded (ends : c.EndsWith last) (test : Test) :
    test.holds f (c.padded last) = test.holds f c := by
  induction test with
  | next tokens => rw [holds, holds, Cursor.peek_padded ends]
  | both a b first second => rw [holds, holds, first, second]
  | either a b first second => rw [holds, holds, first, second]
  | neither a ih => rw [holds, holds, ih]
  | _ => rfl

namespace Grammar

theorem Changes.padded (finish : last.lexeme = .finish) {a : Grammar} (changes : Changes a f c g d)
    (ends : c.EndsWith last) (stays : ¬d.Beyond last) :
    Changes a f (c.padded last) g (d.padded last) := by
  cases changes with
  | nothing => exact .nothing
  | take =>
      rw [← Cursor.advance_padded ends stays]
      exact .take
  | copy spelling => exact .copy spelling
  | write text => exact .write text
  | gap => exact .gap
  | @phrase _ _ _ phrases words spoken =>
      apply Changes.phrase
      rw [Cursor.phrase_padded finish phrases [] c.tokens _ ends (Nat.lt_succ_self _)
        (by simp only [Cursor.padded_tokens, List.length_append, Cursor.length_tokens]; omega), spoken]
  | become real => exact .become real
  | dissolve => exact .dissolve
  | splice => exact .splice
  | echo => exact .echo

/-- What leaves the end of the text where it is can be derived before another end as well. -/
theorem Derives.padded {rules : Nonterminal → Grammar} (finish : last.lexeme = .finish)
    {a : Grammar} (derives : Derives rules a f c g d) (ends : c.EndsWith last)
    (stays : ¬d.Beyond last) : Derives rules a f (c.padded last) g (d.padded last) := by
  have longer {c d : Cursor} (moved : d.rest.length < c.rest.length) :
      (d.padded last).rest.length < (c.padded last).rest.length := by
    simpa [Cursor.padded] using moved
  induction derives with
  | change changes => exact .change (changes.padded finish ends stays)
  | seq first second left right =>
      have between := ends.after first.steps.path.suffix
      have early := fun beyond => stays (second.steps.path.beyond between beyond)
      exact .seq (left ends early) (right between stays)
  | yes holds taken ih => exact .yes (by rwa [Test.holds_padded ends]) (ih ends stays)
  | no fails taken ih => exact .no (by rwa [Test.holds_padded ends]) (ih ends stays)
  | stop fails => exact .stop (by rwa [Test.holds_padded ends])
  | round holds once again left right =>
      have between := ends.after once.steps.path.suffix
      have early := fun beyond => stays (again.steps.path.beyond between beyond)
      exact .round (by rwa [Test.holds_padded ends]) (left ends early) (right between stays)
  | node real inner moved ih => exact .node real (ih ends stays) (longer moved)
  | wrap real inner moved ih => exact .wrap real (ih ends stays) (longer moved)
  | discard inner ih => exact .discard (ih ends stays)
  | @deeper a f g c d shallow inner ih =>
      exact @Derives.deeper _ _ _ _ (c.padded last) (d.padded last) shallow (ih ends stays)
  | call ruled moved ih => exact .call (ih ends stays) (longer moved)

end Grammar
end SqlAudit
