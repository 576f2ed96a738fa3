import SqlAudit.Grammar.Reading
import SqlAudit.Proofs.Token.Order
/-!
How a reading moves. Whatever the grammar is, a cursor only moves on, so what is left of the tokens
is always a suffix of what was left before; on the tokens of a text the end of the text is the only
place where it stays.
-/
namespace SqlAudit

/-- The cursor that a reading ended at. -/
def Reading.cursor : Reading → Cursor
  | .ok (_, c) => c
  | .error (_, c) => c

namespace Cursor

@[simp] theorem tokens_ne_nil (c : Cursor) : c.tokens ≠ [] := by simp [tokens]

theorem length_tokens (c : Cursor) : c.tokens.length = c.rest.length + 1 := rfl

theorem advance_current (c : Cursor) : c.advance.current = c.peek := by
  unfold advance peek
  split <;> simp [*]

theorem advance_previous (c : Cursor) : c.advance.previous = c.current.span := by
  unfold advance
  split <;> rfl

theorem advance_rest (c : Cursor) : c.advance.rest = c.rest.tail := by
  unfold advance
  split <;> simp [*]

theorem advance_depth (c : Cursor) : c.advance.depth = c.depth := by
  unfold advance
  split <;> rfl

/-- Where another token follows, the current one is left behind. -/
theorem tokens_advance {c : Cursor} (more : c.rest ≠ []) :
    c.tokens = c.current :: c.advance.tokens := by
  unfold advance
  split
  · exact absurd ‹_› more
  · simp [tokens, *]

/-- The last token is never left behind. -/
theorem advance_last {c : Cursor} (last : c.rest = []) : c.advance.tokens = c.tokens := by
  simp [advance, tokens, last]

theorem advance_shorter {c : Cursor} (more : c.rest ≠ []) :
    c.advance.rest.length < c.rest.length := by
  have some := List.length_pos_iff.mpr more
  rw [advance_rest, List.length_tail]
  omega

theorem advance_suffix (c : Cursor) : c.advance.tokens <:+ c.tokens := by
  by_cases more : c.rest = []
  · simp [advance_last more]
  · rw [tokens_advance more]
    exact List.suffix_cons ..

theorem rest_length_le {c d : Cursor} (after : d.tokens <:+ c.tokens) :
    d.rest.length ≤ c.rest.length := by
  have shorter := after.length_le
  rwa [length_tokens, length_tokens, Nat.add_le_add_iff_right] at shorter

theorem phrase_suffix (phrases : Phrases) (matched : List String) (left : List Token) (c : Cursor) :
    (c.phrase phrases matched left).2.tokens <:+ c.tokens := by
  induction left generalizing matched c with
  | nil => exact List.suffix_refl _
  | cons token left ih =>
      rw [phrase]
      split
      · split
        · exact (ih _ c.advance).trans c.advance_suffix
        · exact List.suffix_refl _
      · exact List.suffix_refl _

/-- A cursor among the tokens of a text of `size` bytes: what is left closes with the end of the
text and stands after what has been read. -/
def Ordered (size : Nat) (c : Cursor) : Prop := InOrder c.previous.stop size c.tokens

namespace Ordered

variable {size : Nat} {c : Cursor}

theorem previous_stop_le (ordered : c.Ordered size) : c.previous.stop ≤ c.current.span.start :=
  (InOrder.head ordered).1

theorem current_span (ordered : c.Ordered size) : c.current.span.start ≤ c.current.span.stop :=
  (InOrder.head ordered).2.1

theorem finish_iff (ordered : c.Ordered size) : c.current.lexeme = .finish ↔ c.rest = [] :=
  InOrder.finish_iff ordered

theorem more (ordered : c.Ordered size) (notFinish : c.current.lexeme ≠ .finish) : c.rest ≠ [] :=
  fun last => notFinish (ordered.finish_iff.mpr last)

theorem current_nonempty (ordered : c.Ordered size) (notFinish : c.current.lexeme ≠ .finish) :
    c.current.span.start < c.current.span.stop :=
  (InOrder.tail ordered (ordered.more notFinish)).1

theorem advance (ordered : c.Ordered size) : c.advance.Ordered size := by
  unfold Ordered at *
  rw [advance_previous]
  by_cases more : c.rest = []
  · rw [advance_last more]
    rw [tokens, more] at ordered ⊢
    rw [(InOrder.last ordered).1]
    exact .finish (Nat.le_refl _)
  · rw [tokens_advance more] at ordered
    exact (ordered.tail (tokens_ne_nil _)).2

end Ordered

end Cursor

namespace Grammar

theorem repeatWhile_suffix {test : Test} {step : Frame → Cursor → Reading}
    (onward : ∀ f c, (step f c).cursor.tokens <:+ c.tokens) (left : List Token) (f : Frame)
    (c : Cursor) : (repeatWhile test step left f c).cursor.tokens <:+ c.tokens := by
  induction left generalizing f c with
  | nil => exact List.suffix_refl _
  | cons token left ih =>
      rw [repeatWhile]
      split
      · have first := onward f c
        split <;> rename_i found <;> rw [found] at first
        · exact (ih _ _).trans first
        · exact first
      · exact List.suffix_refl _

variable {call : Nonterminal → Frame → Cursor → Reading}

theorem read_suffix (onward : ∀ name f c, (call name f c).cursor.tokens <:+ c.tokens)
    (a : Grammar) (f : Frame) (c : Cursor) : (read call a f c).cursor.tokens <:+ c.tokens := by
  induction a generalizing f c with
  | take => exact c.advance_suffix
  | phrase phrases =>
      have moved := c.phrase_suffix phrases [] c.tokens
      rw [read]
      split <;> rename_i found <;> rw [found] at moved <;> exact moved
  | seq a b first second =>
      have here := first f c
      rw [read]
      split <;> rename_i found <;> rw [found] at here
      · exact (second _ _).trans here
      · exact here
  | branch test a b first second =>
      rw [read]
      split
      · exact first f c
      · exact second f c
  | loop test a ih => exact repeatWhile_suffix ih c.tokens f c
  | node kind a ih =>
      have inner := ih (.opened kind c) c
      rw [read]
      split <;> rename_i found <;> rw [found] at inner <;> exact inner
  | wrap kind a ih =>
      have inner := ih (f.wrapLast kind c).1 c
      rw [read]
      split <;> rename_i found <;> rw [found] at inner <;> exact inner
  | discard a ih =>
      have inner := ih (.opened none c) c
      rw [read]
      split <;> rename_i found <;> rw [found] at inner <;> exact inner
  | deeper a ih =>
      have inner := ih f { c with depth := c.depth + 1 }
      rw [read]
      dsimp only
      split
      · exact List.suffix_refl _
      · split <;> rename_i found <;> rw [found] at inner <;> exact inner
  | call name => exact onward name f c
  | _ => exact List.suffix_refl _

theorem callRule_suffix (rules : Nonterminal → Grammar) (left : List Token) (name : Nonterminal)
    (f : Frame) (c : Cursor) : (callRule rules left name f c).cursor.tokens <:+ c.tokens := by
  induction left generalizing name f c with
  | nil => exact List.suffix_refl _
  | cons token left ih => exact read_suffix ih (rules name) f c

end Grammar
end SqlAudit
