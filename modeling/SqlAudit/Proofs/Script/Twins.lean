import SqlAudit.Proofs.Grammar.Twins
import SqlAudit.Proofs.Script.Nesting
/-!
Scripts side by side. What is read of a statement does not depend on what follows its semicolon, and
the statements of a text do not depend on the places of its tokens.
-/
namespace SqlAudit

namespace Script

variable {place : Nat → Nat} {after after' : List Token} {c d : Cursor} {w : Watch} {r : Range}
  {size : Nat}

/-- A watch that the statements of the language keep to. -/
structure Kept (w : Watch) : Prop where
  settled : ∀ test ∈ w.barred, (Outlook.unknown false false).settles w test = true
  rules : ∀ name, w.closed.contains name = false → passes w (Grammar.rules name) false = true
  statement : passes w Grammar.statement true = true

theorem kept_lexical : Kept .lexical :=
  ⟨by decide, fun name _ => Grammar.lexical_rules name, Grammar.lexical_statement⟩

theorem kept_terminator : Kept .terminator :=
  ⟨by decide, Grammar.terminator_rules, Grammar.terminator_statement⟩

theorem readStatement_follows (seam : Seam w r after after') (mono : Monotone place)
    (kept : Kept w) (unbarred : Grammar.Unbarred w r) (within : c.Within r)
    (twin : Twin place after after' c d) :
    Follows place after after' (Node.relocate place) (readStatement c) (readStatement d) := by
  have one := Grammar.run_follows seam mono unbarred kept.settled kept.rules kept.statement
    (.opened none c) within twin
  rw [Frame.relocate_opened none twin] at one
  rw [readStatement, readStatement]
  cases found : Grammar.statement.run Grammar.rules (.opened none c) c with
  | error error =>
      rw [found] at one
      intro inside
      obtain ⟨b', read, next⟩ := one inside
      rw [read]
      exact ⟨b', rfl, next⟩
  | ok result =>
      obtain ⟨⟨kind, start, value, parts⟩, b⟩ := result
      rw [found] at one
      cases parts with
      | nil =>
          intro inside
          obtain ⟨b', read, next⟩ := one inside
          rw [read]
          exact ⟨b', by rw [← next.unexpected]; rfl, next⟩
      | cons node parts =>
          intro inside
          obtain ⟨b', read, next⟩ := one inside
          rw [read]
          exact ⟨b', rfl, next⟩

theorem readComplete_follows (seam : Seam w r after after') (mono : Monotone place)
    (kept : Kept w) (unbarred : Grammar.Unbarred w r) (within : c.Within r)
    (twin : Twin place after after' c d) :
    Follows place after after' (Node.relocate place) (readComplete c) (readComplete d) := by
  have one := readStatement_follows seam mono kept unbarred within twin
  rw [readComplete, readComplete]
  cases found : readStatement c with
  | error error =>
      rw [found] at one
      intro inside
      obtain ⟨b', read, next⟩ := one inside
      rw [read]
      exact ⟨b', rfl, next⟩
  | ok result =>
      obtain ⟨node, b⟩ := result
      rw [found] at one
      dsimp only
      split
      · rename_i ends
        intro inside
        obtain ⟨b', read, next⟩ := one inside
        rw [read]
        rw [← next.lexeme] at ends
        exact ⟨b', if_pos ends, next⟩
      · rename_i goes
        intro inside
        obtain ⟨b', read, next⟩ := one inside
        rw [read]
        rw [← next.lexeme] at goes
        exact ⟨b', by rw [← next.unexpected]; exact if_neg goes, next⟩

/-- Both skip the same tokens if a terminator stands at the seam, and stop at corresponding places
if they skip any. -/
theorem skipStatement_follows (seam : Seam w r after after')
    (terminates : after ≠ [] → ∀ lexeme : Lexeme, lexeme.outline = w.watched →
      isTerminator lexeme = true)
    (stop stop' : Nat) (left left' : List Token) (within : c.Within r)
    (twin : Twin place after after' c d) (enough : c.rest.length < left.length)
    (enough' : d.rest.length < left'.length)
    (stops : isTerminator c.current.lexeme = true → stop' = place stop) :
    (skipStatement stop' left' d).1 = place (skipStatement stop left c).1 ∧
      Twin place after after' (skipStatement stop left c).2 (skipStatement stop' left' d).2 := by
  induction left generalizing left' stop stop' c d with
  | nil => exact absurd enough (Nat.not_lt_zero _)
  | cons token left ih =>
      cases left' with
      | nil => exact absurd enough' (Nat.not_lt_zero _)
      | cons token' left' =>
          rw [skipStatement, skipStatement, twin.lexeme]
          split
          · exact ⟨stops ‹_›, twin⟩
          · rename_i goes
            have notFinish := ne_finish (by simpa using goes)
            have inside := twin.more seam within
              (fun some watched => goes (terminates some _ watched)) notFinish
            have next := twin.advance seam inside
            have shorter := Cursor.advance_shorter (within.ordered.more notFinish)
            have lengths := twin.lengths
            have lengths' := next.lengths
            rw [List.length_cons] at enough enough'
            refine ih _ _ left' (within.advance ?_) next (by omega) (by omega) fun _ => ?_
            · rwa [seam.beyond]
            · rw [twin.current]
              rfl

/-- Regions that were given up correspond to one another. -/
theorem recover_follows {b b' : Cursor} (error : SyntaxError) (seam : Seam w r after after')
    (mono : Monotone place)
    (terminates : after ≠ [] → ∀ lexeme : Lexeme, lexeme.outline = w.watched →
      isTerminator lexeme = true)
    (ordered : c.Ordered size) (starts : isTerminator c.current.lexeme = false)
    (path : Path (Lexical size c) c b) (within : b.Within r)
    (twin : Twin place after after' b b') :
    (recover (place c.current.span.start) (error.relocate place) b').1 =
        (recover c.current.span.start error b).1.relocate place ∧
      Twin place after after' (recover c.current.span.start error b).2
        (recover (place c.current.span.start) (error.relocate place) b').2 := by
  have reached : isTerminator b.current.lexeme = true →
      (if place c.current.span.start ≤ b'.previous.start then b'.previous.stop
        else place c.current.span.start) =
      place (if c.current.span.start ≤ b.previous.start then b.previous.stop
        else c.current.span.start) := by
    intro ends
    rcases path.previous_cases ordered with ⟨tokens, _⟩ | ⟨first, last⟩
    · have current : b.current = c.current := by injection tokens
      rw [current, starts] at ends
      cases ends
    · rcases twin.previous with same | ⟨none, -⟩
      · have later : place c.current.span.start ≤ b'.previous.start := by
          rw [same]
          exact mono first
        rw [if_pos later, if_pos first, same]
        rfl
      · -- Something has been taken, so the token before `b` does not end where the text begins.
        have nonempty := ordered.current_nonempty (ne_finish starts)
        omega
  obtain ⟨stop, next⟩ := skipStatement_follows seam terminates _ _ b.tokens b'.tokens within twin
    (Nat.lt_succ_self _) (Nat.lt_succ_self _) reached
  rw [recover, recover]
  refine ⟨?_, next⟩
  dsimp only
  rw [stop]
  rfl

/-- What was read goes from the current token to the last one before a terminator. -/
theorem readOne_sound (ordered : c.Ordered size) (starts : isTerminator c.current.lexeme = false) :
    Path (fun _ => True) c (readOne c).2.2 ∧ (readOne c).2.2.rest.length < c.rest.length ∧
      (readOne c).1.span = ⟨c.current.span.start, (readOne c).2.2.previous.stop⟩ ∧
      isTerminator (readOne c).2.2.current.lexeme = true := by
  obtain ⟨ends, ⟨-, read⟩ | ⟨error, b, -, read⟩⟩ := readOne_found ordered starts
  · exact ⟨read.passes, read.moved, read.span, ends⟩
  · exact ⟨read.passes, read.moved, by rw [read.region]; rfl, ends⟩

/-- The cursor that a statement was read to, or its error was met at. -/
def reached : Except (SyntaxError × Cursor) (Node × Cursor) → Cursor
  | .ok (_, d) => d
  | .error (_, d) => d

theorem readComplete_path (kept : Kept w) (unbarred : Grammar.Unbarred w (range size c))
    (ordered : c.Ordered size) :
    Path (Guard w (range size c)) c (reached (readComplete { c with depth := 0 })) := by
  let b : Cursor := { c with depth := 0 }
  have turn : Path (Guard w (range size c)) c b := .turn .here 0
  have lawful := Grammar.run_sound unbarred kept.rules kept.statement (.opened none b) b
    (within_range ordered 0)
  have first : Path (Guard w (range size c)) c (reached (readStatement { c with depth := 0 })) := by
    rw [readStatement]
    split <;> rename_i found <;> rw [found] at lawful
    · exact turn.trans (lawful (Nat.zero_le _)).1.path
    · exact turn.trans (lawful (Nat.zero_le _)).1.path
    · exact turn.trans (lawful (Nat.zero_le _)).1
  rw [readComplete]
  split <;> rename_i found <;> rw [found] at first
  · split <;> exact first
  · exact first

/-- Each token that a statement takes was taken by the grammar or skipped. -/
theorem readOne_path (kept : Kept w) (unbarred : Grammar.Unbarred w (range size c))
    (ordered : c.Ordered size) (starts : isTerminator c.current.lexeme = false) :
    Path (fun b => Guard w (range size c) b ∨ Skipped b) c (readOne c).2.2 := by
  have sound := readComplete_found ordered
  have first := (readComplete_path kept unbarred ordered).mono fun b => Or.inl (b := Skipped b)
  rw [readOne]
  cases found : readComplete { c with depth := 0 } with
  | ok result =>
      rw [found] at first
      exact first
  | error error =>
      rw [found] at first sound
      obtain ⟨path, blamed⟩ := sound
      obtain ⟨read, -⟩ := recover_sound ordered starts path blamed
      exact first.trans (read.skip.mono fun b => Or.inr)

theorem readOne_follows (seam : Seam w r after after') (mono : Monotone place) (kept : Kept w)
    (unbarred : Grammar.Unbarred w r)
    (terminates : after ≠ [] → ∀ lexeme : Lexeme, lexeme.outline = w.watched →
      isTerminator lexeme = true)
    (ordered : c.Ordered size) (starts : isTerminator c.current.lexeme = false)
    (within : c.Within r) (twin : Twin place after after' c d)
    (inside : after.length ≤ (readOne c).2.2.rest.length) :
    (readOne d).1 = (readOne c).1.relocate place ∧
      (readOne d).2.1 = (readOne c).2.1.map (·.relocate place) ∧
      Twin place after after' (readOne c).2.2 (readOne d).2.2 := by
  have sound := readComplete_found ordered
  have lower : Cursor.Within r { c with depth := 0 } :=
    ⟨within.suffix, within.ordered, within.inside⟩
  have alike := readComplete_follows seam mono kept unbarred lower (twin.turn 0)
  rw [readOne] at inside
  rw [readOne, readOne]
  cases found : readComplete { c with depth := 0 } with
  | ok result =>
      rw [found] at alike inside
      obtain ⟨b', read, next⟩ := alike inside
      rw [read]
      exact ⟨rfl, rfl, next⟩
  | error error =>
      obtain ⟨error, b⟩ := error
      rw [found] at alike inside sound
      obtain ⟨path, blamed⟩ := sound
      obtain ⟨read, -⟩ := recover_sound ordered starts path blamed
      have earlier : after.length ≤ b.rest.length :=
        inside.trans (Cursor.rest_length_le read.skip.suffix)
      obtain ⟨b', failed, next⟩ := alike earlier
      rw [failed]
      have there : b.Within r := within.after path (seam.beyond ▸ earlier)
      have same := recover_follows error seam mono terminates ordered starts path there
        next
      dsimp only
      rw [twin.current]
      exact ⟨same.1, rfl, same.2⟩

/-- Statements are read from nesting depth zero, whatever depth the cursor has. -/
theorem statements_turn (fuel depth : Nat) (c : Cursor) :
    statements fuel { c with depth := depth } = statements fuel c := by
  induction fuel generalizing c with
  | zero => rfl
  | succ fuel ih =>
      rw [statements, statements]
      have next : Cursor.advance { c with depth := depth } = { c.advance with depth := depth } := by
        cases rest : c.rest <;> simp [Cursor.advance, rest]
      rw [next, ih]

/-- The statements of a text are the same, but for their places, wherever its tokens stand. -/
theorem statements_follows (mono : Monotone place) (fuel fuel' : Nat) (c d : Cursor)
    (ordered : c.Ordered size) (enough : c.rest.length < fuel) (enough' : d.rest.length < fuel')
    (twin : Twin place [] [] c d) :
    statements fuel' d = ((statements fuel c).1.map (·.relocate place),
      (statements fuel c).2.map (·.relocate place)) := by
  induction fuel generalizing fuel' c d with
  | zero => exact absurd enough (Nat.not_lt_zero _)
  | succ fuel ih =>
      cases fuel' with
      | zero => exact absurd enough' (Nat.not_lt_zero _)
      | succ fuel' =>
          have seam : Seam .lexical (range size c) [] [] := ⟨rfl, .inl ⟨rfl, rfl⟩⟩
          have lengths := twin.lengths
          by_cases ends : isTerminator c.current.lexeme = true
          · rw [statements, statements, twin.lexeme]
            rcases (isTerminator_iff _).mp ends with semicolon | finish
            · have shorter := Cursor.advance_shorter (ordered.more (by simp [semicolon]))
              have next := twin.advance seam (Nat.zero_le _)
              have lengths' := next.lengths
              rw [semicolon]
              exact ih fuel' _ _ ordered.advance (by omega) (by omega) next
            · rw [finish]
              rfl
          · have starts : isTerminator c.current.lexeme = false := by simpa using ends
            obtain ⟨path, moved, -, -⟩ := readOne_sound ordered starts
            obtain ⟨node, error, next⟩ := readOne_follows seam mono kept_lexical
              (unbarred_lexical c) (by simp) ordered starts (within_range ordered c.depth) twin
              (Nat.zero_le _)
            have lengths' := next.lengths
            rw [statements_readOne fuel starts, statements_readOne fuel' (twin.lexeme ▸ starts),
              ih fuel' _ _ (path.ordered ordered) (by omega) (by omega) next, node, error]
            cases (readOne c).2.1 <;> rfl

end Script
end SqlAudit
