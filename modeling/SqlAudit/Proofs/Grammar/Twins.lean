import Mathlib.Order.MinMax
import SqlAudit.Proofs.Grammar.Rules
import SqlAudit.Proofs.Tree.Relocation
/-!
Two readings side by side. Twin cursors stand in texts that agree, up to the places of their tokens,
as far as a seam: the end of both texts, or a watched token after which they differ. A surveyed
grammar reads the same from both as long as the first one stays before the seam.
-/
namespace SqlAudit

/-- The tokens taken last end at corresponding places, unless the first reading has taken none. -/
def Cursor.Abreast (place : Nat → Nat) (c d : Cursor) : Prop :=
  d.previous = c.previous.relocate place ∨ (c.previous.stop = 0 ∧ d.previous.stop ≤ place 0)

/-- A node that is closed at both cursors ends at corresponding places. -/
theorem Cursor.Abreast.stop {place : Nat → Nat} {c d : Cursor} (abreast : c.Abreast place d)
    (mono : Monotone place) (start : Nat) :
    max d.previous.stop (place start) = place (max c.previous.stop start) := by
  rcases abreast with same | ⟨none, early⟩
  · rw [same, mono.map_max]
    rfl
  · have later := mono (Nat.zero_le start)
    rw [none, Nat.zero_max, Nat.max_eq_right (early.trans later)]

/-- `d` sees what `c` sees until the tokens `after` are left to the one and `after'` to the other.
The token before them may differ where nothing of the text has been taken yet. -/
structure Twin (place : Nat → Nat) (after after' : List Token) (c d : Cursor) : Prop where
  current : d.current = c.current.relocate place
  ahead : ∃ front, c.rest = front ++ after ∧ d.rest = front.map (·.relocate place) ++ after'
  previous : d.previous = c.previous.relocate place ∨
    (c.previous.stop = 0 ∧ d.previous.stop ≤ place 0)
  depth : d.depth = c.depth

/-- The tokens of a range close with a watched token and those that are not followed, or all of them
are followed. -/
structure Seam (w : Watch) (r : Range) (after after' : List Token) : Prop where
  beyond : r.beyond = after.length
  joint : (after = [] ∧ after' = []) ∨
    (after ≠ [] ∧ ∃ token, token.lexeme.outline = w.watched ∧ (token :: after) <:+ r.tokens)

/-- What a reading becomes from a twin cursor, if it stays before the seam. -/
def Follows {α : Type} (place : Nat → Nat) (after after' : List Token) (move : α → α)
    (one two : Except (SyntaxError × Cursor) (α × Cursor)) : Prop :=
  match one with
  | .ok (x, c) => after.length ≤ c.rest.length →
    ∃ d, two = .ok (move x, d) ∧ Twin place after after' c d
  | .error (error, c) => after.length ≤ c.rest.length →
    ∃ d, two = .error (error.relocate place, d) ∧ Twin place after after' c d

variable {w : Watch} {r : Range} {place : Nat → Nat} {after after' : List Token} {c d : Cursor}
  {f : Frame} {m e : Nat} {o : Outlook}

namespace Seam

/-- Where nothing is ahead of the seam, the current token is watched or the last one. -/
theorem reached (seam : Seam w r after after') (within : c.Within r) (here : c.rest = after) :
    (after = [] ∧ after' = []) ∨ c.current.lexeme.outline = w.watched := by
  rcases seam.joint with both | ⟨_, token, watched, suffix⟩
  · exact .inl both
  · have inside : c.tokens <:+ token :: after :=
      List.suffix_of_suffix_length_le within.suffix suffix (by simp [Cursor.tokens, here])
    have same := inside.eq_of_length (by simp [Cursor.tokens, here])
    have current : c.current = token := by injection same
    exact .inr (current ▸ watched)

end Seam

namespace Twin

/-- As much is left to the one as to the other, up to the seam. -/
theorem lengths (twin : Twin place after after' c d) :
    d.rest.length + after.length = c.rest.length + after'.length := by
  obtain ⟨front, here, there⟩ := twin.ahead
  rw [here, there]
  simp only [List.length_append, List.length_map]
  omega

theorem turn (twin : Twin place after after' c d) (depth : Nat) :
    Twin place after after' { c with depth := depth } { d with depth := depth } :=
  ⟨twin.current, twin.ahead, twin.previous, rfl⟩

theorem lexeme (twin : Twin place after after' c d) : d.current.lexeme = c.current.lexeme := by
  rw [twin.current]
  rfl

theorem unexpected (twin : Twin place after after' c d) (expected : String) :
    SyntaxError.unexpected expected d.current =
      (SyntaxError.unexpected expected c.current).relocate place := by
  rw [twin.current, SyntaxError.relocate_unexpected]

/-- The token after the current one is the same too, unless the current one is watched. -/
theorem peek (twin : Twin place after after' c d) (seam : Seam w r after after')
    (within : c.Within r) :
    c.current.lexeme.outline = w.watched ∨ d.peek.lexeme = c.peek.lexeme := by
  obtain ⟨front, here, there⟩ := twin.ahead
  cases front with
  | nil =>
      rcases seam.reached within here with ⟨rfl, rfl⟩ | watched
      · right
        simp only [List.map_nil, List.append_nil] at here there
        simp [Cursor.peek, here, there, twin.lexeme]
      · exact .inl watched
  | cons token front =>
      right
      simp [Cursor.peek, here, there, Token.relocate]

theorem advance (twin : Twin place after after' c d) (seam : Seam w r after after')
    (inside : after.length ≤ c.advance.rest.length) :
    Twin place after after' c.advance d.advance := by
  obtain ⟨front, here, there⟩ := twin.ahead
  have before : d.advance.previous = c.advance.previous.relocate place := by
    rw [Cursor.advance_previous, Cursor.advance_previous, twin.current]
    rfl
  have depth : d.advance.depth = c.advance.depth := by
    rw [Cursor.advance_depth, Cursor.advance_depth, twin.depth]
  cases front with
  | nil =>
      simp only [List.map_nil, List.nil_append] at here there
      rw [Cursor.advance_rest, here, List.length_tail] at inside
      have empty : after = [] := List.length_eq_zero_iff.mp (by omega)
      rcases seam.joint with ⟨-, rfl⟩ | ⟨some, -⟩
      · subst empty
        refine ⟨?_, ⟨[], ?_, ?_⟩, .inl before, depth⟩
        · simp [Cursor.advance, here, there, twin.current]
        · rw [Cursor.advance_rest, here]
          rfl
        · rw [Cursor.advance_rest, there]
          rfl
      · exact absurd empty some
  | cons token front =>
      refine ⟨?_, ⟨front, ?_, ?_⟩, .inl before, depth⟩
      · simp [Cursor.advance, here, there]
      · rw [Cursor.advance_rest, here]
        rfl
      · rw [Cursor.advance_rest, there]
        rfl

/-- A token that is neither watched nor the last one lies before the seam. -/
theorem more (twin : Twin place after after' c d) (seam : Seam w r after after')
    (within : c.Within r) (other : after ≠ [] → c.current.lexeme.outline ≠ w.watched)
    (notFinish : c.current.lexeme ≠ .finish) : after.length ≤ c.advance.rest.length := by
  obtain ⟨front, here, there⟩ := twin.ahead
  cases front with
  | nil =>
      have some : after ≠ [] := by
        rintro rfl
        exact notFinish (within.ordered.finish_iff.mpr here)
      rcases seam.reached within here with ⟨none, -⟩ | watched
      · exact absurd none some
      · exact absurd watched (other some)
  | cons token front =>
      rw [Cursor.advance_rest, here]
      simp

theorem abreast (twin : Twin place after after' c d) : c.Abreast place d := twin.previous

end Twin

def Frame.relocate (place : Nat → Nat) (f : Frame) : Frame :=
  { f with start := place f.start, parts := f.parts.map (·.relocate place) }

namespace Frame

theorem relocate_opened (kind : Option NodeKind) (twin : Twin place after after' c d) :
    (opened kind c).relocate place = opened kind d := by
  simp [relocate, opened, twin.current, Token.relocate, Span.relocate]

theorem relocate_close {g : Frame} (mono : Monotone place) (abreast : c.Abreast place d) :
    (f.close g c).relocate place = (f.relocate place).close (g.relocate place) d := by
  have stop := abreast.stop mono g.start
  unfold close
  cases same : g.kind <;>
    simp [relocate, same, push, Node.relocate, Node.relocateAll_eq_map, Span.relocate, stop]

theorem relocate_wrapLast (kind : NodeKind) (twin : Twin place after after' c d) :
    (f.relocate place).wrapLast kind d =
      ((f.wrapLast kind c).1.relocate place, (f.wrapLast kind c).2.relocate place) := by
  have outer := relocate_opened (some kind) twin
  cases same : f.parts with
  | nil => simp [relocate, wrapLast, same] at outer ⊢; exact outer.symm
  | cons node parts => simp [relocate, wrapLast, same, Span.relocate]

theorem relocate_splice : f.splice.relocate place = (f.relocate place).splice := by
  cases same : f.parts <;> simp [relocate, splice, same]

theorem relocate_echo : f.echo.relocate place = (f.relocate place).echo := by
  cases same : f.parts <;> simp [relocate, echo, same, write]

end Frame

/-- A test asks for the current token, perhaps for the next one, and for nothing that has a
place. -/
theorem Test.holds_relocate {test : Test} (current : d.current.lexeme = c.current.lexeme)
    (next : test.looksAhead = true → d.peek.lexeme = c.peek.lexeme) :
    test.holds (f.relocate place) d = test.holds f c := by
  induction test with
  | here tokens => rw [holds, holds, current]
  | next tokens => rw [holds, holds, next rfl]
  | phrase phrases => rw [holds, holds, current]
  | valueIn values => rfl
  | lastIs kind => cases parts : f.parts <;> simp [holds, Frame.relocate, parts]
  | both a b first second =>
      rw [holds, holds, first fun ahead => next (Bool.or_eq_true_iff.mpr (.inl ahead)),
        second fun ahead => next (Bool.or_eq_true_iff.mpr (.inr ahead))]
  | either a b first second =>
      rw [holds, holds, first fun ahead => next (Bool.or_eq_true_iff.mpr (.inl ahead)),
        second fun ahead => next (Bool.or_eq_true_iff.mpr (.inr ahead))]
  | neither a ih => rw [holds, holds, ih next]

theorem Outlook.settles_of_unknown {test : Test}
    (settles : (unknown false false).settles w test = true) : o.settles w test = true := by
  simp only [Outlook.settles, Bool.or_eq_true] at settles ⊢
  rcases settles with settled | excluded
  · exact .inl settled
  · simp [Outlook.excludes, possible, unknown] at excluded

/-- At a watched token the test can come out one way only, unless it cannot come there at all. -/
theorem Outlook.settles_watched {test : Test} (settles : o.settles w test = true)
    (fits : Fits w r m e o c) (watched : c.current.lexeme.outline = w.watched)
    (ahead : test.looksAhead = true) :
    ∃ verdict, test.may (some w.watched) none verdict = false := by
  simp only [Outlook.settles, ahead, Bool.not_true, Bool.false_or, Bool.or_eq_true,
    Bool.not_eq_true'] at settles
  rcases settles with (no | yes) | excluded
  · exact ⟨true, no⟩
  · exact ⟨false, yes⟩
  · exact absurd watched (fits.excludes excluded)

/-- A test that is settled comes out the same at both cursors. -/
theorem Twin.holds (twin : Twin place after after' c d) (seam : Seam w r after after')
    (fits : Fits w r m e o c) {test : Test} (settles : o.settles w test = true) :
    test.holds (f.relocate place) d = test.holds f c := by
  rcases twin.peek seam fits.within with watched | next
  · by_cases ahead : test.looksAhead = true
    · obtain ⟨verdict, never⟩ := Outlook.settles_watched settles fits watched ahead
      have one := Test.may_weaken (.inl rfl) (.inr rfl) (test.may_holds f c)
      have two := Test.may_weaken (.inl rfl) (.inr rfl) (test.may_holds (f.relocate place) d)
      rw [twin.lexeme, watched] at two
      rw [watched] at one
      cases verdict <;> cases left : test.holds f c <;>
        cases right : test.holds (f.relocate place) d <;> simp_all
    · exact Test.holds_relocate twin.lexeme fun does => absurd does ahead
  · exact Test.holds_relocate twin.lexeme fun _ => next

/-- Phrases are made of words, so they are read alike up to a seam. -/
theorem Twin.phrase (seam : Seam w r after after') (phrases : Phrases) (matched : List String)
    (left left' : List Token) (within : c.Within r) (twin : Twin place after after' c d)
    (enough : c.rest.length < left.length) (enough' : d.rest.length < left'.length) :
    (d.phrase phrases matched left').1 = (c.phrase phrases matched left).1 ∧
      Twin place after after' (c.phrase phrases matched left).2
        (d.phrase phrases matched left').2 := by
  induction left generalizing matched left' c d with
  | nil => exact absurd enough (Nat.not_lt_zero _)
  | cons token left ih =>
      cases left' with
      | nil => exact absurd enough' (Nat.not_lt_zero _)
      | cons token' left' =>
          rw [Cursor.phrase, Cursor.phrase, twin.lexeme]
          split
          · rename_i word spelled
            have other : c.current.lexeme.outline ≠ w.watched := by
              intro watched
              have silent := w.notWord
              rw [← watched] at silent
              cases lexeme : c.current.lexeme <;>
                simp [lexeme, Lexeme.outline, Lexeme.capitals?] at silent spelled
            have notFinish : c.current.lexeme ≠ .finish := by
              intro finish
              simp [finish, Lexeme.capitals?] at spelled
            have inside := twin.more seam within (fun _ => other) notFinish
            have next := twin.advance seam inside
            have shorter := Cursor.advance_shorter (within.ordered.more notFinish)
            have lengths := twin.lengths
            have lengths' := next.lengths
            rw [List.length_cons] at enough enough'
            split
            · refine ih _ _ (within.advance ?_) next (by omega) (by omega)
              rwa [seam.beyond]
            · exact ⟨rfl, twin⟩
          · exact ⟨rfl, twin⟩

/-- The first reading goes on from a cursor before the seam, if it ends before it. -/
theorem Follows.later {b : Cursor} {one two : Reading} (onward : one.cursor.tokens <:+ b.tokens)
    (rest : after.length ≤ b.rest.length →
      Follows place after after' (Frame.relocate place) one two) :
    Follows place after after' (Frame.relocate place) one two := by
  have earlier := Cursor.rest_length_le onward
  match one, earlier, rest with
  | .ok (g, e), earlier, rest => exact fun inside => rest (inside.trans earlier) inside
  | .error (error, e), earlier, rest => exact fun inside => rest (inside.trans earlier) inside

namespace Grammar

/-- The two loops make the same rounds, and neither of them is cut short. -/
theorem repeatWhile_follows {test : Test} {step step' : Frame → Cursor → Reading} {round : Outlook}
    {entered : Bool} (seam : Seam w r after after')
    (onward : ∀ f c, (step f c).cursor.tokens <:+ c.tokens)
    (rounds : ∀ f c, Fits w r c.rest.length e ((Outlook.unknown false entered).learn test) c →
      Lawful w r c.rest.length e round f c (step f c))
    (progress : round.moved = true)
    (alike : ∀ f c d, Fits w r c.rest.length e ((Outlook.unknown false entered).learn test) c →
      Twin place after after' c d →
      Follows place after after' (Frame.relocate place) (step f c) (step' (f.relocate place) d))
    (settles : (Outlook.unknown false false).settles w test = true) (left left' : List Token)
    (enough : c.rest.length < left.length) (enough' : d.rest.length < left'.length)
    (fits : Fits w r c.rest.length e (.unknown false entered) c)
    (twin : Twin place after after' c d) :
    Follows place after after' (Frame.relocate place) (repeatWhile test step left f c)
      (repeatWhile test step' left' (f.relocate place) d) := by
  induction left generalizing left' f c d with
  | nil => exact absurd enough (Nat.not_lt_zero _)
  | cons token left ih =>
      cases left' with
      | nil => exact absurd enough' (Nat.not_lt_zero _)
      | cons token' left' =>
          rw [List.length_cons] at enough enough'
          have same := twin.holds (f := f) seam fits (Outlook.settles_of_unknown settles)
          rw [repeatWhile, repeatWhile, same]
          split
          · rename_i holds
            have here := fits.learn holds
            have lawful := rounds f c here
            have one := alike f c d here twin
            cases found : step f c with
            | error error =>
                obtain ⟨error, b⟩ := error
                rw [found] at one
                intro inside
                obtain ⟨b', read, twin⟩ := one inside
                rw [read]
                exact ⟨b', rfl, twin⟩
            | ok result =>
                obtain ⟨g, b⟩ := result
                rw [found] at one lawful
                apply Follows.later (repeatWhile_suffix onward left g b)
                intro inside
                obtain ⟨b', read, next⟩ := one inside
                rw [read]
                have later := (lawful (seam.beyond ▸ inside)).2
                have moved := later.moved progress
                have opened := later.opened
                have lengths := twin.lengths
                have lengths' := next.lengths
                refine ih left' (by omega) (by omega) ?_ next
                apply Fits.unknown later.within (Nat.le_refl _) (by simp) opened
                intro so
                have entered := fits.entered so
                omega
          · intro inside
            exact ⟨d, rfl, twin⟩

variable {call call' : Nonterminal → Frame → Cursor → Reading}

/-- Rules that are not closed read alike, called after a token of the calling rule. -/
def CallsFollow (w : Watch) (r : Range) (place : Nat → Nat) (after after' : List Token)
    (call call' : Nonterminal → Frame → Cursor → Reading) (e : Nat) : Prop :=
  ∀ name f c d, w.closed.contains name = false → c.Within r → c.rest.length < e →
    Twin place after after' c d →
    Follows place after after' (Frame.relocate place) (call name f c)
      (call' name (f.relocate place) d)

theorem read_follows (seam : Seam w r after after') (mono : Monotone place)
    (unbarred : Unbarred w r)
    (settled : ∀ test ∈ w.barred, (Outlook.unknown false false).settles w test = true)
    (onward : ∀ name f c, (call name f c).cursor.tokens <:+ c.tokens)
    (calls : CallsSound w r call e) (follow : CallsFollow w r place after after' call call' e)
    (a : Grammar) {o' : Outlook} (surveyed : survey w a o = some o') (fits : Fits w r m e o c)
    (twin : Twin place after after' c d) :
    Follows place after after' (Frame.relocate place) (read call a f c)
      (read call' a (f.relocate place) d) := by
  induction a generalizing o o' m f c d with
  | nothing => exact fun inside => ⟨d, rfl, twin⟩
  | fail expected =>
      intro inside
      exact ⟨d, by rw [read, twin.unexpected], twin⟩
  | take => exact fun inside => ⟨_, rfl, twin.advance seam inside⟩
  | copy spelling =>
      intro inside
      refine ⟨d, ?_, twin⟩
      rw [read, twin.lexeme]
      rfl
  | write text => exact fun inside => ⟨d, rfl, twin⟩
  | gap => exact fun inside => ⟨d, rfl, twin⟩
  | become kind => exact fun inside => ⟨d, rfl, twin⟩
  | dissolve => exact fun inside => ⟨d, rfl, twin⟩
  | splice => exact fun inside => ⟨d, by rw [read, Frame.relocate_splice], twin⟩
  | echo => exact fun inside => ⟨d, by rw [read, Frame.relocate_echo], twin⟩
  | phrase phrases =>
      obtain ⟨words, next⟩ := twin.phrase seam phrases [] c.tokens d.tokens fits.within
        (Nat.lt_succ_self _) (Nat.lt_succ_self _)
      rw [read, read]
      cases one : c.phrase phrases [] c.tokens with
      | mk spoken b =>
          cases two : d.phrase phrases [] d.tokens with
          | mk spoken' b' =>
              rw [one, two] at words next
              dsimp only at words next
              subst words
              cases spoken' with
              | nil => exact fun inside => ⟨b', rfl, next⟩
              | cons word rest => exact fun inside => ⟨b', rfl, next⟩
  | seq a b first second =>
      obtain ⟨between, left, right⟩ := Option.bind_eq_some_iff.mp surveyed
      have lawful := survey_sound (f := f) unbarred onward calls a left fits
      have one := first (f := f) left fits twin
      rw [read, read]
      cases found : read call a f c with
      | error error =>
          rw [found] at one
          intro inside
          obtain ⟨b', read, next⟩ := one inside
          rw [read]
          exact ⟨b', rfl, next⟩
      | ok result =>
          obtain ⟨g, h⟩ := result
          rw [found] at one lawful
          apply Follows.later (read_suffix onward b g h)
          intro inside
          obtain ⟨h', read, next⟩ := one inside
          rw [read]
          exact second right (lawful (seam.beyond ▸ inside)).2 next
  | branch test a b first second =>
      rw [read, read]
      rcases survey_branch surveyed with ⟨barred, right⟩ | ⟨settles, yes, no, left, right, -⟩
      · have listed := List.contains_iff_mem.mp barred
        have never := unbarred test listed f c fits.within
        rw [twin.holds seam fits (Outlook.settles_of_unknown (settled test listed)), never]
        exact second right fits twin
      · rw [twin.holds seam fits settles]
        split
        · exact first left (fits.learn ‹_›) twin
        · rename_i fails
          have refuted : test.neither.holds f c = true := by simpa [Test.holds] using fails
          exact second right (fits.learn refuted) twin
  | loop test a ih =>
      obtain ⟨settles, round, body, progress, -⟩ := survey_loop surveyed
      have start : Fits w r c.rest.length e (.unknown false o.entered) c :=
        .unknown fits.within (Nat.le_refl _) (by simp) fits.opened fits.entered
      exact repeatWhile_follows seam (read_suffix onward a)
        (fun f c => survey_sound unbarred onward calls a body) progress
        (fun f c d fits twin => ih body fits twin) settles c.tokens d.tokens (Nat.lt_succ_self _)
        (Nat.lt_succ_self _) start twin
  | node kind a ih =>
      obtain ⟨inner, body, -⟩ := survey_node surveyed
      have one := ih (f := .opened kind c) body fits.inNode twin
      rw [Frame.relocate_opened kind twin] at one
      rw [read, read]
      cases found : read call a (.opened kind c) c <;> rw [found] at one <;> intro inside <;>
        obtain ⟨b', read, next⟩ := one inside <;> rw [read]
      · exact ⟨b', rfl, next⟩
      · exact ⟨b', by rw [Frame.relocate_close mono next.abreast], next⟩
  | wrap kind a ih =>
      obtain ⟨inner, body, -⟩ := survey_node surveyed
      have one := ih (f := (f.wrapLast kind c).1) body fits.inNode twin
      rw [read, read, Frame.relocate_wrapLast kind twin]
      cases found : read call a (f.wrapLast kind c).1 c <;> rw [found] at one <;> intro inside <;>
        obtain ⟨b', read, next⟩ := one inside <;> rw [read]
      · exact ⟨b', rfl, next⟩
      · exact ⟨b', by rw [Frame.relocate_close mono next.abreast], next⟩
  | discard a ih =>
      have one := ih (f := .opened none c) surveyed fits twin
      rw [Frame.relocate_opened none twin] at one
      rw [read, read]
      cases found : read call a (.opened none c) c <;> rw [found] at one <;> intro inside <;>
        obtain ⟨b', read, next⟩ := one inside <;> rw [read] <;> exact ⟨b', rfl, next⟩
  | deeper a ih =>
      have lower := twin.turn (c.depth + 1)
      have one := ih (f := f) surveyed (fits.turn (c.depth + 1)) lower
      rw [read, read, twin.depth]
      dsimp only
      split
      · intro inside
        refine ⟨_, ?_, lower⟩
        rw [tooDeep, twin.current]
        rfl
      · cases found : read call a f { c with depth := c.depth + 1 } <;> rw [found] at one <;>
          intro inside <;> obtain ⟨b', read, next⟩ := one inside <;> rw [read]
        · exact ⟨b', rfl, next⟩
        · exact ⟨_, by rw [← next.depth], next.turn _⟩
  | call name =>
      obtain ⟨entered, called, -⟩ := survey_call surveyed
      exact follow name f c d called fits.within (fits.entered entered) twin

variable {rules : Nonterminal → Grammar}

theorem callRule_follows (seam : Seam w r after after') (mono : Monotone place)
    (unbarred : Unbarred w r)
    (settled : ∀ test ∈ w.barred, (Outlook.unknown false false).settles w test = true)
    (passed : ∀ name, w.closed.contains name = false → passes w (rules name) false = true)
    (left left' : List Token) (name : Nonterminal) (f : Frame) (c d : Cursor)
    (called : w.closed.contains name = false) (within : c.Within r)
    (enough : c.rest.length < left.length) (enough' : d.rest.length < left'.length)
    (twin : Twin place after after' c d) :
    Follows place after after' (Frame.relocate place) (callRule rules left name f c)
      (callRule rules left' name (f.relocate place) d) := by
  induction left generalizing left' name f c d with
  | nil => exact absurd enough (Nat.not_lt_zero _)
  | cons token left ih =>
      cases left' with
      | nil => exact absurd enough' (Nat.not_lt_zero _)
      | cons token' left' =>
          rw [List.length_cons] at enough enough'
          have passes := passed name called
          rw [SqlAudit.passes] at passes
          cases surveyed : survey w (rules name) (.unknown false false) with
          | none => simp [surveyed] at passes
          | some outlook =>
              have lengths := twin.lengths
              have calls : CallsSound w r (callRule rules left) c.rest.length := by
                intro name f b called within deeper
                exact callRule_sound unbarred passed left name f b called within (by omega)
              have follow : CallsFollow w r place after after' (callRule rules left)
                  (callRule rules left') c.rest.length := by
                intro name f b b' called within deeper twin
                have lengths' := twin.lengths
                exact ih left' name f b b' called within (by omega) (by omega) twin
              have start : Fits w r c.rest.length c.rest.length (.unknown false false) c :=
                .unknown within (Nat.le_refl _) (by simp) (Nat.le_refl _) (by simp)
              exact read_follows seam mono unbarred settled (callRule_suffix rules left) calls
                follow (rules name) surveyed start twin

theorem run_follows (seam : Seam w r after after') (mono : Monotone place)
    (unbarred : Unbarred w r)
    (settled : ∀ test ∈ w.barred, (Outlook.unknown false false).settles w test = true)
    (passed : ∀ name, w.closed.contains name = false → passes w (rules name) false = true)
    {a : Grammar} (passes : passes w a true = true) (f : Frame) (within : c.Within r)
    (twin : Twin place after after' c d) :
    Follows place after after' (Frame.relocate place) (a.run rules f c)
      (a.run rules (f.relocate place) d) := by
  rw [SqlAudit.passes] at passes
  cases surveyed : survey w a (.unknown false true) with
  | none => simp [surveyed] at passes
  | some outlook =>
      have lengths := twin.lengths
      have calls : CallsSound w r (callRule rules c.tokens) (c.rest.length + 1) := by
        intro name f b called within deeper
        exact callRule_sound unbarred passed c.tokens name f b called within deeper
      have follow : CallsFollow w r place after after' (callRule rules c.tokens)
          (callRule rules d.tokens) (c.rest.length + 1) := by
        intro name f b b' called within deeper twin
        have lengths' := twin.lengths
        refine callRule_follows seam mono unbarred settled passed c.tokens d.tokens name f b b'
          called within deeper ?_ twin
        rw [Cursor.length_tokens]
        omega
      have start : Fits w r c.rest.length (c.rest.length + 1) (.unknown false true) c :=
        .unknown within (Nat.le_refl _) (by simp) (Nat.le_succ _) fun _ => Nat.lt_succ_self _
      exact read_follows seam mono unbarred settled (callRule_suffix rules c.tokens) calls follow a
        surveyed start twin

end Grammar
end SqlAudit
