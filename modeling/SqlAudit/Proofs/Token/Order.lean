import Mathlib.Order.Lattice
import SqlAudit.Proofs.Token.Cover
/-!
The tokens of a text stand in its order without overlapping, each takes at least one byte, and the
end of the text closes the list and occurs nowhere else in it.
-/
namespace SqlAudit

/-- Tokens between two offsets, the second of which is where the text ends. -/
inductive InOrder : Nat → Nat → List Token → Prop
  | finish {lo hi : Nat} (after : lo ≤ hi) : InOrder lo hi [⟨.finish, ⟨hi, hi⟩⟩]
  | token {lo hi : Nat} {token : Token} {rest : List Token} (after : lo ≤ token.span.start)
      (nonempty : token.span.start < token.span.stop) (more : token.lexeme ≠ .finish)
      (ordered : InOrder token.span.stop hi rest) : InOrder lo hi (token :: rest)

namespace Lexer

theorem size_append (first second : List Char) :
    size (first ++ second) = size first + size second := by
  induction first with
  | nil => simp [size]
  | cons c rest ih => simp [size, ih, Nat.add_assoc]

theorem size_pos {chars : List Char} (nonempty : chars ≠ []) : 0 < size chars := by
  cases chars with
  | nil => exact absurd rfl nonempty
  | cons c rest =>
      have byte := c.utf8Size_pos
      simp only [size]
      omega

theorem size_toList (text : String) : size text.toList = text.utf8ByteSize := by
  have bytes : ∀ chars : List Char, size chars = (String.ofList chars).utf8ByteSize := by
    intro chars
    induction chars with
    | nil => rfl
    | cons c rest ih =>
        rw [size, ih, String.ofList_cons, String.utf8ByteSize_append]
        simp
  simpa using bytes text.toList

/-- `gap` is all the layout that the characters of `gap` and `rest` start with. -/
inductive Layout : List Char → List Char → Prop
  | done {rest : List Char} (none : layoutItem? rest = none) : Layout [] rest
  | item {taken gap rest : List Char}
      (read : layoutItem? (taken ++ (gap ++ rest)) = some (taken, gap ++ rest))
      (more : Layout gap rest) : Layout (taken ++ gap) rest

/-- The tokens of characters that stand `offset` bytes into a text: layout and tokens in turn. -/
inductive Lexes (d : Dialect) : Nat → List Char → List Token → Prop
  | finish {offset : Nat} {gap : List Char} (layout : Layout gap []) :
      Lexes d offset gap [⟨.finish, ⟨offset + size gap, offset + size gap⟩⟩]
  | token {offset : Nat} {c : Char} {gap rest : List Char} {tokens : List Token}
      (layout : Layout gap (c :: rest))
      (more : Lexes d (offset + size gap + size (scan d c rest).source) (scan d c rest).rest
        tokens) :
      Lexes d offset (gap ++ c :: rest)
        (⟨(scan d c rest).lexeme,
          ⟨offset + size gap, offset + size gap + size (scan d c rest).source⟩⟩ :: tokens)

theorem layout_reads (fuel : Nat) (chars : List Char) (enough : chars.length ≤ fuel) :
    Layout (layout fuel chars).1 (layout fuel chars).2 := by
  induction fuel generalizing chars with
  | zero =>
      have none : chars = [] := List.length_eq_zero_iff.mp (Nat.le_zero.mp enough)
      subst none
      exact .done rfl
  | succ fuel ih =>
      rw [layout]
      split
      · rename_i taken rest item
        obtain ⟨same, nonempty⟩ := layoutItem?_covers item
        have taken_pos := List.length_pos_iff.mpr nonempty
        have lengths := congrArg List.length same
        rw [List.length_append] at lengths
        refine .item ?_ (ih rest (by omega))
        rwa [layout_covers, same]
      · rename_i none
        exact .done none

theorem tokens_lexes (d : Dialect) (fuel offset : Nat) (chars : List Char)
    (enough : chars.length < fuel) : Lexes d offset chars (tokens d fuel offset chars) := by
  induction fuel generalizing offset chars with
  | zero => omega
  | succ fuel ih =>
      have passed := layout_covers fuel chars
      have gap := layout_reads fuel chars (by omega)
      rw [tokens]
      generalize layout fuel chars = read at passed gap ⊢
      obtain ⟨taken, rest⟩ := read
      dsimp only at passed gap ⊢
      subst passed
      cases rest with
      | nil => simpa using Lexes.finish gap
      | cons c rest =>
          have covers := scan_covers d c rest
          have lengths := congrArg List.length covers.whole
          have shorter := List.length_pos_iff.mpr covers.nonempty
          simp only [List.length_append, List.length_cons] at lengths enough
          exact .token gap (ih _ _ (by omega))

theorem Lexes.inOrder {d : Dialect} {offset : Nat} {chars : List Char} {tokens : List Token}
    (lexes : Lexes d offset chars tokens) : InOrder offset (offset + size chars) tokens := by
  induction lexes with
  | finish layout => exact .finish (Nat.le_add_right ..)
  | @token offset c gap rest tokens layout more ih =>
      have covers := scan_covers d c rest
      have taken := size_pos covers.nonempty
      have whole : offset + size (gap ++ c :: rest) =
          offset + size gap + size (scan d c rest).source + size (scan d c rest).rest := by
        rw [size_append, ← covers.whole, size_append]
        omega
      rw [whole]
      exact .token (Nat.le_add_right _ _) (Nat.lt_add_of_pos_right taken) covers.token ih

/-- The place `offset` bytes into these characters lies in layout between tokens. -/
def InLayout (chars : List Char) (offset : Nat) : Prop :=
  ∃ front gap rest, chars = front ++ (gap ++ rest) ∧ Layout gap rest ∧
    size front ≤ offset ∧ offset < size front + size gap

theorem InLayout.after {chars : List Char} {offset : Nat} (front : List Char)
    (inside : InLayout chars offset) : InLayout (front ++ chars) (size front + offset) := by
  obtain ⟨before, gap, rest, rfl, layout, lower, upper⟩ := inside
  refine ⟨front ++ before, gap, rest, by simp, layout, ?_, ?_⟩ <;> rw [size_append] <;> omega

/-- Every character of a text belongs to a token or to the layout between tokens. -/
theorem Lexes.locate {d : Dialect} {offset place : Nat} {chars : List Char} {tokens : List Token}
    (lexes : Lexes d offset chars tokens) (inside : place < size chars) :
    (∃ token ∈ tokens, token.lexeme ≠ .finish ∧
      token.span.start ≤ offset + place ∧ offset + place < token.span.stop) ∨
    InLayout chars place := by
  induction lexes generalizing place with
  | @finish offset gap layout =>
      exact .inr ⟨[], gap, [], by simp, layout, Nat.zero_le _, by simpa [size] using inside⟩
  | @token offset c gap rest tokens layout more ih =>
      have covers := scan_covers d c rest
      by_cases inGap : place < size gap
      · exact .inr ⟨[], gap, c :: rest, rfl, layout, Nat.zero_le _, by simpa [size] using inGap⟩
      by_cases inToken : place < size gap + size (scan d c rest).source
      · refine .inl ⟨_, .head _, covers.token, ?_, ?_⟩
        · show offset + size gap ≤ offset + place
          omega
        · show offset + place < offset + size gap + size (scan d c rest).source
          omega
      · rw [size_append, ← covers.whole, size_append] at inside
        have beyond : size gap + size (scan d c rest).source +
            (place - (size gap + size (scan d c rest).source)) = place := by omega
        rcases @ih (place - (size gap + size (scan d c rest).source)) (by omega) with
          found | layout
        · obtain ⟨token, member, more, lower, upper⟩ := found
          exact .inl ⟨token, .tail _ member, more, by omega, by omega⟩
        · have placed := layout.after (gap ++ (scan d c rest).source)
          rw [size_append, beyond, List.append_assoc, covers.whole] at placed
          exact .inr placed

end Lexer

theorem tokenize_lexes (d : Dialect) (text : String) :
    Lexer.Lexes d 0 text.toList (tokenize d text) :=
  Lexer.tokens_lexes d (text.toList.length + 1) 0 text.toList (Nat.lt_succ_self _)

theorem tokenize_inOrder (d : Dialect) (text : String) :
    InOrder 0 text.utf8ByteSize (tokenize d text) := by
  have ordered := (tokenize_lexes d text).inOrder
  rwa [Nat.zero_add, Lexer.size_toList] at ordered

namespace InOrder

variable {lo lo' hi : Nat} {token : Token} {tokens : List Token}

theorem lower (ordered : InOrder lo hi tokens) (before : lo' ≤ lo) : InOrder lo' hi tokens := by
  cases ordered with
  | finish after => exact .finish (before.trans after)
  | token after nonempty more rest => exact .token (before.trans after) nonempty more rest

theorem bounds (ordered : InOrder lo hi tokens) : lo ≤ hi := by
  induction ordered with
  | finish after => exact after
  | token after nonempty more rest ih => exact after.trans (nonempty.le.trans ih)

theorem after (ordered : InOrder lo hi tokens) : ∀ token ∈ tokens, lo ≤ token.span.start := by
  induction ordered with
  | finish after => simpa using after
  | token after nonempty more rest ih =>
      intro token member
      rcases List.mem_cons.mp member with rfl | later
      · exact after
      · exact (after.trans nonempty.le).trans (ih token later)

theorem apart (ordered : InOrder lo hi tokens) :
    tokens.Pairwise fun first second => first.span.stop ≤ second.span.start := by
  induction ordered with
  | finish after => exact List.pairwise_singleton ..
  | token after nonempty more rest ih => exact List.pairwise_cons.mpr ⟨rest.after, ih⟩

theorem head (ordered : InOrder lo hi (token :: tokens)) :
    lo ≤ token.span.start ∧ token.span.start ≤ token.span.stop ∧ token.span.stop ≤ hi := by
  cases ordered with
  | finish after => exact ⟨after, Nat.le_refl _, Nat.le_refl _⟩
  | token after nonempty more rest => exact ⟨after, nonempty.le, rest.bounds⟩

/-- Only the end of the text has nothing after it. -/
theorem finish_iff (ordered : InOrder lo hi (token :: tokens)) :
    token.lexeme = .finish ↔ tokens = [] := by
  cases ordered with
  | finish after => simp
  | token after nonempty more rest =>
      constructor
      · intro last
        exact absurd last more
      · rintro rfl
        cases rest

theorem last (ordered : InOrder lo hi [token]) : token = ⟨.finish, ⟨hi, hi⟩⟩ ∧ lo ≤ hi := by
  cases ordered with
  | finish after => exact ⟨rfl, after⟩
  | token after nonempty more rest => cases rest

/-- The end of the text stands behind all the other tokens. -/
theorem split_last (ordered : InOrder lo hi tokens) :
    tokens = tokens.dropLast ++ [⟨.finish, ⟨hi, hi⟩⟩] ∧
      ∀ token ∈ tokens.dropLast, token.lexeme ≠ .finish ∧ token.span.stop ≤ hi := by
  induction ordered with
  | finish after => simp
  | @token _ _ token tokens after some more rest ih =>
      have next : tokens ≠ [] := by
        rintro rfl
        cases rest
      obtain ⟨whole, inner⟩ := ih
      rw [List.dropLast_cons_of_ne_nil next]
      refine ⟨congrArg (token :: ·) whole, ?_⟩
      intro t member
      rcases List.mem_cons.mp member with rfl | later
      · exact ⟨more, rest.bounds⟩
      · exact inner t later

theorem tail (ordered : InOrder lo hi (token :: tokens)) (more : tokens ≠ []) :
    token.span.start < token.span.stop ∧ InOrder token.span.stop hi tokens := by
  cases ordered with
  | finish after => exact absurd rfl more
  | token after nonempty more rest => exact ⟨nonempty, rest⟩

theorem nonempty (ordered : InOrder lo hi tokens) :
    ∀ token ∈ tokens, token.lexeme ≠ .finish → token.span.start < token.span.stop := by
  induction ordered with
  | finish after => simp
  | token after some more rest ih =>
      intro token member notFinish
      rcases List.mem_cons.mp member with rfl | later
      · exact some
      · exact ih token later notFinish

end InOrder
end SqlAudit
