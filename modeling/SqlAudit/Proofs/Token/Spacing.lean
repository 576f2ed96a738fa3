import SqlAudit.Proofs.Token.Order
/-!
What stands between tokens: blanks, comments to the end of a line, and block comments, in which each
opening has a closing of its own. The levels that are counted while a block comment is read are
those that its marks make.
-/
namespace SqlAudit.Lexer

/-- What follows the opening of a block comment, up to the closing that belongs to it. -/
inductive Enclosed : List Char → Prop
  | close : Enclosed ['*', '/']
  | nest {inner rest : List Char} (inside : Enclosed inner) (more : Enclosed rest) :
      Enclosed ('/' :: '*' :: (inner ++ rest))
  | char {c : Char} {rest : List Char} (noClosing : c = '*' → rest.head? ≠ some '/')
      (noOpening : c = '/' → rest.head? ≠ some '*') (more : Enclosed rest) : Enclosed (c :: rest)

/-- Blanks and comments. A comment to the end of a line ends before a line break, or where nothing
follows, in the text itself or in `after`, the text behind it. -/
inductive Spacing : List Char → List Char → Prop
  | none {after : List Char} : Spacing [] after
  | blank {c : Char} {gap after : List Char} (white : Text.isBlank c = true)
      (more : Spacing gap after) : Spacing (c :: gap) after
  | line {body gap after : List Char} (within : '\n' ∉ body)
      (ends : ∀ c ∈ (gap ++ after).head?, c = '\n') (more : Spacing gap after) :
      Spacing ('-' :: '-' :: (body ++ gap)) after
  | block {body gap after : List Char} (enclosed : Enclosed body) (more : Spacing gap after) :
      Spacing ('/' :: '*' :: (body ++ gap)) after

/-- As many closings as there are levels, each of what its opening encloses. -/
inductive Closes : Nat → List Char → Prop
  | none : Closes 0 []
  | level {depth : Nat} {inner rest : List Char} (inside : Enclosed inner)
      (more : Closes depth rest) : Closes (depth + 1) (inner ++ rest)

theorem comment_closes {depth : Nat} {chars taken rest : List Char}
    (read : comment depth chars = some (taken, rest)) : Closes depth taken := by
  fun_induction comment depth chars generalizing taken with
  | case1 =>
      cases read
      exact .none
  | case2 => cases read
  | case3 depth text ih =>
      obtain ⟨⟨inner, left⟩, found, same⟩ := Option.map_eq_some_iff.mp read
      cases same
      exact .level .close (ih found)
  | case4 depth text ih =>
      obtain ⟨⟨inner, left⟩, found, same⟩ := Option.map_eq_some_iff.mp read
      cases same
      cases ih found with
      | level inside more =>
          cases more with
          | level outer more =>
              rw [← List.append_assoc]
              exact .level (.nest inside outer) more
  | case5 depth c text noClosing noOpening ih =>
      obtain ⟨⟨inner, left⟩, found, same⟩ := Option.map_eq_some_iff.mp read
      cases same
      have whole := comment_covers found
      cases ih found with
      | @level _ inner rest inside more =>
          refine .level (.char ?_ ?_ inside) more
          · intro star next
            obtain ⟨tail, rfl⟩ := List.head?_eq_some_iff.mp next
            exact noClosing _ star whole.symm
          · intro slash next
            obtain ⟨tail, rfl⟩ := List.head?_eq_some_iff.mp next
            exact noOpening _ slash whole.symm

theorem head?_dropWhile_newline (text : List Char) :
    ∀ c ∈ (text.dropWhile (· != '\n')).head?, c = '\n' := by
  intro c first
  have stopped := List.head?_dropWhile_not (· != '\n') text
  rw [Option.mem_def.mp first] at stopped
  simpa using stopped

theorem Spacing.item {taken gap rest : List Char}
    (read : layoutItem? (taken ++ (gap ++ rest)) = some (taken, gap ++ rest))
    (more : Spacing gap rest) : Spacing (taken ++ gap) rest := by
  generalize whole : taken ++ (gap ++ rest) = chars at read
  generalize left : gap ++ rest = others at read
  revert read
  fun_cases layoutItem? chars with
  | case1 text =>
      rintro ⟨rfl, rfl⟩
      refine .line ?_ ?_ more
      · intro inside
        simpa using List.all_eq_true.mp List.all_takeWhile _ inside
      · rw [left]
        exact head?_dropWhile_newline text
  | case2 text =>
      intro read
      obtain ⟨⟨inner, passed⟩, found, same⟩ := Option.map_eq_some_iff.mp read
      cases same
      cases comment_closes found with
      | level inside last =>
          cases last
          rw [List.append_nil]
          exact .block inside more
  | case3 c text _ _ white =>
      rintro ⟨rfl, rfl⟩
      exact .blank white more
  | case4 => simp
  | case5 => simp

/-- Layout that was read is blanks and comments. -/
theorem Layout.spacing {gap rest : List Char} (layout : Layout gap rest) : Spacing gap rest := by
  induction layout with
  | done none => exact .none
  | item read more ih => exact ih.item read

end SqlAudit.Lexer
