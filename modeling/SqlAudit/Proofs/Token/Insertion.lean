import SqlAudit.Proofs.Token.Locality
import SqlAudit.Proofs.Token.Spacing
/-!
Texts put together. A line break between two texts keeps their tokens apart, and blanks and comments
behind it are passed over: whatever is described as spacing is read as layout, so a comment counts
for no more than a blank.
-/
namespace SqlAudit

namespace Lexer

/-- A whole comment: to the end of a line with its line break, or between marks that nest. -/
inductive IsComment : List Char → Prop
  | line {body : List Char} (within : '\n' ∉ body) : IsComment ('-' :: '-' :: (body ++ ['\n']))
  | block {body : List Char} (enclosed : Enclosed body) : IsComment ('/' :: '*' :: body)

/-- What an opening encloses is read up to the closing that belongs to it, at any level. -/
theorem Enclosed.comment {body : List Char} (enclosed : Enclosed body) {depth : Nat}
    {chars taken rest : List Char} (read : comment depth chars = some (taken, rest)) :
    comment (depth + 1) (body ++ chars) = some (body ++ taken, rest) := by
  induction enclosed generalizing depth chars taken with
  | close =>
      rw [List.cons_append, List.cons_append, Lexer.comment, List.nil_append, read]
      rfl
  | @nest inner others inside more first second =>
      have closed := first (second read)
      rw [List.cons_append, List.cons_append, Lexer.comment, List.append_assoc, closed]
      simp
  | @char c others noClosing noOpening more ih =>
      have later := ih read
      have next : (others ++ chars).head? = others.head? := by
        cases more <;> rfl
      rw [List.cons_append, Lexer.comment]
      · rw [later]
        rfl
      · intro text star same
        exact noClosing star (by rw [← next, same]; rfl)
      · intro text slash same
        exact noOpening slash (by rw [← next, same]; rfl)

theorem layoutItem?_blank {c : Char} (white : Text.isBlank c = true) (rest : List Char) :
    layoutItem? (c :: rest) = some ([c], rest) := by
  generalize whole : c :: rest = chars
  fun_cases layoutItem? chars with
  | case1 text =>
      cases whole
      exact absurd white (by decide)
  | case2 text =>
      cases whole
      exact absurd white (by decide)
  | case3 =>
      cases whole
      rfl
  | case4 c text _ _ other =>
      cases whole
      exact absurd white other
  | case5 => cases whole

theorem takeWhile_line {body rest : List Char} (within : '\n' ∉ body)
    (ends : ∀ c ∈ rest.head?, c = '\n') : (body ++ rest).takeWhile (· != '\n') = body := by
  have inLine : ∀ c ∈ body, (c != '\n') = true := by
    intro c member
    simpa using fun same : c = '\n' => within (same ▸ member)
  rw [List.takeWhile_append_of_pos inLine]
  cases rest with
  | nil => simp
  | cons c rest => simp [ends c rfl]

theorem layoutItem?_comment {body rest : List Char} (within : '\n' ∉ body)
    (ends : ∀ c ∈ rest.head?, c = '\n') :
    layoutItem? ('-' :: '-' :: (body ++ rest)) = some ('-' :: '-' :: body, rest) := by
  have taken := takeWhile_line within ends
  have whole := List.takeWhile_append_dropWhile (p := (· != '\n')) (l := body ++ rest)
  rw [taken] at whole
  rw [layoutItem?_line, taken, List.append_cancel_left whole]

theorem layoutItem?_enclosed {body : List Char} (enclosed : Enclosed body) (rest : List Char) :
    layoutItem? ('/' :: '*' :: (body ++ rest)) = some ('/' :: '*' :: body, rest) := by
  have closed : comment (0 + 1) (body ++ rest) = some (body ++ [], rest) :=
    enclosed.comment (by rw [Lexer.comment])
  rw [layoutItem?_block, closed, List.append_nil]
  rfl

/-- One blank or one comment more in front of a text. -/
theorem Lexes.item {d : Dialect} {offset : Nat} (taken : List Char) {chars : List Char}
    {tokens : List Token} (read : layoutItem? (taken ++ chars) = some (taken, chars))
    (lexes : Lexes d (offset + size taken) chars tokens) :
    Lexes d offset (taken ++ chars) tokens := by
  have place (gap : List Char) :
      offset + size taken + size gap = offset + size (taken ++ gap) := by
    rw [size_append, Nat.add_assoc]
  cases lexes with
  | @finish _ gap layout =>
      rw [place]
      exact .finish (.item (by simpa using read) layout)
  | @token _ c gap rest tokens layout more =>
      rw [place] at more ⊢
      rw [← List.append_assoc]
      exact .token (.item read layout) more

/-- Blanks and comments before a text do no more than move its tokens. -/
theorem Spacing.lexes {d : Dialect} {offset : Nat} {gap chars : List Char} {tokens : List Token}
    (spacing : Spacing gap chars) (lexes : Lexes d (offset + size gap) chars tokens) :
    Lexes d offset (gap ++ chars) tokens := by
  induction spacing generalizing offset with
  | none => exact lexes
  | @blank c gap chars white more ih =>
      refine Lexes.item [c] (layoutItem?_blank white _) (ih ?_)
      rwa [Nat.add_assoc]
  | @line body gap chars within ends more ih =>
      have item := layoutItem?_comment within ends
      have later := @ih (offset + size ('-' :: '-' :: body)) (by
        rwa [Nat.add_assoc, ← size_append])
      have whole := Lexes.item ('-' :: '-' :: body) item later
      simpa using whole
  | @block body gap chars enclosed more ih =>
      have item := layoutItem?_enclosed enclosed (gap ++ chars)
      have later := @ih (offset + size ('/' :: '*' :: body)) (by
        rwa [Nat.add_assoc, ← size_append])
      have whole := Lexes.item ('/' :: '*' :: body) item later
      simpa using whole

/-- A comment is spacing, and stays so with a blank behind it. -/
theorem IsComment.spacing {comment chars : List Char} (whole : IsComment comment) {c : Char}
    (white : Text.isBlank c = true) : Spacing (comment ++ [c]) chars := by
  have last : Spacing [c] chars := .blank white .none
  cases whole with
  | @line body within =>
      have ends : Spacing ('-' :: '-' :: (body ++ ['\n', c])) chars :=
        .line within (by simp) (.blank (by decide) last)
      simpa using ends
  | @block body enclosed => exact .block enclosed last

end Lexer

/-- The tokens of a text are those of the text with spacing in front, but for their places. -/
theorem tokenize_spacing (d : Dialect) {gap : List Char} (b : String)
    (spacing : Lexer.Spacing gap b.toList) :
    tokenize d (String.ofList gap ++ b) =
      (tokenize d b).map (·.shift (Lexer.size gap)) := by
  have moved := (tokenize_lexes d b).shift (Lexer.size gap)
  have whole := tokenize_lexes d (String.ofList gap ++ b)
  rw [String.toList_append, String.toList_ofList] at whole
  exact whole.unique (spacing.lexes moved)

/-- Texts are read one after another. If the first is made of tokens only and a line break follows
it, its tokens stand before those of the second, and a comment between blanks behind the line break
changes none of them. -/
theorem tokenize_composes (d : Dialect) (a b : String)
    (valid : ∀ token ∈ tokenize d a, ∀ message, token.lexeme ≠ .invalid message) :
    (∃ tokens, tokenize d a = tokens ++ [⟨.finish, ⟨a.utf8ByteSize, a.utf8ByteSize⟩⟩] ∧
      tokenize d (a ++ "\n" ++ b) =
        tokens ++ (tokenize d b).map (·.shift (a.utf8ByteSize + 1))) ∧
    ∀ before comment after, Text.isBlank before = true → Lexer.IsComment comment →
      Text.isBlank after = true →
      (tokenize d (a ++ "\n" ++ (String.ofList (before :: (comment ++ [after])) ++ b))).map
          (·.lexeme) =
        (tokenize d (a ++ "\n" ++ b)).map (·.lexeme) := by
  constructor
  · exact ⟨_, (tokenize_inOrder d a).split_last.1, tokenize_newline d a b valid⟩
  · intro before comment after blank whole white
    have spacing : Lexer.Spacing (before :: (comment ++ [after])) b.toList :=
      .blank blank (whole.spacing white)
    have longer := tokenize_newline d a (String.ofList (before :: (comment ++ [after])) ++ b) valid
    have moved := tokenize_spacing d b spacing
    have shorter := tokenize_newline d a b valid
    simp only [longer, moved, shorter, List.map_append, List.map_map, Function.comp_def,
      Token.shift]

/-- Behind a comment that the line break ends, one whose marks share their characters. -/
theorem nested_comment_inserted :
    (∀ token ∈ tokenize .postgres "SELECT 'a'--b", ∀ message, token.lexeme ≠ .invalid message) ∧
    Lexer.IsComment ['/', '*', '/', ' ', '/', '*', '*', '/', '*', '*', '/'] ∧
    (tokenize .postgres "SELECT 'a'--b\n /*/ /**/**/ * 2").map (·.lexeme) =
      (tokenize .postgres "SELECT 'a'--b\n* 2").map (·.lexeme) := by
  have valid : ∀ token ∈ tokenize .postgres "SELECT 'a'--b", ∀ message,
      token.lexeme ≠ .invalid message := by
    have read : tokenize .postgres "SELECT 'a'--b" =
        [⟨.keyword .SELECT, ⟨0, 6⟩⟩, ⟨.string "a", ⟨7, 10⟩⟩, ⟨.finish, ⟨13, 13⟩⟩] := by
      decide +kernel
    simp [read]
  have comment : Lexer.IsComment ['/', '*', '/', ' ', '/', '*', '*', '/', '*', '*', '/'] := by
    refine .block (.char (by simp) (by simp) (.char (by simp) (by simp) ?_))
    have empty : Lexer.Enclosed ['*', '/'] := .close
    exact .nest empty (.char (by simp) (by simp) .close)
  have longer : "SELECT 'a'--b" ++ "\n" ++ (String.ofList (' ' :: (
      ['/', '*', '/', ' ', '/', '*', '*', '/', '*', '*', '/'] ++ [' '])) ++ "* 2") =
      "SELECT 'a'--b\n /*/ /**/**/ * 2" := by
    decide +kernel
  have shorter : "SELECT 'a'--b" ++ "\n" ++ "* 2" = "SELECT 'a'--b\n* 2" := by decide +kernel
  have inserted := (tokenize_composes .postgres "SELECT 'a'--b" "* 2" valid).2 ' ' _ ' '
    (by decide) comment (by decide)
  have lexemes {text other : String} (same : text = other) :
      (tokenize .postgres text).map (·.lexeme) = (tokenize .postgres other).map (·.lexeme) := by
    rw [same]
  exact ⟨valid, comment, (lexemes longer).symm.trans (inserted.trans (lexemes shorter))⟩

end SqlAudit
