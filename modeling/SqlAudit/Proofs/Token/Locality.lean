import SqlAudit.Proofs.Token.Order
/-!
A line break ends every token. What a scanner makes of some characters, unless they are no token, it
also makes of them with a line break and anything else after them; so the tokens of two texts with a
line break between them are those of the first and those of the second.
-/
namespace SqlAudit

namespace Scan

/-- The characters make a token. -/
def IsValid (scan : Scan) : Prop := ∀ message, scan.lexeme ≠ .invalid message

/-- The same token with more characters after it. -/
def followedBy (more : List Char) (scan : Scan) : Scan := { scan with rest := scan.rest ++ more }

end Scan

namespace Lexer

variable {p : Char → Bool} (b : List Char)

theorem takeWhile_newline (stops : p '\n' = false) (chars : List Char) :
    (chars ++ '\n' :: b).takeWhile p = chars.takeWhile p := by
  induction chars with
  | nil => simp [stops]
  | cons c chars ih => cases holds : p c <;> simp [holds, ih]

theorem dropWhile_newline (stops : p '\n' = false) (chars : List Char) :
    (chars ++ '\n' :: b).dropWhile p = chars.dropWhile p ++ '\n' :: b := by
  induction chars with
  | nil => simp [stops]
  | cons c chars ih => cases holds : p c <;> simp [holds, ih]

theorem startsWith_newline (stops : p '\n' = false) (chars : List Char) :
    startsWith p (chars ++ '\n' :: b) = startsWith p chars := by
  cases chars <;> simp [startsWith, stops]

theorem isNamePart_newline : isNamePart '\n' = false := by decide

theorem isWordPart_newline : isWordPart '\n' = false := by decide

theorem isWordStart_newline : isWordStart '\n' = false := by decide

theorem comment_append (more : List Char) {depth : Nat} {chars taken rest : List Char}
    (read : comment depth chars = some (taken, rest)) :
    comment depth (chars ++ more) = some (taken, rest ++ more) := by
  fun_induction comment depth chars generalizing taken with
  | case1 =>
      cases read
      rw [comment]
  | case2 => simp at read
  | case3 | case4 =>
      rename_i ih
      obtain ⟨⟨inner, left⟩, found, same⟩ := Option.map_eq_some_iff.mp read
      cases same
      simp [comment, ih found]
  | case5 depth c text notClose notOpen ih =>
      obtain ⟨⟨inner, left⟩, found, same⟩ := Option.map_eq_some_iff.mp read
      cases same
      cases text with
      | nil => simp [comment] at found
      | cons t text =>
          have later := ih found
          rw [List.cons_append] at later
          rw [List.cons_append, List.cons_append, comment]
          · rw [later]
            rfl
          · intro rest star same
            exact notClose text star (by rw [(List.cons.inj same).1])
          · intro rest slash same
            exact notOpen text slash (by rw [(List.cons.inj same).1])

theorem layoutItem?_line (text : List Char) :
    layoutItem? ('-' :: '-' :: text) =
      some ('-' :: '-' :: text.takeWhile (· != '\n'), text.dropWhile (· != '\n')) :=
  rfl

theorem layoutItem?_block (text : List Char) :
    layoutItem? ('/' :: '*' :: text) =
      (comment 1 text).map fun (taken, rest) => ('/' :: '*' :: taken, rest) :=
  rfl

theorem layoutItem?_newline {chars taken rest : List Char}
    (read : layoutItem? chars = some (taken, rest)) :
    layoutItem? (chars ++ '\n' :: b) = some (taken, rest ++ '\n' :: b) := by
  revert read
  fun_cases layoutItem? chars with
  | case1 text =>
      rintro ⟨rfl, rfl⟩
      rw [List.cons_append, List.cons_append, layoutItem?_line, takeWhile_newline b (by decide),
        dropWhile_newline b (by decide)]
  | case2 text =>
      intro read
      obtain ⟨⟨inner, left⟩, found, same⟩ := Option.map_eq_some_iff.mp read
      cases same
      rw [List.cons_append, List.cons_append, layoutItem?_block, comment_append _ found]
      rfl
  | case3 c text notLine notBlock blank =>
      rintro ⟨rfl, rfl⟩
      have notDash : c ≠ '-' := by
        rintro rfl
        exact absurd blank (by decide)
      have notSlash : c ≠ '/' := by
        rintro rfl
        exact absurd blank (by decide)
      unfold layoutItem?
      split
      · rename_i same
        exact absurd (List.cons.inj same).1 notDash
      · rename_i same
        exact absurd (List.cons.inj same).1 notSlash
      · rename_i same
        obtain ⟨rfl, rfl⟩ := List.cons.inj same
        rw [if_pos blank]
        rfl
      · rename_i same
        cases same
  | case4 | case5 =>
      intro read
      cases read

/-- Layout up to the end of a text goes on after a line break. -/
theorem Layout.newline {gap more rest : List Char} (layout : Layout gap [])
    (next : Layout ('\n' :: more) rest) : Layout (gap ++ '\n' :: more) rest := by
  generalize none : ([] : List Char) = last at layout
  induction layout with
  | done read => exact next
  | @item taken gap last read layout ih =>
      subst none
      have item := layoutItem?_newline (more ++ rest) read
      rw [List.append_assoc]
      refine .item ?_ (ih rfl)
      simpa using item

theorem quotedBody_newline {quote : Char} (notBreak : quote ≠ '\n')
    {chars value taken rest : List Char} (read : quotedBody quote chars = some (value, taken, rest)) :
    quotedBody quote (chars ++ '\n' :: b) = some (value, taken, rest ++ '\n' :: b) := by
  fun_induction quotedBody quote chars generalizing value taken with
  | case1 => cases read
  | case2 =>
      cases read
      simp [quotedBody, notBreak.symm]
  | case3 more ih =>
      obtain ⟨⟨inner, passed, left⟩, found, same⟩ := Option.map_eq_some_iff.mp read
      cases same
      simp [quotedBody, ih found]
  | case4 d more other =>
      cases read
      simp [quotedBody, other]
  | case5 c text other ih =>
      obtain ⟨⟨inner, passed, left⟩, found, same⟩ := Option.map_eq_some_iff.mp read
      cases same
      rw [List.cons_append, quotedBody.eq_def]
      simp [other, ih found]

theorem escapedBody_newline {chars value taken rest : List Char}
    (read : escapedBody chars = some (value, taken, rest)) :
    escapedBody (chars ++ '\n' :: b) = some (value, taken, rest ++ '\n' :: b) := by
  fun_induction escapedBody chars generalizing value taken with
  | case1 => cases read
  | case2 =>
      cases read
      simp [escapedBody]
  | case3 => cases read
  | case4 text ih =>
      obtain ⟨⟨inner, passed, left⟩, found, same⟩ := Option.map_eq_some_iff.mp read
      cases same
      simp [escapedBody, ih found]
  | case5 d text other =>
      cases read
      simp [escapedBody, other]
  | case6 d text notQuote ih =>
      obtain ⟨⟨inner, passed, left⟩, found, same⟩ := Option.map_eq_some_iff.mp read
      cases same
      simp [escapedBody, ih found]
  | case7 c d text notQuote notEscape ih =>
      obtain ⟨⟨inner, passed, left⟩, found, same⟩ := Option.map_eq_some_iff.mp read
      cases same
      have later := ih found
      rw [List.cons_append] at later
      simp [escapedBody, notQuote, notEscape, later]

theorem bitsBody_newline {hex : Bool} {source digits chars : List Char}
    (valid : (bitsBody hex source digits chars).IsValid) :
    bitsBody hex source digits (chars ++ '\n' :: b) =
      (bitsBody hex source digits chars).followedBy ('\n' :: b) := by
  fun_induction bitsBody hex source digits chars with
  | case1 => exact absurd rfl (valid _)
  | case2 => simp [bitsBody, Scan.followedBy]
  | case3 source digits c text notEnd digit ih => simpa [bitsBody, notEnd, digit] using ih valid
  | case4 source digits c text notEnd notDigit blank ih =>
      simpa [bitsBody, notEnd, notDigit, blank] using ih valid
  | case5 => exact absurd rfl (valid _)

theorem splitAt_append (more : List Char) {mark chars body rest : List Char}
    (read : splitAt mark chars = some (body, rest)) :
    splitAt mark (chars ++ more) = some (body, rest ++ more) := by
  fun_induction splitAt mark chars generalizing body with
  | case1 none =>
      obtain ⟨rfl, rfl⟩ : [] = body ∧ [] = rest := by simpa using read
      rw [List.isEmpty_iff.mp none]
      cases more <;> simp [splitAt]
  | case2 => cases read
  | case3 c text here =>
      cases read
      have begins := List.isPrefixOf_iff_prefix.mp here
      have longer := begins.trans (List.prefix_append (c :: text) more)
      rw [List.cons_append] at longer ⊢
      rw [splitAt, if_pos (List.isPrefixOf_iff_prefix.mpr longer), ← List.cons_append,
        List.drop_append_of_le_length begins.length_le]
  | case4 c text elsewhere ih =>
      obtain ⟨⟨inner, left⟩, found, same⟩ := Option.map_eq_some_iff.mp read
      cases same
      have lengths := congrArg List.length (splitAt_covers found)
      simp only [List.length_append] at lengths
      have still : ¬ mark.isPrefixOf (c :: (text ++ more)) := by
        intro begins
        have longer := List.isPrefixOf_iff_prefix.mp begins
        rw [← List.cons_append] at longer
        have short := List.prefix_of_prefix_length_le longer (List.prefix_append (c :: text) more)
          (by simp only [List.length_cons]; omega)
        exact elsewhere (List.isPrefixOf_iff_prefix.mpr short)
      rw [List.cons_append, splitAt, if_neg still, ih found]
      rfl

theorem fraction_newline (chars : List Char) :
    fraction (chars ++ '\n' :: b) = ((fraction chars).1, (fraction chars).2 ++ '\n' :: b) := by
  cases chars with
  | nil => rfl
  | cons c rest =>
      by_cases point : c = '.'
      · subst point
        have next : ((rest ++ '\n' :: b).head? == some '.') = (rest.head? == some '.') := by
          cases rest <;> rfl
        simp only [List.cons_append, fraction, next, takeWhile_newline b (by decide : '\n'.isDigit = false),
          dropWhile_newline b (by decide : '\n'.isDigit = false)]
        split <;> rfl
      · simp [fraction, point]

theorem exponent_newline (chars : List Char) :
    exponent (chars ++ '\n' :: b) = ((exponent chars).1, (exponent chars).2 ++ '\n' :: b) := by
  cases chars with
  | nil => simp [exponent]
  | cons e rest =>
      let isSign (c : Char) : Bool := c == '+' || c == '-'
      have sign : ((rest ++ '\n' :: b).take 1).filter isSign = (rest.take 1).filter isSign := by
        cases rest <;> rfl
      have short : ((rest.take 1).filter isSign).length ≤ rest.length :=
        (List.length_filter_le _ _).trans (List.length_take_le' _ _)
      have after : (rest ++ '\n' :: b).drop ((rest.take 1).filter isSign).length =
          rest.drop ((rest.take 1).filter isSign).length ++ '\n' :: b :=
        List.drop_append_of_le_length short
      simp only [List.cons_append, exponent]
      simp only [isSign] at sign after
      rw [sign, after, takeWhile_newline b (by decide), dropWhile_newline b (by decide)]
      split
      · split <;> rfl
      · rfl

theorem number_newline (chars : List Char) :
    number (chars ++ '\n' :: b) = (number chars).followedBy ('\n' :: b) := by
  have letter : ∀ rest : List Char, ((rest ++ '\n' :: b).head?.map isWordStart).getD false =
      (rest.head?.map isWordStart).getD false := by
    intro rest
    cases rest
    · exact isWordStart_newline
    · rfl
  simp only [number, takeWhile_newline b (by decide : '\n'.isDigit = false),
    dropWhile_newline b (by decide : '\n'.isDigit = false), fraction_newline, exponent_newline, letter,
    takeWhile_newline b isNamePart_newline, dropWhile_newline b isNamePart_newline]
  split <;> rfl

theorem word_newline (chars : List Char) :
    word (chars ++ '\n' :: b) = (word chars).followedBy ('\n' :: b) := by
  simp only [word, takeWhile_newline b isWordPart_newline, dropWhile_newline b isWordPart_newline]
  rfl

theorem dollar_newline {chars : List Char} (valid : (dollar chars).IsValid) :
    dollar (chars ++ '\n' :: b) = (dollar chars).followedBy ('\n' :: b) := by
  revert valid
  simp only [dollar, takeWhile_newline b (by decide : '\n'.isDigit = false),
    dropWhile_newline b (by decide : '\n'.isDigit = false),
    takeWhile_newline b isNamePart_newline, dropWhile_newline b isNamePart_newline]
  split
  · intro valid
    rfl
  · split
    · rename_i text tagged
      simp only [tagged, List.cons_append]
      split
      · rename_i body left found
        intro valid
        simp only [splitAt_append _ found]
        rfl
      · intro valid
        exact absurd rfl (valid _)
    · intro valid
      exact absurd rfl (valid _)

theorem namedParameter_newline (chars : List Char) :
    namedParameter (chars ++ '\n' :: b) = (namedParameter chars).followedBy ('\n' :: b) := by
  simp only [namedParameter, takeWhile_newline b isNamePart_newline,
    dropWhile_newline b isNamePart_newline]
  rfl

theorem isPrefixOf_newline {key : List Char} (inLine : '\n' ∉ key) (chars : List Char) :
    key.isPrefixOf (chars ++ '\n' :: b) = key.isPrefixOf chars := by
  induction key generalizing chars with
  | nil => simp
  | cons k key ih =>
      cases chars with
      | nil =>
          have other : k ≠ '\n' := fun same => inLine (same ▸ .head _)
          simp [List.isPrefixOf, other]
      | cons c chars =>
          simp only [List.cons_append, List.isPrefixOf]
          rw [ih (fun member => inLine (.tail _ member))]

theorem spellings_inLine : ∀ entry ∈ spellings, '\n' ∉ entry.1 := by decide

theorem punctuation_newline (c : Char) (rest : List Char) :
    punctuation c (rest ++ '\n' :: b) = (punctuation c rest).followedBy ('\n' :: b) := by
  have same : (spellings.find? fun entry => entry.1.isPrefixOf (c :: (rest ++ '\n' :: b))) =
      spellings.find? fun entry => entry.1.isPrefixOf (c :: rest) := by
    rw [← List.head?_filter, ← List.head?_filter]
    refine congrArg List.head? (List.filter_congr fun entry member => ?_)
    rw [← List.cons_append, isPrefixOf_newline b (spellings_inLine entry member)]
  unfold punctuation
  rw [same]
  split
  · rename_i spelling lexeme found
    have begins : spelling.isPrefixOf (c :: rest) := by simpa using List.find?_some found
    have short := (List.isPrefixOf_iff_prefix.mp begins).length_le
    simp only [Scan.followedBy]
    rw [← List.cons_append, List.drop_append_of_le_length short]
  · rfl

/-- A character that has to follow is there also without the line break. -/
theorem tail_newline {rest : List Char} (follows : startsWith p rest = true) :
    (rest ++ '\n' :: b).tail = rest.tail ++ '\n' :: b := by
  cases rest with
  | nil => cases follows
  | cons next rest => rfl

theorem string_newline {rest : List Char} (valid : (string rest).IsValid) :
    string (rest ++ '\n' :: b) = (string rest).followedBy ('\n' :: b) := by
  unfold string at valid ⊢
  split at valid
  · exact absurd rfl (valid _)
  · rename_i value taken left found
    rw [quotedBody_newline b (by decide) found]
    rfl

theorem escapedString_newline {mark : Char} {rest : List Char}
    (valid : (escapedString mark rest).IsValid) :
    escapedString mark (rest ++ '\n' :: b) = (escapedString mark rest).followedBy ('\n' :: b) := by
  unfold escapedString at valid ⊢
  split at valid
  · exact absurd rfl (valid _)
  · rename_i value taken left found
    rw [escapedBody_newline b found]
    rfl

theorem quotedName_newline {quote : Char} (notBreak : quote ≠ '\n') {rest : List Char}
    (valid : (quotedName quote rest).IsValid) :
    quotedName quote (rest ++ '\n' :: b) = (quotedName quote rest).followedBy ('\n' :: b) := by
  unfold quotedName at valid ⊢
  split at valid
  · exact absurd rfl (valid _)
  · exact absurd rfl (valid _)
  · rename_i value taken left notEmpty found
    rw [quotedBody_newline b notBreak found]
    cases value with
    | nil => exact absurd rfl notEmpty
    | cons v value => rfl

theorem scan_newline {d : Dialect} {c : Char} {rest : List Char} (valid : (scan d c rest).IsValid) :
    scan d c (rest ++ '\n' :: b) = (scan d c rest).followedBy ('\n' :: b) := by
  have comment := startsWith_newline b (p := (· == '*')) (by decide) rest
  have quote := startsWith_newline b (p := (· == '\x27')) (by decide) rest
  have digit := startsWith_newline b (p := Char.isDigit) (by decide) rest
  have letter := startsWith_newline b isWordStart_newline rest
  revert valid
  rw [scan.eq_1 d c (rest ++ '\n' :: b), comment, quote, digit, letter]
  fun_cases scan d c rest with
  | case1 => exact fun valid => absurd rfl (valid _)
  | case2 h1 mark =>
      rw [if_neg h1, if_pos mark]
      exact string_newline b
  | case3 h1 h2 mark =>
      rw [if_neg h1, if_neg h2, if_pos mark]
      simp only [Bool.and_eq_true] at mark
      rw [tail_newline b mark.1.2]
      exact escapedString_newline b
  | case4 h1 h2 h3 mark =>
      rw [if_neg h1, if_neg h2, if_neg h3, if_pos mark]
      simp only [Bool.and_eq_true] at mark
      rw [tail_newline b mark.2]
      exact bitsBody_newline b
  | case5 h1 h2 h3 h4 mark =>
      rw [if_neg h1, if_neg h2, if_neg h3, if_neg h4, if_pos mark]
      simp only [Bool.and_eq_true] at mark
      rw [tail_newline b mark.2]
      exact bitsBody_newline b
  | case6 h1 h2 h3 h4 h5 starts =>
      rw [if_neg h1, if_neg h2, if_neg h3, if_neg h4, if_neg h5, if_pos starts]
      intro valid
      exact number_newline b (c :: rest)
  | case7 h1 h2 h3 h4 h5 h6 starts =>
      rw [if_neg h1, if_neg h2, if_neg h3, if_neg h4, if_neg h5, if_neg h6, if_pos starts]
      intro valid
      exact word_newline b (c :: rest)
  | case8 h1 h2 h3 h4 h5 h6 h7 quoting =>
      rw [if_neg h1, if_neg h2, if_neg h3, if_neg h4, if_neg h5, if_neg h6, if_neg h7,
        if_pos quoting]
      apply quotedName_newline b
      rintro rfl
      cases d <;> simp [Dialect.quotes] at quoting
  | case9 h1 h2 h3 h4 h5 h6 h7 h8 mark =>
      rw [if_neg h1, if_neg h2, if_neg h3, if_neg h4, if_neg h5, if_neg h6, if_neg h7, if_neg h8,
        if_pos mark]
      exact dollar_newline b
  | case10 h1 h2 h3 h4 h5 h6 h7 h8 h9 mark =>
      rw [if_neg h1, if_neg h2, if_neg h3, if_neg h4, if_neg h5, if_neg h6, if_neg h7, if_neg h8,
        if_neg h9, if_pos mark]
      intro valid
      exact namedParameter_newline b rest
  | case11 h1 h2 h3 h4 h5 h6 h7 h8 h9 h10 =>
      rw [if_neg h1, if_neg h2, if_neg h3, if_neg h4, if_neg h5, if_neg h6, if_neg h7, if_neg h8,
        if_neg h9, if_neg h10]
      intro valid
      exact punctuation_newline b c rest

theorem Layout.last {gap rest : List Char} (layout : Layout gap rest) :
    layoutItem? rest = none := by
  induction layout with
  | done none => exact none
  | item read more ih => exact ih

theorem Layout.unique {gap gap' rest rest' : List Char} (first : Layout gap rest)
    (second : Layout gap' rest') (same : gap ++ rest = gap' ++ rest') :
    gap = gap' ∧ rest = rest' := by
  induction first generalizing gap' with
  | @done rest none =>
      cases second with
      | done => exact ⟨rfl, same⟩
      | @item taken gap _ read more =>
          rw [List.nil_append, List.append_assoc] at same
          rw [← same, none] at read
          cases read
  | @item taken gap rest read more ih =>
      rw [List.append_assoc] at same
      cases second with
      | done none =>
          rw [same, List.nil_append, none] at read
          cases read
      | @item taken' gap' _ read' more' =>
          rw [List.append_assoc] at same
          rw [same, read'] at read
          obtain ⟨rfl, left⟩ := Prod.mk.inj (Option.some.inj read)
          obtain ⟨rfl, rest⟩ := ih more' left.symm
          exact ⟨rfl, rest⟩

/-- Layout before a token is the same when a line break stands somewhere after the token. -/
theorem Layout.before {gap rest : List Char} (layout : Layout gap rest)
    (none : layoutItem? (rest ++ '\n' :: b) = none) : Layout gap (rest ++ '\n' :: b) := by
  induction layout with
  | done _ => exact .done none
  | item read more ih =>
      refine .item ?_ (ih none)
      simpa using layoutItem?_newline b read

theorem layoutItem?_none {d : Dialect} {c : Char} {rest : List Char}
    (valid : (scan d c rest).IsValid) (none : layoutItem? (c :: rest) = none) :
    layoutItem? (c :: (rest ++ '\n' :: b)) = .none := by
  have notBlank : Text.isBlank c = false := by
    revert none
    unfold layoutItem?
    split <;> rename_i same
    · simp
    · obtain ⟨rfl, -⟩ := List.cons.inj same
      intro _
      decide
    · obtain ⟨rfl, rfl⟩ := List.cons.inj same
      split <;> simp_all
    · cases same
  unfold layoutItem?
  split
  · rename_i text same
    obtain ⟨rfl, follows⟩ := List.cons.inj same
    cases rest with
    | nil => simp at follows
    | cons next rest =>
        obtain ⟨rfl, -⟩ := List.cons.inj follows
        rw [layoutItem?_line] at none
        cases none
  · rename_i text same
    obtain ⟨rfl, follows⟩ := List.cons.inj same
    cases rest with
    | nil => simp at follows
    | cons next rest =>
        obtain ⟨rfl, -⟩ := List.cons.inj follows
        exact absurd rfl (valid "Unterminated block comment")
  · rename_i same
    obtain ⟨rfl, rfl⟩ := List.cons.inj same
    simp [notBlank]
  · rfl

theorem Lexes.ne_nil {d : Dialect} {offset : Nat} {chars : List Char} {tokens : List Token}
    (lexes : Lexes d offset chars tokens) : tokens ≠ [] := by
  cases lexes <;> simp

theorem size_newline : size ['\n'] = 1 := rfl

theorem Layout.cons_newline {gap rest : List Char} (layout : Layout gap rest) :
    Layout ('\n' :: gap) rest := by
  have item : Layout (['\n'] ++ gap) rest := .item rfl layout
  exact item

/-- The tokens of two texts with a line break between them. -/
theorem Lexes.newline {d : Dialect} {offset : Nat} {a : List Char} {tokens more : List Token}
    (first : Lexes d offset a tokens) (valid : ∀ token ∈ tokens, ∀ m, token.lexeme ≠ .invalid m)
    (second : Lexes d (offset + size a + 1) b more) :
    Lexes d offset (a ++ '\n' :: b) (tokens.dropLast ++ more) := by
  induction first with
  | @finish offset gap layout =>
      have place : ∀ after : List Char, offset + size gap + 1 + size after =
          offset + size (gap ++ '\n' :: after) := by
        intro after
        rw [size_append, ← List.singleton_append, size_append, size_newline]
        omega
      cases second with
      | @finish _ after more =>
          rw [place]
          exact .finish (layout.newline more.cons_newline)
      | @token _ c after rest tokens more later =>
          rw [place] at later ⊢
          have joined := layout.newline more.cons_newline
          have lexes := @Lexes.token d offset _ _ _ _ joined later
          rw [List.append_assoc] at lexes
          exact lexes
  | @token offset c gap rest tokens layout later ih =>
      have here : (scan d c rest).IsValid := valid _ (.head _)
      have covers := (scan_covers d c rest).whole
      have place : offset + size gap + size (scan d c rest).source + size (scan d c rest).rest =
          offset + size (gap ++ c :: rest) := by
        rw [size_append, ← covers, size_append]
        omega
      have next := ih (fun token member => valid token (.tail _ member)) (by rwa [place])
      have scanned := scan_newline b here
      have before : Layout gap (c :: (rest ++ '\n' :: b)) :=
        Layout.before b layout (layoutItem?_none b here layout.last)
      have whole := @Lexes.token d offset _ _ _ _ before (by rw [scanned]; exact next)
      rw [scanned] at whole
      rw [List.append_assoc, List.dropLast_cons_of_ne_nil later.ne_nil]
      exact whole

theorem Lexes.unique {d : Dialect} {offset : Nat} {chars : List Char} {first second : List Token}
    (left : Lexes d offset chars first) (right : Lexes d offset chars second) : first = second := by
  induction left generalizing second with
  | @finish offset gap layout =>
      generalize same : gap = chars at right
      cases right with
      | finish other =>
          subst same
          rfl
      | token other more =>
          have parts := layout.unique other (by simpa using same)
          cases parts.2
  | @token offset c gap rest tokens layout more ih =>
      generalize same : gap ++ c :: rest = chars at right
      cases right with
      | finish other =>
          have parts := layout.unique other (by simpa using same)
          cases parts.2
      | token other later =>
          obtain ⟨rfl, parts⟩ := layout.unique other same
          obtain ⟨rfl, rfl⟩ := List.cons.inj parts
          rw [ih later]

end Lexer

def Token.shift (n : Nat) (token : Token) : Token := { token with span := token.span.shift n }

theorem Lexer.Lexes.shift {d : Dialect} {offset : Nat} {chars : List Char} {tokens : List Token}
    (n : Nat) (lexes : Lexes d offset chars tokens) :
    Lexes d (offset + n) chars (tokens.map (·.shift n)) := by
  induction lexes with
  | @finish offset gap layout =>
      have moved := @Lexes.finish d (offset + n) _ layout
      rwa [Nat.add_right_comm] at moved
  | @token offset c gap rest tokens layout more ih =>
      have starts : offset + n + size gap = offset + size gap + n := by omega
      have stops : offset + size gap + n + size (scan d c rest).source =
          offset + size gap + size (scan d c rest).source + n := by omega
      have moved := @Lexes.token d (offset + n) _ _ _ (tokens.map (·.shift n)) layout (by
        rw [starts, stops]
        exact ih)
      rw [starts, stops] at moved
      exact moved

/-- The tokens of two texts with a line break between them are those of the first without its end
and those of the second, if the first text is made of tokens only. -/
theorem tokenize_newline (d : Dialect) (a b : String)
    (valid : ∀ token ∈ tokenize d a, ∀ message, token.lexeme ≠ .invalid message) :
    tokenize d (a ++ "\n" ++ b) =
      (tokenize d a).dropLast ++ (tokenize d b).map (·.shift (a.utf8ByteSize + 1)) := by
  have second := (tokenize_lexes d b).shift (a.utf8ByteSize + 1)
  rw [← Lexer.size_toList, Nat.zero_add] at second
  have joined := (tokenize_lexes d a).newline b.toList valid (by rwa [Nat.zero_add])
  have whole := tokenize_lexes d (a ++ "\n" ++ b)
  have chars : (a ++ "\n" ++ b).toList = a.toList ++ '\n' :: b.toList := by
    simp [String.toList_append]
  rw [chars] at whole
  rw [whole.unique joined, Lexer.size_toList]

end SqlAudit
