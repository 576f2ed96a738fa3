import SqlAudit.Token.Lexer
/-!
Scanning loses nothing: what a scanner took and what it left are the characters it was given, in
their order, and a token always takes at least one of them.
-/
namespace SqlAudit

structure Scan.Covers (scan : Scan) (chars : List Char) : Prop where
  whole : scan.source ++ scan.rest = chars
  nonempty : scan.source ≠ []
  token : scan.lexeme ≠ .finish

namespace Lexer

theorem comment_covers {depth : Nat} {chars taken rest : List Char}
    (read : comment depth chars = some (taken, rest)) : taken ++ rest = chars := by
  fun_induction comment depth chars generalizing taken with
  | case1 => simp_all
  | case2 => simp at read
  | case3 | case4 | case5 =>
      rename_i ih
      obtain ⟨⟨inner, left⟩, found, same⟩ := Option.map_eq_some_iff.mp read
      cases same
      simp [ih found]

theorem layoutItem?_covers {chars taken rest : List Char}
    (read : layoutItem? chars = some (taken, rest)) : taken ++ rest = chars ∧ taken ≠ [] := by
  revert read
  fun_cases layoutItem? chars with
  | case1 text =>
      rintro ⟨rfl, rfl⟩
      simp [List.takeWhile_append_dropWhile]
  | case2 text =>
      intro read
      obtain ⟨⟨inner, left⟩, found, same⟩ := Option.map_eq_some_iff.mp read
      cases same
      simp [comment_covers found]
  | case3 c text =>
      rintro ⟨rfl, rfl⟩
      simp
  | case4 => simp
  | case5 => simp

theorem layout_covers (fuel : Nat) (chars : List Char) :
    (layout fuel chars).1 ++ (layout fuel chars).2 = chars := by
  fun_induction layout fuel chars with
  | case1 => rfl
  | case2 fuel chars taken rest item more left found ih =>
      have here := (layoutItem?_covers item).1
      rw [found] at ih
      simp only at ih
      simp [← here, ← ih]
  | case3 => rfl

/-- The characters of a quoted text up to its closing quote, and those after it. -/
theorem quotedBody_covers {quote : Char} {chars value taken rest : List Char}
    (read : quotedBody quote chars = some (value, taken, rest)) : taken ++ rest = chars := by
  fun_induction quotedBody quote chars generalizing value taken with
  | case1 => simp at read
  | case2 => simp_all
  | case3 more ih =>
      obtain ⟨⟨inner, passed, left⟩, found, same⟩ := Option.map_eq_some_iff.mp read
      cases same
      simp [ih found]
  | case4 =>
      simp only [Option.some.injEq, Prod.mk.injEq] at read
      obtain ⟨-, rfl, rfl⟩ := read
      rfl
  | case5 c text other ih =>
      obtain ⟨⟨inner, passed, left⟩, found, same⟩ := Option.map_eq_some_iff.mp read
      cases same
      simp [ih found]

theorem escapedBody_covers {chars value taken rest : List Char}
    (read : escapedBody chars = some (value, taken, rest)) : taken ++ rest = chars := by
  fun_induction escapedBody chars generalizing value taken with
  | case1 => simp at read
  | case2 => simp_all
  | case3 => simp at read
  | case5 =>
      simp only [Option.some.injEq, Prod.mk.injEq] at read
      obtain ⟨-, rfl, rfl⟩ := read
      rfl
  | case4 | case6 | case7 =>
      rename_i ih
      obtain ⟨⟨inner, passed, left⟩, found, same⟩ := Option.map_eq_some_iff.mp read
      cases same
      simp [ih found]

theorem splitAt_covers {mark chars body rest : List Char}
    (read : splitAt mark chars = some (body, rest)) : body ++ mark ++ rest = chars := by
  fun_induction splitAt mark chars generalizing body with
  | case1 => simp_all
  | case2 => simp at read
  | case3 c text here =>
      obtain ⟨left, same⟩ := List.isPrefixOf_iff_prefix.mp here
      simp only [← same, List.drop_left, Option.some.injEq, Prod.mk.injEq] at read
      obtain ⟨rfl, rfl⟩ := read
      simpa using same
  | case4 c text elsewhere ih =>
      obtain ⟨⟨inner, left⟩, found, same⟩ := Option.map_eq_some_iff.mp read
      cases same
      simp [← ih found]

theorem word_covers {c : Char} {rest : List Char} (starts : isWordPart c) :
    (word (c :: rest)).Covers (c :: rest) where
  whole := List.takeWhile_append_dropWhile
  nonempty := by simp [word, starts]
  token := by
    rw [word]
    split <;> simp

theorem quotedName_covers (quote : Char) (rest : List Char) :
    (quotedName quote rest).Covers (quote :: rest) := by
  unfold quotedName
  split
  · exact ⟨by simp, by simp, by simp⟩
  · rename_i taken left found
    exact ⟨by simp [quotedBody_covers found], by simp, by simp⟩
  · rename_i value taken left notEmpty found
    exact ⟨by simp [quotedBody_covers found], by simp, by simp⟩

theorem string_covers (rest : List Char) : (string rest).Covers ('\x27' :: rest) := by
  unfold string
  split
  · exact ⟨by simp [unterminatedString], by simp [unterminatedString], by simp [unterminatedString]⟩
  · rename_i value taken left found
    exact ⟨by simp [quotedBody_covers found], by simp, by simp⟩

theorem escapedString_covers (mark : Char) (rest : List Char) :
    (escapedString mark rest).Covers (mark :: '\x27' :: rest) := by
  unfold escapedString
  split
  · exact ⟨by simp [unterminatedString], by simp [unterminatedString], by simp [unterminatedString]⟩
  · rename_i value taken left found
    exact ⟨by simp [escapedBody_covers found], by simp, by simp⟩

theorem bitsBody_covers (hex : Bool) {source : List Char} (digits : List Char)
    (some : source ≠ []) (chars : List Char) :
    (bitsBody hex source digits chars).Covers (source.reverse ++ chars) := by
  fun_induction bitsBody hex source digits chars with
  | case1 => exact ⟨by simp, by simpa using some, by simp⟩
  | case2 => exact ⟨by simp, by simp, by simp⟩
  | case3 source digits c text notEnd digit ih => simpa using ih (by simp)
  | case4 source digits c text notEnd notDigit blank ih => simpa using ih (by simp)
  | case5 source digits c text notEnd notDigit notBlank skipped left =>
      refine ⟨?_, by simp, by simp⟩
      have apart : skipped ++ left = text := List.takeWhile_append_dropWhile
      rw [List.append_assoc, List.take_append_drop, List.append_assoc, apart]
      simp

theorem dollar_covers (rest : List Char) : (dollar rest).Covers ('$' :: rest) := by
  unfold dollar
  dsimp only
  split
  · exact ⟨by simp [List.takeWhile_append_dropWhile], by simp, by simp⟩
  · have apart : rest.takeWhile isNamePart ++ rest.dropWhile isNamePart = rest :=
      List.takeWhile_append_dropWhile
    split
    · rename_i text tagged
      split
      · rename_i body left found
        refine ⟨?_, by simp, by simp⟩
        calc
          _ = '$' :: (rest.takeWhile isNamePart ++ '$' :: text) := by
            rw [← splitAt_covers found]
            simp
          _ = '$' :: rest := by rw [← tagged, apart]
      · exact ⟨by simp, by simp, by simp⟩
    · exact ⟨by simp, by simp, by simp⟩

theorem fraction_covers (chars : List Char) : (fraction chars).1 ++ (fraction chars).2 = chars := by
  unfold fraction
  split
  · split
    · rfl
    · simp [List.takeWhile_append_dropWhile]
  · rfl

theorem exponent_covers (chars : List Char) : (exponent chars).1 ++ (exponent chars).2 = chars := by
  unfold exponent
  split
  · rename_i e rest
    dsimp only
    split
    · split
      · rfl
      · rw [List.cons_append, List.cons_append, List.append_assoc, List.takeWhile_append_dropWhile]
        cases rest with
        | nil => rfl
        | cons d rest =>
            by_cases sign : (d == '+' || d == '-') = true <;> simp [sign]
    · rfl
  · rfl

/-- A number starts with a digit or with a point that a digit follows. -/
def startsNumber (c : Char) (rest : List Char) : Bool :=
  c.isDigit || (c = '.' && startsWith Char.isDigit rest)

theorem number_covers {c : Char} {rest : List Char} (starts : startsNumber c rest) :
    (number (c :: rest)).Covers (c :: rest) := by
  generalize read : c :: rest = chars at *
  have point := fraction_covers (chars.dropWhile Char.isDigit)
  have power := exponent_covers (fraction (chars.dropWhile Char.isDigit)).2
  have whole : chars.takeWhile Char.isDigit ++ (fraction (chars.dropWhile Char.isDigit)).1 ++
      (exponent (fraction (chars.dropWhile Char.isDigit)).2).1 ++
      (exponent (fraction (chars.dropWhile Char.isDigit)).2).2 = chars := by
    rw [List.append_assoc, power, List.append_assoc, point, List.takeWhile_append_dropWhile]
  have nonempty :
      chars.takeWhile Char.isDigit ++ (fraction (chars.dropWhile Char.isDigit)).1 ≠ [] := by
    subst read
    by_cases digit : c.isDigit
    · simp [digit]
    · simp only [startsNumber, digit, Bool.false_or, Bool.and_eq_true, decide_eq_true_eq] at starts
      obtain ⟨rfl, follows⟩ := starts
      have single : rest.head? ≠ some '.' := by
        cases rest with
        | nil => simp
        | cons d rest =>
            rintro same
            simp only [List.head?_cons, Option.some.injEq] at same
            subst same
            simp [startsWith] at follows
      simp [fraction, single]
  unfold number
  dsimp only
  split
  · refine ⟨?_, by simp_all, by simp⟩
    rw [List.append_assoc, List.takeWhile_append_dropWhile]
    exact whole
  · exact ⟨whole, by simp_all, by simp⟩

theorem namedParameter_covers (rest : List Char) :
    (namedParameter rest).Covers (':' :: rest) :=
  ⟨by simp [namedParameter, List.takeWhile_append_dropWhile], by simp [namedParameter],
    by simp [namedParameter]⟩

theorem spellings_tokens : ∀ entry ∈ spellings, entry.1 ≠ [] ∧ entry.2 ≠ .finish := by decide

theorem punctuation_covers (c : Char) (rest : List Char) :
    (punctuation c rest).Covers (c :: rest) := by
  unfold punctuation
  split
  · rename_i spelling lexeme found
    have begins : spelling.isPrefixOf (c :: rest) := by simpa using List.find?_some found
    obtain ⟨left, same⟩ := List.isPrefixOf_iff_prefix.mp begins
    have entry := spellings_tokens _ (List.mem_of_find?_eq_some found)
    exact ⟨by simp [← same], entry.1, entry.2⟩
  · exact ⟨by simp, by simp, by simp⟩

theorem scan_covers (d : Dialect) (c : Char) (rest : List Char) :
    (scan d c rest).Covers (c :: rest) := by
  have quoted : startsWith (· == '\x27') rest → rest = '\x27' :: rest.tail := by
    intro follows
    cases rest with
    | nil => simp [startsWith] at follows
    | cons next rest =>
        have same : next = '\x27' := by simpa [startsWith] using follows
        rw [same, List.tail_cons]
  fun_cases scan d c rest with
  | case1 => exact ⟨by simp, by simp, by simp⟩
  | case2 _ mark =>
      subst mark
      exact string_covers rest
  | case3 _ _ mark =>
      simp only [Bool.and_eq_true] at mark
      have covers := escapedString_covers c rest.tail
      rwa [← quoted mark.1.2] at covers
  | case4 _ _ _ mark =>
      simp only [Bool.and_eq_true] at mark
      have covers := bitsBody_covers true [] (List.cons_ne_nil '\x27' [c]) rest.tail
      simpa [← quoted mark.2] using covers
  | case5 _ _ _ _ mark =>
      simp only [Bool.and_eq_true] at mark
      have covers := bitsBody_covers false [] (List.cons_ne_nil '\x27' [c]) rest.tail
      simpa [← quoted mark.2] using covers
  | case6 _ _ _ _ _ starts => exact number_covers starts
  | case7 _ _ _ _ _ _ starts =>
      apply word_covers
      simp only [isWordStart, Bool.or_eq_true] at starts
      rcases starts with letter | underscore
      · simp [isWordPart, isNamePart, Text.isLetterOrNumeral, letter]
      · simp [isWordPart, isNamePart, underscore]
  | case8 => exact quotedName_covers c rest
  | case9 _ _ _ _ _ _ _ _ mark =>
      simp only [Bool.and_eq_true, decide_eq_true_eq] at mark
      rw [mark.1]
      exact dollar_covers rest
  | case10 _ _ _ _ _ _ _ _ _ mark =>
      simp only [Bool.and_eq_true, decide_eq_true_eq] at mark
      rw [mark.1.1]
      exact namedParameter_covers rest
  | case11 => exact punctuation_covers c rest

end Lexer
end SqlAudit
