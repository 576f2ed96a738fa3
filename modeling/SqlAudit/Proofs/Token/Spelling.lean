import SqlAudit.Proofs.Token.Cover
/-!
What tokens say of the characters they were written with: numbers, names, parameters and operators
hold them as they stand, keywords but for the case of their letters, and a symbol has one spelling,
or two if it is the one for what is not equal.
-/
namespace SqlAudit

/-- The lexeme tells the characters `source`. Strings and quoted names stand for others, and for
what is wrong with a piece of text there are no characters. -/
def Lexeme.Spells : Lexeme → List Char → Prop
  | .number text, source => text.toList = source
  | .word text, source => text.toList = source
  | .parameter text, source => text.toList = source
  | .operator text, source => text.toList = source
  | .keyword k, source => k.text = Text.capitals (String.ofList source)
  | .symbol .notEqual, source => source = ['<', '>'] ∨ source = ['!', '=']
  | .symbol s, source => s.text.toList = source
  | _, _ => True

namespace Lexer

theorem word_spells (chars : List Char) : (word chars).lexeme.Spells (word chars).source := by
  rw [word]
  cases known : Keyword.ofText? (String.ofList (chars.takeWhile isWordPart)) with
  | none => exact String.toList_ofList
  | some k =>
      have same := List.find?_some known
      exact beq_iff_eq.mp same

theorem spellings_spell : ∀ entry ∈ spellings, entry.2.Spells entry.1 := by
  simp [spellings, Lexeme.Spells, Symbol.text]

theorem punctuation_spells (c : Char) (rest : List Char) :
    (punctuation c rest).lexeme.Spells (punctuation c rest).source := by
  unfold punctuation
  split
  · rename_i spelling lexeme found
    exact spellings_spell (spelling, lexeme) (List.mem_of_find?_eq_some found)
  · trivial

theorem number_spells (chars : List Char) :
    (number chars).lexeme.Spells (number chars).source := by
  unfold number
  dsimp only
  split
  · trivial
  · exact String.toList_ofList

theorem dollar_spells (rest : List Char) : (dollar rest).lexeme.Spells (dollar rest).source := by
  unfold dollar
  dsimp only
  split
  · exact String.toList_ofList
  · split
    · split <;> trivial
    · trivial

theorem bitsBody_spells (hex : Bool) (source digits chars : List Char) :
    (bitsBody hex source digits chars).lexeme.Spells
      (bitsBody hex source digits chars).source := by
  fun_induction bitsBody hex source digits chars with
  | case1 | case2 | case5 => trivial
  | case3 | case4 => assumption

theorem quotedName_spells (quote : Char) (rest : List Char) :
    (quotedName quote rest).lexeme.Spells (quotedName quote rest).source := by
  unfold quotedName
  split <;> trivial

theorem string_spells (rest : List Char) : (string rest).lexeme.Spells (string rest).source := by
  unfold string
  split <;> trivial

theorem escapedString_spells (mark : Char) (rest : List Char) :
    (escapedString mark rest).lexeme.Spells (escapedString mark rest).source := by
  unfold escapedString
  split <;> trivial

theorem scan_spells (d : Dialect) (c : Char) (rest : List Char) :
    (scan d c rest).lexeme.Spells (scan d c rest).source := by
  fun_cases scan d c rest with
  | case1 => trivial
  | case2 => exact string_spells rest
  | case3 => exact escapedString_spells c rest.tail
  | case4 => exact bitsBody_spells true _ _ _
  | case5 => exact bitsBody_spells false _ _ _
  | case6 => exact number_spells (c :: rest)
  | case7 => apply word_spells
  | case8 => exact quotedName_spells c rest
  | case9 => exact dollar_spells rest
  | case10 => exact String.toList_ofList
  | case11 => exact punctuation_spells c rest

theorem punctuation_operator {c : Char} {rest : List Char} {o : String}
    (operator : (punctuation c rest).lexeme = .operator o) :
    ∃ spelling, (spelling, .operator o) ∈ spellings := by
  unfold punctuation at operator
  split at operator
  · rename_i spelling lexeme found
    cases operator
    exact ⟨spelling, List.mem_of_find?_eq_some found⟩
  · cases operator

theorem bitsBody_operator (hex : Bool) (source digits chars : List Char) (o : String) :
    (bitsBody hex source digits chars).lexeme ≠ .operator o := by
  fun_induction bitsBody hex source digits chars with
  | case1 | case2 | case5 =>
      intro operator
      cases operator
  | case3 | case4 => assumption

/-- Only what has a fixed spelling is read as an operator. -/
theorem scan_operator {d : Dialect} {c : Char} {rest : List Char} {o : String} :
    (scan d c rest).lexeme = .operator o → ∃ spelling, (spelling, .operator o) ∈ spellings := by
  fun_cases scan d c rest with
  | case1 =>
      intro operator
      cases operator
  | case2 =>
      unfold string
      split <;> exact fun operator => by cases operator
  | case3 =>
      unfold escapedString
      split <;> exact fun operator => by cases operator
  | case4 | case5 => exact fun operator => absurd operator (bitsBody_operator _ _ _ _ _)
  | case6 =>
      unfold number
      dsimp only
      split <;> exact fun operator => by cases operator
  | case7 =>
      unfold word
      dsimp only
      split <;> exact fun operator => by cases operator
  | case8 =>
      unfold quotedName
      split <;> exact fun operator => by cases operator
  | case9 =>
      unfold dollar
      dsimp only
      split
      · exact fun operator => by cases operator
      · split
        · split <;> exact fun operator => by cases operator
        · exact fun operator => by cases operator
  | case10 =>
      intro operator
      cases operator
  | case11 => exact punctuation_operator

end Lexer
end SqlAudit
