import Mathlib.Data.List.Forall2
import SqlAudit.Proofs.Token.Insertion
import SqlAudit.Proofs.Token.Steady
/-!
Texts that differ in the case of letters within unquoted names and keywords. They have the same
tokens at the same places, but for the spelling of names.
-/
namespace SqlAudit

open Text (CaseBlind raised)

/-- Lexemes that differ in the case of letters in an unquoted name at most. -/
inductive Lexeme.Recased : Lexeme → Lexeme → Prop
  | same {lexeme : Lexeme} : Recased lexeme lexeme
  | word {first second : String} (same : Text.capitals first = Text.capitals second) :
      Recased (.word first) (.word second)

structure Token.Recased (first second : Token) : Prop where
  lexeme : first.lexeme.Recased second.lexeme
  span : first.span = second.span

namespace Lexer

/-- Characters that differ in the case of letters at most, and only within those of the tokens that
are unquoted names or keywords; `offset` is where they stand. -/
structure Recased (tokens : List Token) (offset : Nat) (chars chars' : List Char) : Prop where
  letters : raised chars = raised chars'
  within : ∀ n < chars.length, chars[n]? ≠ chars'[n]? →
    ∃ token ∈ tokens, token.lexeme.capitals?.isSome ∧
      token.span.start ≤ offset + size (chars.take n) ∧
      offset + size (chars.take n) < token.span.stop

instance (tokens : List Token) (offset : Nat) (chars chars' : List Char) :
    Decidable (Recased tokens offset chars chars') :=
  decidable_of_iff (raised chars = raised chars' ∧ ∀ n < chars.length, chars[n]? ≠ chars'[n]? →
    ∃ token ∈ tokens, token.lexeme.capitals?.isSome ∧
      token.span.start ≤ offset + size (chars.take n) ∧
      offset + size (chars.take n) < token.span.stop)
    ⟨fun both => ⟨both.1, both.2⟩, fun recased => ⟨recased.letters, recased.within⟩⟩

variable {d : Dialect} {tokens : List Token} {offset : Nat} {token : Token}
  {front more chars chars' gap rest rest' : List Char} {c c' : Char}

theorem size_raised (same : raised chars = raised chars') : size chars = size chars' := by
  have width : CaseBlind Char.utf8Size := Text.caseBlind_of_ascii (by decide)
  induction chars generalizing chars' with
  | nil => rw [raised_nil same]
  | cons c rest ih =>
      obtain ⟨c', rest', rfl, first, others⟩ := raised_cons same
      rw [size, size, ih others, blind_eq width first]

theorem size_take_lt {n : Nat} (short : n < chars.length) : size (chars.take n) < size chars := by
  have whole := size_append (chars.take n) (chars.drop n)
  have some := size_pos (List.ne_nil_of_length_pos (l := chars.drop n) (by simp; omega))
  rw [List.take_append_drop] at whole
  omega

/-- The characters come apart where the first ones do, and what follows is recased as it was. -/
theorem Recased.split (recased : Recased tokens offset (front ++ more) chars') :
    ∃ front' more', chars' = front' ++ more' ∧ Recased tokens offset front front' ∧
      Recased tokens (offset + size front) more more' := by
  obtain ⟨letters, within⟩ := recased
  rw [raised_append] at letters
  obtain ⟨front', more', rfl, first, second⟩ := List.map_eq_append_iff.mp letters.symm
  have length : front.length = front'.length := length_raised first.symm
  refine ⟨front', more', rfl, ⟨first.symm, fun n inside differ => ?_⟩, second.symm,
    fun n inside differ => ?_⟩
  · have here := within n (by rw [List.length_append]; omega) (by
      rwa [List.getElem?_append_left inside, List.getElem?_append_left (length ▸ inside)])
    rwa [List.take_append_of_le_length inside.le] at here
  · have here := within (front.length + n) (by rw [List.length_append]; omega) (by
      rw [List.getElem?_append_right (by omega), List.getElem?_append_right (by omega)]
      simpa [← length] using differ)
    rwa [List.take_length_add_append, size_append, ← Nat.add_assoc] at here

/-- Characters before all names and keywords are as they were. -/
theorem Recased.fixed (recased : Recased tokens offset chars chars')
    (before : ∀ token ∈ tokens, token.lexeme.capitals?.isSome →
      offset + size chars ≤ token.span.start) : chars' = chars := by
  apply List.ext_getElem?
  intro n
  by_contra differ
  have inside : n < chars.length := by
    by_contra beyond
    have length := length_raised recased.letters
    refine differ ?_
    rw [List.getElem?_eq_none (by omega), List.getElem?_eq_none (by omega)]
  obtain ⟨token, member, unquoted, lower, -⟩ := recased.within n inside (Ne.symm differ)
  have short := size_take_lt inside
  have later := before token member unquoted
  omega

theorem Recased.after (recased : Recased (token :: tokens) offset chars chars')
    (passed : token.span.stop ≤ offset) : Recased tokens offset chars chars' := by
  refine ⟨recased.letters, fun n inside differ => ?_⟩
  obtain ⟨inner, member, unquoted, lower, upper⟩ := recased.within n inside differ
  rcases List.mem_cons.mp member with rfl | later
  · omega
  · exact ⟨inner, later, unquoted, lower, upper⟩

theorem Spacing.recased (spacing : Spacing gap rest) (same : raised rest = raised rest') :
    Spacing gap rest' := by
  induction spacing with
  | none => exact .none
  | blank white more ih => exact .blank white (ih same)
  | @line body gap after within ends more ih =>
      refine .line within ?_ (ih same)
      intro c first
      have breaks : CaseBlind fun c => c = '\n' :=
        Text.caseBlind_of_ascii (by decide +kernel)
      cases gap with
      | cons d others =>
          rw [List.cons_append] at ends first
          exact ends c first
      | nil =>
          rw [List.nil_append] at ends first
          obtain ⟨text, rfl⟩ := List.head?_eq_some_iff.mp first
          obtain ⟨d, text', rfl, one, -⟩ := raised_cons same.symm
          exact (blind_eq breaks one).mpr (ends d rfl)
  | block enclosed more ih => exact .block enclosed (ih same)

/-- Where a token starts there is no blank and no comment that ends. -/
theorem layoutItem?_none_iff (whole : (c = '/' && startsWith (· == '*') rest) = false) :
    layoutItem? (c :: rest) = none ↔
      (Text.isBlank c || (c = '-' && startsWith (· == '-') rest)) = false := by
  generalize text : c :: rest = chars
  fun_cases layoutItem? chars with
  | case1 | case2 =>
      cases text
      simp_all [startsWith]
  | case3 | case4 =>
      obtain ⟨rfl, rfl⟩ := List.cons.inj text
      cases rest <;> simp_all [startsWith]
  | case5 => cases text

theorem layoutItem?_recased (whole : (c = '/' && startsWith (· == '*') rest) = false)
    (none : layoutItem? (c :: rest) = none) (first : c.toUpper = c'.toUpper)
    (same : raised rest = raised rest') : layoutItem? (c' :: rest') = .none := by
  have star : CaseBlind (· == '*') := Text.caseBlind_of_ascii (by decide)
  have dash : CaseBlind (· == '-') := Text.caseBlind_of_ascii (by decide)
  have slash' : CaseBlind fun c => decide (c = '/') := Text.caseBlind_of_ascii (by decide)
  have dash' : CaseBlind fun c => decide (c = '-') := Text.caseBlind_of_ascii (by decide)
  rw [layoutItem?_none_iff whole, blind_eq Text.isBlank_caseBlind first, blind_eq dash' first,
    startsWith_raised dash same] at none
  rw [blind_eq slash' first, startsWith_raised star same] at whole
  exact (layoutItem?_none_iff whole).mpr none

theorem capitals_ofList (same : raised chars = raised chars') :
    Text.capitals (String.ofList chars) = Text.capitals (String.ofList chars') := by
  simp only [Text.capitals, String.toList_ofList]
  exact congrArg String.ofList same

theorem ofText?_capitals {first second : String}
    (same : Text.capitals first = Text.capitals second) :
    Keyword.ofText? first = Keyword.ofText? second := by
  rw [Keyword.ofText?, Keyword.ofText?, same]

/-- A name is the same token in every case. -/
theorem word_recased (same : raised chars = raised chars') :
    (word chars).lexeme.Recased (word chars').lexeme ∧
      raised (word chars).source = raised (word chars').source ∧
      raised (word chars).rest = raised (word chars').rest := by
  have taken : raised (chars.takeWhile isWordPart) = raised (chars'.takeWhile isWordPart) := by
    rw [← Text.takeWhile_raised isWordPart_caseBlind, same,
      Text.takeWhile_raised isWordPart_caseBlind]
  have left : raised (chars.dropWhile isWordPart) = raised (chars'.dropWhile isWordPart) := by
    rw [← Text.dropWhile_raised isWordPart_caseBlind, same,
      Text.dropWhile_raised isWordPart_caseBlind]
  refine ⟨?_, taken, left⟩
  have spelled := capitals_ofList taken
  rw [word, word, ofText?_capitals spelled]
  cases Keyword.ofText? (String.ofList (chars'.takeWhile isWordPart)) with
  | none => exact .word spelled
  | some k => exact .same

theorem string_capitals? (rest : List Char) : (string rest).lexeme.capitals? = none := by
  unfold string
  split <;> rfl

theorem escapedString_capitals? (mark : Char) (rest : List Char) :
    (escapedString mark rest).lexeme.capitals? = none := by
  unfold escapedString
  split <;> rfl

theorem bitsBody_capitals? (hex : Bool) (source digits chars : List Char) :
    (bitsBody hex source digits chars).lexeme.capitals? = none := by
  fun_induction bitsBody hex source digits chars with
  | case1 | case2 | case5 => rfl
  | case3 _ _ _ _ _ _ ih => exact ih
  | case4 _ _ _ _ _ _ _ ih => exact ih

theorem number_capitals? (chars : List Char) : (number chars).lexeme.capitals? = none := by
  obtain ⟨point, more, fractional⟩ :
      ∃ point more, fraction (chars.dropWhile Char.isDigit) = (point, more) := ⟨_, _, rfl⟩
  obtain ⟨power, rest, exponential⟩ : ∃ power rest, exponent more = (power, rest) := ⟨_, _, rfl⟩
  rw [number_eq fractional exponential, numberOf]
  split <;> rfl

theorem quotedName_capitals? (quote : Char) (rest : List Char) :
    (quotedName quote rest).lexeme.capitals? = none := by
  unfold quotedName
  split <;> rfl

theorem dollar_capitals? (rest : List Char) : (dollar rest).lexeme.capitals? = none := by
  fun_cases dollar rest <;> rfl

theorem spellings_capitals? : ∀ entry ∈ spellings, entry.2.capitals? = none := by
  decide

theorem punctuation_capitals? (c : Char) (rest : List Char) :
    (punctuation c rest).lexeme.capitals? = none := by
  unfold punctuation
  split
  · rename_i spelling lexeme found
    exact spellings_capitals? (spelling, lexeme) (List.mem_of_find?_eq_some found)
  · rfl

/-- Unquoted names and keywords are read as words, and so they are in every case. -/
theorem scan_unquoted (unquoted : (scan d c rest).lexeme.capitals?.isSome)
    (first : c.toUpper = c'.toUpper) (same : raised rest = raised rest') :
    scan d c' rest' = word (c' :: rest') := by
  rw [scan_recased d first same]
  revert unquoted
  fun_cases scan d c rest with
  | case7 h1 h2 h3 h4 h5 h6 starts =>
      intro _
      rw [if_neg h1, if_neg h2, if_neg h3, if_neg h4, if_neg h5, if_neg h6, if_pos starts]
  | case1 => simp [Lexeme.capitals?]
  | case2 => simp [string_capitals?]
  | case3 => simp [escapedString_capitals?]
  | case4 | case5 => simp [bitsBody_capitals?]
  | case6 => simp [number_capitals?]
  | case8 => simp [quotedName_capitals?]
  | case9 => simp [dollar_capitals?]
  | case10 => simp [namedParameter, Lexeme.capitals?]
  | case11 => simp [punctuation_capitals?]

/-- A token whose characters stay is the same token. -/
theorem scan_unchanged {left : List Char} (begins : (scan d c rest).source ++ left = c' :: rest')
    (same : raised (scan d c rest).rest = raised left) :
    scan d c' rest' = { scan d c rest with rest := left } := by
  obtain ⟨taken, source, again⟩ := scan_steady d c rest
  rw [source, List.singleton_append, List.cons_append] at begins
  obtain ⟨rfl, rfl⟩ := List.cons.inj begins
  exact again left same

theorem scan_comment (opens : (c = '/' && startsWith (· == '*') rest) = true) :
    scan d c rest = ⟨.invalid "Unterminated block comment", c :: rest, []⟩ := by
  rw [scan, if_pos opens]

/-- The token at the start of recased characters, and what is left behind it. -/
theorem Recased.scan (recased : Recased (token :: tokens) offset (c :: rest) chars')
    (here : token = ⟨(scan d c rest).lexeme, ⟨offset, offset + size (scan d c rest).source⟩⟩)
    (later : ∀ token ∈ tokens, offset + size (scan d c rest).source ≤ token.span.start)
    (starts : layoutItem? (c :: rest) = none) :
    ∃ c' rest', chars' = c' :: rest' ∧ layoutItem? (c' :: rest') = none ∧
      (scan d c rest).lexeme.Recased (scan d c' rest').lexeme ∧
      size (scan d c rest).source = size (scan d c' rest').source ∧
      Recased tokens (offset + size (scan d c rest).source) (scan d c rest).rest
        (scan d c' rest').rest := by
  obtain ⟨c', rest', rfl, first, same⟩ := raised_cons recased.letters
  have parts := recased
  rw [← (scan_covers d c rest).whole] at parts
  obtain ⟨source', left', whole, front, back⟩ := parts.split
  replace back := back.after (by rw [here])
  have fixed (plain : (Lexer.scan d c rest).lexeme.capitals? = none) :
      source' = (Lexer.scan d c rest).source := by
    refine front.fixed fun other member named => ?_
    rcases List.mem_cons.mp member with rfl | behind
    · rw [here, plain] at named
      cases named
    · exact later other behind
  have tokenStarts : layoutItem? (c' :: rest') = none := by
    cases block : (c = '/' && startsWith (· == '*') rest : Bool) with
    | false => exact layoutItem?_recased block starts first same
    | true =>
        have unterminated := scan_comment (d := d) block
        rw [fixed (by rw [unterminated]; rfl)] at whole
        rw [unterminated] at whole back
        rw [whole, raised_nil back.letters, List.append_nil]
        exact starts
  refine ⟨c', rest', rfl, tokenStarts, ?_⟩
  cases unquoted : (Lexer.scan d c rest).lexeme.capitals? with
  | none =>
      rw [fixed unquoted] at whole
      rw [scan_unchanged whole.symm back.letters]
      exact ⟨.same, rfl, back⟩
  | some capitals =>
      have named : (Lexer.scan d c rest).lexeme.capitals?.isSome := by rw [unquoted]; rfl
      have read := scan_unquoted named (Eq.refl c.toUpper) rfl
      have read' := scan_unquoted named first same
      obtain ⟨lexeme, source, -⟩ := word_recased recased.letters
      rw [← read, ← read'] at lexeme source
      have covers' := (scan_covers d c' rest').whole
      rw [whole] at covers'
      have width : (Lexer.scan d c' rest').source.length = source'.length := by
        rw [← length_raised source, length_raised front.letters]
      have left := (List.append_inj covers' width).2
      refine ⟨lexeme, size_raised source, ?_⟩
      rwa [left]

/-- The tokens of characters in which letters changed their case within names and keywords. -/
theorem Lexes.recased (lexes : Lexes d offset chars tokens)
    (recased : Recased tokens offset chars chars') :
    ∃ tokens', Lexes d offset chars' tokens' ∧ List.Forall₂ Token.Recased tokens tokens' := by
  induction lexes generalizing chars' with
  | @finish offset gap layout =>
      have same : chars' = gap := recased.fixed (by simp [Lexeme.capitals?])
      rw [same]
      exact ⟨_, .finish layout, .cons ⟨.same, rfl⟩ .nil⟩
  | @token offset c gap rest tokens layout more ih =>
      have later := more.inOrder.after
      obtain ⟨gap', text, rfl, front, back⟩ := recased.split
      have fixed : gap' = gap := by
        refine front.fixed fun other member named => ?_
        rcases List.mem_cons.mp member with rfl | behind
        · exact Nat.le_refl _
        · exact (Nat.le_add_right _ _).trans (later other behind)
      obtain ⟨c', rest', rfl, starts, lexeme, width, left⟩ := back.scan rfl later layout.last
      obtain ⟨tokens', lexed, alike⟩ := ih left
      rw [width] at lexed
      have whole : Lexes d (offset + size gap) ([] ++ c' :: rest') _ := .token (.done starts) lexed
      rw [fixed]
      refine ⟨_, (layout.spacing.recased back.letters).lexes whole, .cons ⟨lexeme, ?_⟩ alike⟩
      rw [size, Nat.add_zero, width]

end Lexer

/-- The text `b` is `a` with the case of ASCII letters changed, within unquoted names and keywords
only. -/
def Recased (d : Dialect) (a b : String) : Prop :=
  Lexer.Recased (tokenize d a) 0 a.toList b.toList

instance (d : Dialect) (a b : String) : Decidable (Recased d a b) :=
  inferInstanceAs (Decidable (Lexer.Recased ..))

/-- A text in which letters of names and keywords change their case has the same tokens at the same
places, but for the spelling of names. -/
theorem tokenize_recased {d : Dialect} {a b : String} (recased : Recased d a b) :
    List.Forall₂ Token.Recased (tokenize d a) (tokenize d b) := by
  obtain ⟨tokens, lexes, alike⟩ := (tokenize_lexes d a).recased recased
  rwa [(tokenize_lexes d b).unique lexes]

end SqlAudit
