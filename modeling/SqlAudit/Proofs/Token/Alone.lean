import SqlAudit.Proofs.Token.Insertion
import SqlAudit.Proofs.Token.Lossless
import SqlAudit.Proofs.Token.Steady
/-!
A token does not depend on where it stands. What a scanner makes of the characters it takes, it makes
of them also where the text ends behind them; so a token cut out of its text is read as that token and
nothing else.
-/
namespace SqlAudit

namespace Lexer

variable {p : Char → Bool} {chars left left' taken rest : List Char} {c : Char}

theorem startsWith_longer (begins : taken <+: rest) (starts : startsWith p taken = true) :
    startsWith p rest = true := by
  obtain ⟨more, rfl⟩ := begins
  cases taken with
  | nil => cases starts
  | cons c taken => exact starts

theorem not_startsWith_shorter (begins : taken <+: rest) (other : startsWith p rest = false) :
    startsWith p taken = false := by
  rw [← Bool.not_eq_true] at other ⊢
  exact fun starts => other (startsWith_longer begins starts)

theorem startsWith_dropWhile (p : Char → Bool) (chars : List Char) :
    startsWith p (chars.dropWhile p) = false := by
  induction chars with
  | nil => rfl
  | cons c chars ih =>
      cases first : p c with
      | true => rwa [List.dropWhile_cons_of_pos first]
      | false =>
          rw [List.dropWhile_cons_of_neg (Bool.eq_false_iff.mp first)]
          exact first

/-- A run of characters ends where the text does, or where another character follows. -/
theorem run_ends {run : List Char} (all : ∀ c ∈ run, p c = true) (stops : startsWith p left = false) :
    (run ++ left).takeWhile p = run ∧ (run ++ left).dropWhile p = left := by
  rw [List.takeWhile_append_of_pos all, List.dropWhile_append_of_pos all]
  cases left with
  | nil => simp
  | cons c left =>
      have first : p c = false := stops
      simp [first]

theorem takeWhile_ends (begins : left <+: chars.dropWhile p) :
    (chars.takeWhile p ++ left).takeWhile p = chars.takeWhile p ∧
      (chars.takeWhile p ++ left).dropWhile p = left :=
  run_ends (List.all_eq_true.mp List.all_takeWhile)
    (not_startsWith_shorter begins (startsWith_dropWhile p chars))

theorem takeWhile_alone (p : Char → Bool) (chars : List Char) :
    (chars.takeWhile p).takeWhile p = chars.takeWhile p ∧
      (chars.takeWhile p).dropWhile p = [] := by
  have ends := @takeWhile_ends p chars [] List.nil_prefix
  rwa [List.append_nil] at ends

/-- What a scanner reads here after `front`, it reads as well where the text ends behind it. -/
def Alone (read : List Char → Scan) (front chars : List Char) : Prop :=
  ∃ taken, (read chars).source = front ++ taken ∧ read taken = { read chars with rest := [] }

theorem alone_of_read {read : List Char → Scan} {front : List Char} {lexeme : Lexeme}
    (here : read chars = ⟨lexeme, front ++ taken, left⟩)
    (again : read taken = ⟨lexeme, front ++ taken, []⟩) : Alone read front chars := by
  apply Exists.intro taken
  rw [here]
  exact ⟨rfl, again⟩

theorem alone_whole {read : List Char → Scan} {front : List Char} {lexeme : Lexeme}
    (here : read chars = ⟨lexeme, front ++ chars, []⟩) : Alone read front chars :=
  alone_of_read here here

theorem quotedBody_alone {quote : Char} {value : List Char}
    (read : quotedBody quote chars = some (value, taken, left)) :
    quotedBody quote taken = some (value, taken, []) := by
  fun_induction quotedBody quote chars generalizing value taken with
  | case1 => cases read
  | case2 =>
      cases read
      simp [quotedBody]
  | case3 more ih =>
      obtain ⟨⟨inner, passed, left⟩, found, shape⟩ := Option.map_eq_some_iff.mp read
      cases shape
      simp [quotedBody, ih found]
  | case4 =>
      cases read
      simp [quotedBody]
  | case5 c text other ih =>
      obtain ⟨⟨inner, passed, left⟩, found, shape⟩ := Option.map_eq_some_iff.mp read
      cases shape
      rw [quotedBody.eq_def]
      simp [other, ih found]

theorem escapedBody_alone {value : List Char}
    (read : escapedBody chars = some (value, taken, left)) :
    escapedBody taken = some (value, taken, []) := by
  fun_induction escapedBody chars generalizing value taken with
  | case1 => cases read
  | case2 =>
      cases read
      simp [escapedBody]
  | case3 => cases read
  | case4 text ih =>
      obtain ⟨⟨inner, passed, left⟩, found, shape⟩ := Option.map_eq_some_iff.mp read
      cases shape
      simp [escapedBody, ih found]
  | case5 =>
      cases read
      simp [escapedBody]
  | case6 d text notQuote ih =>
      obtain ⟨⟨inner, passed, left⟩, found, shape⟩ := Option.map_eq_some_iff.mp read
      cases shape
      simp [escapedBody, ih found]
  | case7 c d text notQuote notEscape ih =>
      obtain ⟨⟨inner, passed, left⟩, found, shape⟩ := Option.map_eq_some_iff.mp read
      cases shape
      have later := ih found
      cases passed with
      | nil => cases later
      | cons e passed => simp [escapedBody, notQuote, notEscape, later]

theorem bitsBody_alone (hex : Bool) (source digits chars : List Char) :
    Alone (bitsBody hex source digits) source.reverse chars := by
  fun_induction bitsBody hex source digits chars with
  | case1 source digits => exact alone_whole (by rw [bitsBody, List.append_nil])
  | case2 source digits rest =>
      apply Exists.intro ['\x27']
      simp [bitsBody]
  | case3 source digits c text notEnd digit ih =>
      obtain ⟨taken, here, again⟩ := ih
      rw [Alone, bitsBody, if_neg notEnd, if_pos digit]
      apply Exists.intro (c :: taken)
      rw [bitsBody, if_neg notEnd, if_pos digit, here]
      simp [again]
  | case4 source digits c text notEnd notDigit blank ih =>
      obtain ⟨taken, here, again⟩ := ih
      rw [Alone, bitsBody, if_neg notEnd, if_neg notDigit, if_pos blank]
      apply Exists.intro (c :: taken)
      rw [bitsBody, if_neg notEnd, if_neg notDigit, if_pos blank, here]
      simp [again]
  | case5 source digits c text notEnd notDigit notBlank skipped left =>
      have short : left.take 1 <+: left := List.take_prefix 1 left
      obtain ⟨skips, leaves⟩ := takeWhile_ends short
      rw [Alone, bitsBody, if_neg notEnd, if_neg notDigit, if_neg notBlank]
      apply Exists.intro (c :: (skipped ++ left.take 1))
      rw [bitsBody, if_neg notEnd, if_neg notDigit, if_neg notBlank]
      simp only [skipped, left] at skips leaves ⊢
      rw [skips, leaves, List.take_take]
      simp

theorem string_alone (rest : List Char) : Alone string ['\x27'] rest := by
  cases read : quotedBody '\x27' rest with
  | none => exact alone_whole (by rw [string, read]; rfl)
  | some found =>
      obtain ⟨value, taken, left⟩ := found
      apply alone_of_read
      · rw [string, read]
        rfl
      · rw [string, quotedBody_alone read]
        rfl

theorem escapedString_alone (mark : Char) (rest : List Char) :
    Alone (escapedString mark) [mark, '\x27'] rest := by
  cases read : escapedBody rest with
  | none => exact alone_whole (by rw [escapedString, read]; rfl)
  | some found =>
      obtain ⟨value, taken, left⟩ := found
      apply alone_of_read
      · rw [escapedString, read]
        rfl
      · rw [escapedString, escapedBody_alone read]
        rfl

theorem quotedName_alone (quote : Char) (rest : List Char) :
    Alone (quotedName quote) [quote] rest := by
  cases read : quotedBody quote rest with
  | none => exact alone_whole (by rw [quotedName, read]; rfl)
  | some found =>
      obtain ⟨value, taken, left⟩ := found
      have again := quotedBody_alone read
      apply Exists.intro taken
      rw [quotedName, quotedName, read, again]
      cases value with
      | nil => exact ⟨rfl, rfl⟩
      | cons c value => exact ⟨rfl, rfl⟩

theorem word_alone (chars : List Char) : Alone word [] chars := by
  obtain ⟨takes, leaves⟩ := takeWhile_alone isWordPart chars
  refine alone_of_read rfl ?_
  rw [word, takes, leaves]
  rfl

theorem namedParameter_alone (rest : List Char) : Alone namedParameter [':'] rest := by
  obtain ⟨takes, leaves⟩ := takeWhile_alone isNamePart rest
  refine alone_of_read rfl ?_
  rw [namedParameter, takes, leaves]
  rfl

/-- A fraction is read again before a part of what follows it, unless that part starts with a point
of its own. -/
theorem fraction_alone {point : List Char} (read : fraction chars = (point, left))
    (begins : left' <+: left) (pointless : startsWith (· == '.') left' = false) :
    fraction (point ++ left') = (point, left') := by
  have none (chars : List Char) (other : startsWith (· == '.') chars = false) :
      fraction chars = ([], chars) := by
    unfold fraction
    split
    · cases other
    · rfl
  unfold fraction at read
  split at read
  · rename_i rest
    split at read
    · cases read
      exact none left' pointless
    · rename_i single
      cases read
      obtain ⟨takes, leaves⟩ := takeWhile_ends begins
      have single' : ¬((rest.takeWhile Char.isDigit ++ left').head? == some '.') = true := by
        rw [head_startsWith] at single ⊢
        cases rest with
        | nil => simpa using pointless
        | cons c rest => cases digit : c.isDigit <;> simp_all [startsWith]
      rw [List.cons_append, fraction, if_neg single', takes, leaves]
  · cases read
    exact none left' pointless

theorem isNamePart_of_start (starts : isWordStart c = true) : isNamePart c = true := by
  rw [isWordStart, Bool.or_eq_true] at starts
  rw [isNamePart, Text.isLetterOrNumeral, Bool.or_eq_true, Bool.or_eq_true]
  exact starts.imp_left .inl

theorem signOf_shorter (begins : taken <+: rest) (some : taken ≠ []) :
    signOf taken = signOf rest := by
  obtain ⟨more, rfl⟩ := begins
  cases taken with
  | nil => exact absurd rfl some
  | cons c taken => rfl

theorem exponent_alone {power : List Char} (read : exponent chars = (power, left))
    (begins : left' <+: left) : exponent (power ++ left') = (power, left') := by
  cases chars with
  | nil =>
      cases read
      rw [List.prefix_nil.mp begins]
      rfl
  | cons e rest =>
      rw [exponent_cons] at read
      dsimp only at read
      split at read
      · rename_i marked
        split at read
        · rename_i none
          cases read
          rcases List.prefix_cons_iff.mp begins with rfl | ⟨rest', rfl, begins'⟩
          · rfl
          · have none' : ((rest'.drop (signOf rest').length).takeWhile Char.isDigit).isEmpty = true := by
              rw [takeWhile_isEmpty, Bool.not_eq_true'] at none ⊢
              by_cases ends : rest' = []
              · rw [ends]
                rfl
              · have sign := signOf_shorter begins' ends
                rw [← signOf_append rest, ← signOf_append rest', sign] at begins'
                have further := (List.prefix_append_right_inj _).mp begins'
                rw [sign]
                exact not_startsWith_shorter further none
            rw [List.nil_append, exponent_cons]
            dsimp only
            rw [if_pos marked, if_pos none']
        · rename_i some
          cases read
          obtain ⟨takes, leaves⟩ := takeWhile_ends begins
          have again : signOf (signOf rest ++
              ((rest.drop (signOf rest).length).takeWhile Char.isDigit ++ left')) = signOf rest := by
            apply signOf_shorter
            · calc
                _ <+: signOf rest ++ ((rest.drop (signOf rest).length).takeWhile Char.isDigit ++
                    (rest.drop (signOf rest).length).dropWhile Char.isDigit) :=
                  (List.prefix_append_right_inj _).mpr ((List.prefix_append_right_inj _).mpr begins)
                _ = rest := by rw [List.takeWhile_append_dropWhile, signOf_append]
            · intro none
              have digits := (List.append_eq_nil_iff.mp (List.append_eq_nil_iff.mp none).2).1
              exact some (List.isEmpty_iff.mpr digits)
          rw [List.append_assoc, List.cons_append, exponent_cons, again]
          dsimp only
          rw [if_pos marked, List.drop_left, takes, leaves, if_neg some]
      · rename_i other
        cases read
        rcases List.prefix_cons_iff.mp begins with rfl | ⟨rest', rfl, -⟩
        · rfl
        · rw [List.nil_append, exponent_cons, if_neg other]

/-- What follows a fraction, be it an exponent or a name, starts with no point. -/
theorem exponent_pointless {power : List Char} (read : exponent chars = (power, left))
    (pointless : startsWith (· == '.') left' = false) :
    startsWith (· == '.') (power ++ left') = false := by
  unfold exponent at read
  split at read
  · rename_i e rest
    dsimp only at read
    split at read
    · rename_i marked
      split at read
      · cases read
        exact pointless
      · cases read
        rw [Bool.or_eq_true, decide_eq_true_eq, decide_eq_true_eq] at marked
        rcases marked with rfl | rfl <;> rfl
    · cases read
      exact pointless
  · cases read
    exact pointless

theorem numberOf_alone (source rest : List Char) :
    ∃ name, (numberOf source rest).source = source ++ name ∧ name <+: rest ∧
      startsWith (· == '.') name = false ∧
      numberOf source name = { numberOf source rest with rest := [] } := by
  by_cases letter : startsWith isWordStart rest = true
  · obtain ⟨takes, leaves⟩ := takeWhile_alone isNamePart rest
    obtain ⟨c, more, rfl⟩ : ∃ c more, rest = c :: more := by
      cases rest with
      | nil => cases letter
      | cons c more => exact ⟨c, more, rfl⟩
    have first : isWordStart c = true := letter
    have part : isNamePart c = true := isNamePart_of_start first
    have notPoint : (c == '.') = false := by
      rw [beq_eq_false_iff_ne]
      rintro rfl
      exact absurd first (by decide +kernel)
    refine ⟨(c :: more).takeWhile isNamePart, ?_, List.takeWhile_prefix _, ?_, ?_⟩
    · rw [numberOf, if_pos letter]
    · rw [List.takeWhile_cons_of_pos part]
      exact notPoint
    · have again : startsWith isWordStart ((c :: more).takeWhile isNamePart) = true := by
        rw [List.takeWhile_cons_of_pos part]
        exact first
      rw [numberOf, if_pos again, numberOf, if_pos letter, takes, leaves]
  · apply Exists.intro []
    rw [numberOf, if_neg letter, List.append_nil]
    exact ⟨rfl, List.nil_prefix, rfl, rfl⟩

/-- Each part of a number ends before a part of what follows it. -/
theorem number_alone (chars : List Char) : Alone number [] chars := by
  obtain ⟨point, more, fractional⟩ :
      ∃ point more, fraction (chars.dropWhile Char.isDigit) = (point, more) := ⟨_, _, rfl⟩
  obtain ⟨power, rest, exponential⟩ : ∃ power rest, exponent more = (power, rest) := ⟨_, _, rfl⟩
  have pointed := fraction_covers (chars.dropWhile Char.isDigit)
  have powered := exponent_covers more
  rw [fractional] at pointed
  rw [exponential] at powered
  obtain ⟨name, source, begins, pointless, again⟩ :=
    numberOf_alone (chars.takeWhile Char.isDigit ++ point ++ power) rest
  have later : power ++ name <+: more :=
    powered ▸ (List.prefix_append_right_inj power).mpr begins
  have first : point ++ (power ++ name) <+: chars.dropWhile Char.isDigit :=
    pointed ▸ (List.prefix_append_right_inj point).mpr later
  obtain ⟨takes, leaves⟩ := takeWhile_ends first
  have fractional' := fraction_alone fractional later (exponent_pointless exponential pointless)
  rw [← leaves] at fractional'
  rw [Alone, number_eq fractional exponential]
  apply Exists.intro (chars.takeWhile Char.isDigit ++ (point ++ (power ++ name)))
  rw [number_eq fractional' (exponent_alone exponential begins), takes]
  refine ⟨?_, again⟩
  rw [source]
  simp only [List.append_assoc, List.nil_append]

theorem dollar_alone (rest : List Char) : Alone dollar ['$'] rest := by
  by_cases digits : startsWith Char.isDigit rest = true
  · obtain ⟨takes, leaves⟩ := takeWhile_alone Char.isDigit rest
    have parameter (rest : List Char) (starts : startsWith Char.isDigit rest = true) :
        dollar rest = ⟨.parameter (String.ofList ('$' :: rest.takeWhile Char.isDigit)),
          ['$'] ++ rest.takeWhile Char.isDigit, rest.dropWhile Char.isDigit⟩ := by
      rw [dollar, takeWhile_isEmpty, starts]
      rfl
    have again : startsWith Char.isDigit (rest.takeWhile Char.isDigit) = true := by
      cases rest with
      | nil => cases digits
      | cons c rest =>
          rw [List.takeWhile_cons_of_pos (p := Char.isDigit) digits]
          exact digits
    apply alone_of_read (parameter rest digits)
    rw [parameter _ again, takes, leaves]
  · replace digits := Bool.eq_false_iff.mpr digits
    by_cases tag : startsWith (· == '$') (rest.dropWhile isNamePart) = true
    · obtain ⟨text, tagged⟩ : ∃ text, rest.dropWhile isNamePart = '$' :: text := by
        cases split : rest.dropWhile isNamePart with
        | nil =>
            rw [split] at tag
            cases tag
        | cons c text =>
            rw [split] at tag
            exact ⟨text, by simpa [startsWith] using tag⟩
      have whole : rest.takeWhile isNamePart ++ '$' :: text = rest := by
        rw [← tagged, List.takeWhile_append_dropWhile]
      have name : ∀ c ∈ rest.takeWhile isNamePart, isNamePart c = true :=
        List.all_eq_true.mp List.all_takeWhile
      have scanned := dollar_tagged digits tagged
      generalize rest.takeWhile isNamePart = tag at whole name scanned
      cases found : splitAt ('$' :: tag ++ ['$']) text with
      | none =>
          rw [found] at scanned
          exact alone_whole scanned
      | some split =>
          obtain ⟨body, left⟩ := split
          rw [found] at scanned
          have again : splitAt _ (body ++ _ ++ []) = some (body, []) := splitAt_steady found
          rw [List.append_nil] at again
          have here : dollar rest = ⟨.string (String.ofList body),
              ['$'] ++ (tag ++ '$' :: (body ++ ('$' :: tag ++ ['$']))), left⟩ := by
            rw [scanned]
            simp
          have begins : tag ++ '$' :: (body ++ ('$' :: tag ++ ['$'])) <+: rest := by
            rw [← whole, ← splitAt_covers found]
            exact (List.prefix_append_right_inj tag).mpr
              (List.cons_prefix_cons.mpr ⟨rfl, List.prefix_append _ _⟩)
          apply alone_of_read here
          obtain ⟨takes, leaves⟩ := takeWhile_tag tag (body ++ ('$' :: tag ++ ['$'])) name
          rw [dollar_tagged (not_startsWith_shorter begins digits) leaves, takes, again]
          simp
    · replace tag := Bool.eq_false_iff.mpr tag
      have bare : dollar rest = ⟨.invalid "Unexpected character: $", ['$'] ++ [], rest⟩ :=
        dollar_bare digits tag
      exact alone_of_read bare (dollar_bare rfl rfl)

theorem punctuation_alone (c : Char) (rest : List Char) : Alone (punctuation c) [c] rest := by
  -- A spelling that the characters taken start with is one that all of them start with.
  have fewer {taken : List Char} (begins : taken <+: c :: rest) (entry : List Char × Lexeme)
      (starts : entry.1.isPrefixOf taken = true) : entry.1.isPrefixOf (c :: rest) = true :=
    List.isPrefixOf_iff_prefix.mpr ((List.isPrefixOf_iff_prefix.mp starts).trans begins)
  cases found : spellings.find? fun entry => entry.1.isPrefixOf (c :: rest) with
  | none =>
      have none : spellings.find? (fun entry => entry.1.isPrefixOf [c]) = none := by
        rw [List.find?_eq_none] at found ⊢
        intro entry member starts
        exact found entry member (fewer ⟨rest, rfl⟩ entry starts)
      apply Exists.intro []
      rw [punctuation, punctuation, found, none]
      exact ⟨rfl, rfl⟩
  | some entry =>
      obtain ⟨spelling, lexeme⟩ := entry
      have begins : spelling <+: c :: rest :=
        List.isPrefixOf_iff_prefix.mp (by simpa using List.find?_some found)
      have same : spellings.find? (fun entry => entry.1.isPrefixOf spelling) =
          some (spelling, lexeme) := by
        obtain ⟨-, before, behind, split, others⟩ := List.find?_eq_some_iff_append.mp found
        apply List.find?_eq_some_iff_append.mpr
        refine ⟨List.isPrefixOf_iff_prefix.mpr (List.prefix_refl spelling), before, behind, split, ?_⟩
        intro entry member
        have other := others entry member
        rw [Bool.not_eq_true'] at other ⊢
        exact Bool.eq_false_iff.mpr fun starts =>
          Bool.eq_false_iff.mp other (fewer begins entry starts)
      obtain ⟨first, taken, rfl⟩ := List.exists_cons_of_ne_nil
        (spellings_tokens _ (List.mem_of_find?_eq_some found)).1
      obtain ⟨rfl, -⟩ := List.cons_prefix_cons.mp begins
      apply Exists.intro taken
      rw [punctuation, punctuation, found, same]
      simp

theorem Alone.cons {read : List Char → Scan} (inner : Alone read [] (c :: rest))
    (covers : (read (c :: rest)).Covers (c :: rest)) :
    Alone (fun rest => read (c :: rest)) [c] rest := by
  obtain ⟨taken, source, again⟩ := inner
  rw [List.nil_append] at source
  have nonempty := covers.nonempty
  have whole := covers.whole
  rw [source] at nonempty whole
  obtain ⟨first, taken, rfl⟩ := List.exists_cons_of_ne_nil nonempty
  obtain ⟨rfl, -⟩ := List.cons.inj whole
  exact ⟨taken, source, again⟩

/-- A scanner that is chosen for what it sees behind the first character is chosen again for the
characters it takes, if it takes what it saw. -/
theorem Alone.chosen {d : Dialect} {read : List Char → Scan} (inner : Alone read [c] rest)
    (sees : List Char → Prop) (seen : sees rest)
    (takes : ∀ taken, (read rest).source = c :: taken → sees taken)
    (reads : ∀ taken, taken <+: rest → sees taken → scan d c taken = read taken) :
    Alone (scan d c) [c] rest := by
  obtain ⟨taken, source, alone⟩ := inner
  have here := reads rest (List.prefix_refl rest) seen
  have covers := (scan_covers d c rest).whole
  rw [here, source, List.singleton_append, List.cons_append] at covers
  have begins : taken <+: rest := ⟨_, (List.cons.inj covers).2⟩
  apply Exists.intro taken
  rw [here, reads taken begins (takes taken source)]
  exact ⟨source, alone⟩

theorem Alone.always {d : Dialect} {read : List Char → Scan} (inner : Alone read [c] rest)
    (reads : ∀ taken, taken <+: rest → scan d c taken = read taken) :
    Alone (scan d c) [c] rest :=
  inner.chosen (fun _ => True) trivial (fun _ _ => trivial) fun taken begins _ => reads taken begins

/-- A scanner that goes on behind a quote takes that quote. -/
theorem Alone.quoting {d : Dialect} {read : List Char → Scan}
    (inner : Alone read [c, '\x27'] rest.tail) (quote : startsWith (· == '\x27') rest = true)
    (reads : ∀ taken, taken <+: rest → startsWith (· == '\x27') taken = true →
      scan d c taken = read taken.tail) : Alone (scan d c) [c] rest := by
  obtain ⟨taken, source, again⟩ := inner
  have whole : Alone (fun rest => read rest.tail) [c] rest := ⟨'\x27' :: taken, source, again⟩
  apply whole.chosen (startsWith (· == '\x27') · = true) quote
  · intro taken' source'
    rw [source] at source'
    rw [← (List.cons.inj source').2]
    rfl
  · exact reads

/-- A number that starts with a point takes the digit behind it. -/
theorem number_point {digit : Char} (isDigit : digit.isDigit = true) (rest : List Char) :
    ∃ more, (number ('.' :: digit :: rest)).source = '.' :: digit :: more := by
  have other : digit ≠ '.' := by
    rintro rfl
    exact absurd isDigit (by decide)
  have fractional : fraction (('.' :: digit :: rest).dropWhile Char.isDigit) =
      ('.' :: digit :: rest.takeWhile Char.isDigit, rest.dropWhile Char.isDigit) := by
    have single : ¬((digit :: rest).head? == some '.') = true := by simpa using other
    rw [List.dropWhile_cons_of_neg (by decide), fraction, if_neg single,
      List.takeWhile_cons_of_pos isDigit, List.dropWhile_cons_of_pos isDigit]
  rw [number_eq fractional rfl]
  obtain ⟨name, source, -⟩ := numberOf_alone _ _
  rw [source]
  exact ⟨_, rfl⟩

/-- What the choice of a scanner depends on holds of the text if it holds of its beginning. -/
theorem scan_alone (d : Dialect) (c : Char) (rest : List Char) : Alone (scan d c) [c] rest := by
  have looks {taken : List Char} (begins : taken <+: rest) :
      (startsWith (· == '*') taken = true → startsWith (· == '*') rest = true) ∧
      (startsWith (· == '\x27') taken = true → startsWith (· == '\x27') rest = true) ∧
      (startsWith Char.isDigit taken = true → startsWith Char.isDigit rest = true) ∧
      (startsWith isWordStart taken = true → startsWith isWordStart rest = true) :=
    ⟨startsWith_longer begins, startsWith_longer begins, startsWith_longer begins,
      startsWith_longer begins⟩
  fun_cases scan d c rest with
  | case1 comment =>
      let unterminated (rest : List Char) : Scan :=
        ⟨.invalid "Unterminated block comment", c :: rest, []⟩
      have inner : Alone unterminated [c] rest := alone_whole rfl
      obtain ⟨slash, star⟩ := Bool.and_eq_true_iff.mp comment
      apply inner.chosen (startsWith (· == '*') · = true) star
      · intro taken source
        rwa [← (List.cons.inj source).2]
      · intro taken begins star
        rw [scan, slash, star]
        rfl
  | case2 h1 mark =>
      subst mark
      apply (string_alone rest).always
      intro taken begins
      grind [scan]
  | case3 h1 h2 escaped =>
      simp only [Bool.and_eq_true] at escaped
      apply (escapedString_alone c rest.tail).quoting escaped.1.2
      intro taken begins quote
      have looks := looks begins
      grind [scan]
  | case4 h1 h2 h3 hex =>
      rw [Bool.and_eq_true] at hex
      apply (bitsBody_alone true ['\x27', c] [] rest.tail).quoting hex.2
      intro taken begins quote
      have looks := looks begins
      grind [scan]
  | case5 h1 h2 h3 h4 binary =>
      rw [Bool.and_eq_true] at binary
      apply (bitsBody_alone false ['\x27', c] [] rest.tail).quoting binary.2
      intro taken begins quote
      have looks := looks begins
      grind [scan]
  | case6 h1 h2 h3 h4 h5 starts =>
      apply ((number_alone (c :: rest)).cons (number_covers starts)).chosen (startsNumber c · = true) starts
      · intro taken source
        apply Bool.or_eq_true_iff.mpr
        apply (Bool.or_eq_true_iff.mp starts).imp_right
        intro point
        obtain ⟨same, digit⟩ := Bool.and_eq_true_iff.mp point
        obtain rfl := of_decide_eq_true same
        cases rest with
        | nil => cases digit
        | cons next rest =>
            obtain ⟨more, takes⟩ := number_point digit rest
            rw [source] at takes
            rw [(List.cons.inj takes).2]
            exact digit
      · intro taken begins starts
        have looks := looks begins
        grind [scan, startsNumber]
  | case7 h1 h2 h3 h4 h5 h6 starts =>
      have part : isWordPart c = true := Bool.or_eq_true_iff.mpr (.inl (isNamePart_of_start starts))
      apply ((word_alone (c :: rest)).cons (word_covers part)).always
      intro taken begins
      have looks := looks begins
      grind [scan]
  | case8 h1 h2 h3 h4 h5 h6 h7 quoting =>
      apply (quotedName_alone c rest).always
      intro taken begins
      have looks := looks begins
      grind [scan]
  | case9 h1 h2 h3 h4 h5 h6 h7 h8 dollar =>
      rw [Bool.and_eq_true] at dollar
      obtain rfl := of_decide_eq_true dollar.1
      apply (dollar_alone rest).always
      intro taken begins
      have looks := looks begins
      grind [scan]
  | case10 h1 h2 h3 h4 h5 h6 h7 h8 h9 named =>
      simp only [Bool.and_eq_true] at named
      obtain rfl := of_decide_eq_true named.1.1
      apply (namedParameter_alone rest).chosen (startsWith isWordStart · = true) named.2
      · intro taken source
        cases rest with
        | nil => cases named.2
        | cons next rest =>
            have part := isNamePart_of_start (c := next) named.2
            rw [namedParameter, List.takeWhile_cons_of_pos part] at source
            rw [← (List.cons.inj source).2]
            exact named.2
      · intro taken begins starts
        have looks := looks begins
        grind [scan]
  | case11 =>
      apply (punctuation_alone c rest).always
      intro taken begins
      have looks := looks begins
      grind [scan]

/-- What a token takes starts with no layout, for no layout starts with it in its text. -/
theorem layoutItem?_alone {d : Dialect} (clear : layoutItem? (c :: rest) = none)
    (source : (scan d c rest).source = c :: taken) : layoutItem? (c :: taken) = none := by
  have covers := (scan_covers d c rest).whole
  rw [source, List.cons_append] at covers
  have whole := (List.cons.inj covers).2
  generalize piece : c :: taken = chars
  fun_cases layoutItem? chars with
  | case1 text =>
      obtain ⟨rfl, rfl⟩ := List.cons.inj piece
      rw [← whole] at clear
      cases clear
  | case2 text =>
      obtain ⟨rfl, rfl⟩ := List.cons.inj piece
      have comment : (scan d '/' rest).source = '/' :: rest := by
        rw [← whole]
        rfl
      have all := (List.cons.inj (source.symm.trans comment)).2
      rwa [← all, layoutItem?_block] at clear
  | case3 first text line block blank =>
      obtain ⟨rfl, rfl⟩ := List.cons.inj piece
      rw [layoutItem?_blank blank] at clear
      cases clear
  | case4 => rfl
  | case5 => rfl

/-- The tokens of a text are each the only one where nothing else is left of the text. -/
theorem Lexes.alone {d : Dialect} {offset : Nat} {chars : List Char} {tokens : List Token}
    (lexes : Lexes d offset chars tokens) (front : List Char) (reached : size front = offset) :
    ∀ token ∈ tokens, token.lexeme ≠ .finish →
      Lexes d 0 (Script.source (front ++ chars) token.span)
        [⟨token.lexeme, ⟨0, token.span.length⟩⟩,
          ⟨.finish, ⟨token.span.length, token.span.length⟩⟩] := by
  induction lexes generalizing front with
  | finish =>
      intro token member more
      cases List.mem_singleton.mp member
      exact absurd rfl more
  | @token offset c gap rest tokens layout more ih =>
      subst reached
      have covers := (scan_covers d c rest).whole
      obtain ⟨taken, source, again⟩ := scan_alone d c rest
      rw [List.singleton_append] at source
      have passed : size (front ++ gap ++ (scan d c rest).source) =
          size front + size gap + size (scan d c rest).source := by
        rw [size_append, size_append]
      have whole : front ++ gap ++ ((scan d c rest).source ++ (scan d c rest).rest) =
          front ++ (gap ++ c :: rest) := by
        rw [covers, List.append_assoc]
      have later := ih _ passed
      rw [List.append_assoc (front ++ gap), whole] at later
      intro token member notEnd
      rcases List.mem_cons.mp member with rfl | member
      · have clear := layoutItem?_alone layout.last source
        have last (offset : Nat) : Lexes d offset (scan d c taken).rest
            [⟨.finish, ⟨offset, offset⟩⟩] := by
          rw [again]
          exact .finish (.done rfl)
        have only := Lexes.token (.done clear) (last (0 + size [] + size (scan d c taken).source))
        rw [← whole, ← size_append, Script.source_between, Span.length, Nat.add_sub_cancel_left]
        simpa [again, source, size] using only
      · exact later token member notEnd

end Lexer

/-- Cut out of its text, a token is read as what it was, and with nothing before or behind it. -/
theorem token_alone (d : Dialect) (text : String) (token : Token) (member : token ∈ tokenize d text)
    (more : token.lexeme ≠ .finish) :
    tokenize d (String.ofList (Script.source text.toList token.span)) =
      [⟨token.lexeme, ⟨0, token.span.length⟩⟩,
        ⟨.finish, ⟨token.span.length, token.span.length⟩⟩] := by
  have alone := (tokenize_lexes d text).alone [] rfl token member more
  have whole := tokenize_lexes d (String.ofList (Script.source text.toList token.span))
  rw [String.toList_ofList] at whole
  exact whole.unique alone

theorem token_alone_exponent :
    tokenize .postgres "1e+" = [⟨.invalid "Invalid numeric literal: 1e", ⟨0, 2⟩⟩,
      ⟨.symbol .plus, ⟨2, 3⟩⟩, ⟨.finish, ⟨3, 3⟩⟩] ∧
    tokenize .postgres "1e" =
      [⟨.invalid "Invalid numeric literal: 1e", ⟨0, 2⟩⟩, ⟨.finish, ⟨2, 2⟩⟩] := by
  have whole : tokenize .postgres "1e+" = [⟨.invalid "Invalid numeric literal: 1e", ⟨0, 2⟩⟩,
      ⟨.symbol .plus, ⟨2, 3⟩⟩, ⟨.finish, ⟨3, 3⟩⟩] := by decide +kernel
  apply And.intro whole
  exact token_alone .postgres "1e+" ⟨.invalid "Invalid numeric literal: 1e", ⟨0, 2⟩⟩
    (whole ▸ List.mem_cons_self) (by decide)

end SqlAudit
