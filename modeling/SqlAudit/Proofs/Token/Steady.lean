import SqlAudit.Proofs.Token.Casing
import SqlAudit.Proofs.Token.Cover
/-!
The case of letters behind a token does not touch it. Whatever a scanner makes of some characters,
it makes the same of them when letters after those it took change their case.
-/
namespace SqlAudit

open Text (CaseBlind raised)

namespace Lexer

variable {p : Char → Bool} {chars left left' taken rest : List Char}

theorem raised_append (first second : List Char) :
    raised (first ++ second) = raised first ++ raised second :=
  List.map_append

theorem raised_nil (same : raised [] = raised left) : left = [] :=
  List.map_eq_nil_iff.mp same.symm

theorem length_raised (same : raised left = raised left') : left.length = left'.length := by
  have lengths := congrArg List.length same
  rwa [raised, raised, List.length_map, List.length_map] at lengths

/-- Two texts that start with the same, and with the same letters from there on. -/
theorem raised_after (taken : List Char) (same : raised left = raised left') :
    raised (taken ++ left) = raised (taken ++ left') := by
  rw [raised_append, raised_append, same]

theorem startsWith_raised (blind : CaseBlind p) (same : raised left = raised left') :
    startsWith p left = startsWith p left' := by
  have raise : ∀ chars : List Char, startsWith p (raised chars) = startsWith p chars := by
    intro chars
    cases chars with
    | nil => rfl
    | cons c rest => exact blind c
  rw [← raise left, same, raise left']

/-- A text goes on with a character of its own, or with none. -/
theorem raised_cons {c : Char} (same : raised (c :: rest) = raised left) :
    ∃ c' rest', left = c' :: rest' ∧ c.toUpper = c'.toUpper ∧ raised rest = raised rest' := by
  cases left with
  | nil => cases same
  | cons c' rest' =>
      obtain ⟨first, others⟩ := List.cons.inj same
      exact ⟨c', rest', rfl, first, others⟩

theorem blind_eq {α : Type} {f : Char → α} (blind : CaseBlind f) {c c' : Char}
    (same : c.toUpper = c'.toUpper) : f c = f c' := by
  rw [← blind c, same, blind c']

/-- What stops a run of characters stops it in every case. -/
theorem takeWhile_steady (blind : CaseBlind p)
    (same : raised (chars.dropWhile p) = raised left) :
    (chars.takeWhile p ++ left).takeWhile p = chars.takeWhile p ∧
      (chars.takeWhile p ++ left).dropWhile p = left := by
  have all : ∀ c ∈ chars.takeWhile p, p c = true := List.all_eq_true.mp List.all_takeWhile
  have stops : startsWith p left = false := by
    rw [← startsWith_raised blind same]
    cases run : chars.dropWhile p with
    | nil => rfl
    | cons c rest =>
        have first := List.head_dropWhile_not p (l := chars) (by simp [run])
        simpa [run, startsWith] using first
  rw [List.takeWhile_append_of_pos all, List.dropWhile_append_of_pos all]
  cases left with
  | nil => simp
  | cons c rest =>
      have first : p c = false := stops
      simp [first]

/-- What a scanner reads here after `front`, it reads as well when letters behind it change their
case. -/
def Steady (read : List Char → Scan) (front chars : List Char) : Prop :=
  ∃ taken, (read chars).source = front ++ taken ∧
    ∀ left, raised (read chars).rest = raised left →
      read (taken ++ left) = { read chars with rest := left }

theorem steady_of_read {read : List Char → Scan} {front : List Char} {lexeme : Lexeme}
    (here : read chars = ⟨lexeme, front ++ taken, left⟩)
    (again : ∀ left', raised left = raised left' →
      read (taken ++ left') = ⟨lexeme, front ++ taken, left'⟩) : Steady read front chars := by
  refine ⟨taken, by rw [here], fun left' same => ?_⟩
  rw [here] at same ⊢
  exact again left' same

/-- What takes everything has nothing behind it. -/
theorem steady_whole {read : List Char → Scan} {front : List Char} {lexeme : Lexeme}
    (here : read chars = ⟨lexeme, front ++ chars, []⟩) : Steady read front chars := by
  refine steady_of_read here fun left' same => ?_
  rw [raised_nil same, List.append_nil]
  exact here

theorem quotedBody_steady {quote : Char} (blind : CaseBlind (· == quote)) {value : List Char}
    (read : quotedBody quote chars = some (value, taken, left))
    (same : raised left = raised left') : quotedBody quote (taken ++ left') = some (value, taken, left') := by
  fun_induction quotedBody quote chars generalizing value taken with
  | case1 => cases read
  | case2 =>
      cases read
      rw [raised_nil same]
      simp [quotedBody]
  | case3 more ih =>
      obtain ⟨⟨inner, passed, left⟩, found, shape⟩ := Option.map_eq_some_iff.mp read
      cases shape
      simp [quotedBody, ih found]
  | case4 d more other =>
      cases read
      obtain ⟨d', more', rfl, first, -⟩ := raised_cons same
      have apart : (d == quote) = (d' == quote) := blind_eq (f := (· == quote)) blind first
      have other' : d' ≠ quote := by
        rwa [← beq_eq_false_iff_ne, ← apart, beq_eq_false_iff_ne]
      simp [quotedBody, other']
  | case5 c text other ih =>
      obtain ⟨⟨inner, passed, left⟩, found, shape⟩ := Option.map_eq_some_iff.mp read
      cases shape
      rw [List.cons_append, quotedBody.eq_def]
      simp [other, ih found]

theorem quote_caseBlind : CaseBlind (· == '\x27') := Text.caseBlind_of_ascii (by decide)

theorem escapedBody_steady {value : List Char}
    (read : escapedBody chars = some (value, taken, left)) (same : raised left = raised left') :
    escapedBody (taken ++ left') = some (value, taken, left') := by
  fun_induction escapedBody chars generalizing value taken with
  | case1 => cases read
  | case2 =>
      cases read
      rw [raised_nil same]
      simp [escapedBody]
  | case3 => cases read
  | case4 text ih =>
      obtain ⟨⟨inner, passed, left⟩, found, shape⟩ := Option.map_eq_some_iff.mp read
      cases shape
      simp [escapedBody, ih found]
  | case5 d text other =>
      cases read
      obtain ⟨d', more', rfl, first, -⟩ := raised_cons same
      have apart := blind_eq quote_caseBlind first
      have other' : d' ≠ '\x27' := by
        rwa [← beq_eq_false_iff_ne, ← apart, beq_eq_false_iff_ne]
      simp [escapedBody, other']
  | case6 d text notQuote ih =>
      obtain ⟨⟨inner, passed, left⟩, found, shape⟩ := Option.map_eq_some_iff.mp read
      cases shape
      simp [escapedBody, ih found]
  | case7 c d text notQuote notEscape ih =>
      obtain ⟨⟨inner, passed, left⟩, found, shape⟩ := Option.map_eq_some_iff.mp read
      cases shape
      have later := ih found
      rw [List.cons_append]
      cases more : passed ++ left' with
      | nil =>
          rw [more] at later
          cases later
      | cons e text' =>
          rw [more] at later
          simp [escapedBody, notQuote, notEscape, later]

theorem bitsBody_steady (hex : Bool) (source digits chars : List Char) :
    Steady (bitsBody hex source digits) source.reverse chars := by
  fun_induction bitsBody hex source digits chars with
  | case1 source digits => exact steady_whole (by rw [bitsBody, List.append_nil])
  | case2 source digits rest =>
      refine ⟨['\x27'], by simp [bitsBody], ?_⟩
      intro left same
      simp [bitsBody]
  | case3 source digits c text notEnd digit ih =>
      obtain ⟨taken, here, again⟩ := ih
      rw [Steady, bitsBody, if_neg notEnd, if_pos digit]
      refine ⟨c :: taken, by rw [here]; simp, ?_⟩
      intro left same
      rw [List.cons_append, bitsBody, if_neg notEnd, if_pos digit]
      exact again left same
  | case4 source digits c text notEnd notDigit blank ih =>
      obtain ⟨taken, here, again⟩ := ih
      rw [Steady, bitsBody, if_neg notEnd, if_neg notDigit, if_pos blank]
      refine ⟨c :: taken, by rw [here]; simp, ?_⟩
      intro left same
      rw [List.cons_append, bitsBody, if_neg notEnd, if_neg notDigit, if_pos blank]
      exact again left same
  | case5 source digits c text notEnd notDigit notBlank skipped left =>
      rw [Steady, bitsBody, if_neg notEnd, if_neg notDigit, if_neg notBlank]
      refine ⟨c :: (skipped ++ left.take 1), by simp [skipped, left], ?_⟩
      intro left' same
      replace same : raised (left.drop 1) = raised left' := same
      have mark : CaseBlind (· != '\x27') := Text.caseBlind_of_ascii (by decide)
      have resumed : raised left = raised (left.take 1 ++ left') := by
        rw [← raised_after (left.take 1) same, List.take_append_drop]
      obtain ⟨skips, leaves⟩ := takeWhile_steady mark resumed
      have ended : (left.take 1 ++ left').take 1 = left.take 1 ∧
          (left.take 1 ++ left').drop 1 = left' := by
        cases split : left with
        | nil =>
            rw [split] at same
            simp [raised_nil same]
        | cons c more => simp
      rw [List.cons_append, List.append_assoc, bitsBody, if_neg notEnd, if_neg notDigit,
        if_neg notBlank]
      simp only [skipped, left, skips, leaves, ended]

theorem splitAt_steady {mark body : List Char} (read : splitAt mark chars = some (body, left)) :
    splitAt mark (body ++ mark ++ left') = some (body, left') := by
  fun_induction splitAt mark chars generalizing body with
  | case1 none =>
      obtain ⟨rfl, rfl⟩ : [] = body ∧ [] = left := by simpa using read
      rw [List.isEmpty_iff.mp none]
      cases left' <;> simp [splitAt]
  | case2 => cases read
  | case3 c text here =>
      cases read
      rw [List.nil_append]
      cases whole : mark ++ left' with
      | nil =>
          obtain ⟨rfl, rfl⟩ := List.append_eq_nil_iff.mp whole
          simp [splitAt]
      | cons d more =>
          have begins : mark <+: d :: more := ⟨left', whole⟩
          rw [splitAt, if_pos (List.isPrefixOf_iff_prefix.mpr begins), ← whole, List.drop_left]
  | case4 c text elsewhere ih =>
      obtain ⟨⟨inner, rest⟩, found, shape⟩ := Option.map_eq_some_iff.mp read
      cases shape
      have whole := splitAt_covers found
      have still : ¬ mark.isPrefixOf (c :: (inner ++ mark ++ left')) := by
        intro begins
        have longer := List.isPrefixOf_iff_prefix.mp begins
        rw [← List.cons_append] at longer
        have short := List.prefix_of_prefix_length_le longer
          (List.prefix_append (c :: (inner ++ mark)) left') (by simp; omega)
        refine elsewhere (List.isPrefixOf_iff_prefix.mpr (short.trans ?_))
        rw [← whole]
        exact List.prefix_append (c :: (inner ++ mark)) left
      rw [List.cons_append, List.cons_append, splitAt, if_neg still, ih found]
      rfl

theorem string_steady (rest : List Char) : Steady string ['\x27'] rest := by
  cases read : quotedBody '\x27' rest with
  | none => exact steady_whole (by rw [string, read]; rfl)
  | some found =>
      obtain ⟨value, taken, left⟩ := found
      refine steady_of_read (by rw [string, read]; rfl) fun left' same => ?_
      rw [string, quotedBody_steady quote_caseBlind read same]
      rfl

theorem escapedString_steady (mark : Char) (rest : List Char) :
    Steady (escapedString mark) [mark, '\x27'] rest := by
  cases read : escapedBody rest with
  | none => exact steady_whole (by rw [escapedString, read]; rfl)
  | some found =>
      obtain ⟨value, taken, left⟩ := found
      refine steady_of_read (by rw [escapedString, read]; rfl) fun left' same => ?_
      rw [escapedString, escapedBody_steady read same]
      rfl

theorem quotedName_steady {quote : Char} (blind : CaseBlind (· == quote)) (rest : List Char) :
    Steady (quotedName quote) [quote] rest := by
  cases read : quotedBody quote rest with
  | none => exact steady_whole (by rw [quotedName, read]; rfl)
  | some found =>
      obtain ⟨value, taken, left⟩ := found
      cases value with
      | nil =>
          refine steady_of_read (by rw [quotedName, read]; rfl) fun left' same => ?_
          rw [quotedName, quotedBody_steady blind read same]
          rfl
      | cons c value =>
          refine steady_of_read (by rw [quotedName, read]; rfl) fun left' same => ?_
          rw [quotedName, quotedBody_steady blind read same]
          rfl

theorem dot_caseBlind : CaseBlind (· == '.') := Text.caseBlind_of_ascii (by decide)

theorem head_startsWith (c : Char) (chars : List Char) :
    (chars.head? == some c) = startsWith (· == c) chars := by
  cases chars <;> rfl

theorem fraction_steady {point : List Char} (read : fraction chars = (point, left))
    (same : raised left = raised left') : fraction (point ++ left') = (point, left') := by
  have none : ∀ chars : List Char, startsWith (· == '.') chars = false →
      fraction chars = ([], chars) := by
    intro chars other
    unfold fraction
    split
    · cases other
    · rfl
  by_cases dot : startsWith (· == '.') chars = true
  · obtain ⟨rest, rfl⟩ : ∃ rest, chars = '.' :: rest := by
      cases chars with
      | nil => cases dot
      | cons c rest => exact ⟨rest, by simpa [startsWith] using dot⟩
    by_cases double : startsWith (· == '.') rest = true
    · rw [fraction, head_startsWith, if_pos double] at read
      cases read
      obtain ⟨c', rest', rfl, first, others⟩ := raised_cons same
      obtain rfl : c' = '.' := by simpa using blind_eq dot_caseBlind first
      rw [List.nil_append, fraction, head_startsWith, ← startsWith_raised dot_caseBlind others,
        if_pos double]
    · rw [fraction, head_startsWith, if_neg double] at read
      cases read
      obtain ⟨takes, leaves⟩ := takeWhile_steady Text.isDigit_caseBlind same
      have resumed := raised_after (rest.takeWhile Char.isDigit) same
      rw [List.takeWhile_append_dropWhile] at resumed
      rw [List.cons_append, fraction, head_startsWith, ← startsWith_raised dot_caseBlind resumed,
        if_neg double, takes, leaves]
  · replace dot := Bool.eq_false_iff.mpr dot
    rw [none chars dot] at read
    cases read
    exact none left' (by rw [← startsWith_raised dot_caseBlind same, dot])

/-- The sign that an exponent starts with, if any. -/
def signOf (chars : List Char) : List Char := chars.take 1 |>.filter fun c => c == '+' || c == '-'

theorem signOf_raised (same : raised left = raised left') :
    signOf left = signOf left' := by
  have blind : CaseBlind fun c => bif c == '+' || c == '-' then [c] else [] :=
    Text.caseBlind_of_ascii (by decide)
  have one : ∀ (c : Char) (rest : List Char),
      signOf (c :: rest) = bif c == '+' || c == '-' then [c] else [] := by
    intro c rest
    cases sign : c == '+' || c == '-' <;> simp [signOf, sign]
  cases left with
  | nil => rw [raised_nil same]
  | cons c rest =>
      obtain ⟨c', rest', rfl, first, -⟩ := raised_cons same
      rw [one, one]
      exact blind_eq blind first

theorem raised_drop (n : Nat) (same : raised left = raised left') :
    raised (left.drop n) = raised (left'.drop n) := by
  rw [raised, raised, List.map_drop, List.map_drop]
  exact congrArg (List.drop n) same

theorem signOf_append (chars : List Char) :
    signOf chars ++ chars.drop (signOf chars).length = chars := by
  cases chars with
  | nil => rfl
  | cons c rest => cases sign : c == '+' || c == '-' <;> simp [signOf, sign]

theorem takeWhile_isEmpty (p : Char → Bool) (chars : List Char) :
    (chars.takeWhile p).isEmpty = !startsWith p chars := by
  cases chars with
  | nil => rfl
  | cons c rest => cases first : p c <;> simp [startsWith, first]

theorem exponent_cons (e : Char) (rest : List Char) : exponent (e :: rest) =
    if e = 'e' || e = 'E' then
      let digits := (rest.drop (signOf rest).length).takeWhile Char.isDigit
      if digits.isEmpty then ([], e :: rest)
      else (e :: signOf rest ++ digits, (rest.drop (signOf rest).length).dropWhile Char.isDigit)
    else ([], e :: rest) := rfl

theorem exponent_steady {power : List Char} (read : exponent chars = (power, left))
    (same : raised left = raised left') : exponent (power ++ left') = (power, left') := by
  have mark : CaseBlind fun e => (e = 'e' || e = 'E' : Bool) :=
    Text.caseBlind_of_ascii (by decide)
  cases chars with
  | nil =>
      cases read
      rw [raised_nil same]
      rfl
  | cons e rest =>
      rw [exponent_cons] at read
      dsimp only at read
      split at read
      · rename_i marked
        split at read
        · rename_i none
          cases read
          obtain ⟨e', rest', rfl, first, others⟩ := raised_cons same
          have marked' := (blind_eq mark first).symm.trans marked
          rw [takeWhile_isEmpty, startsWith_raised Text.isDigit_caseBlind (raised_drop _ others),
            signOf_raised others, ← takeWhile_isEmpty] at none
          rw [List.nil_append, exponent_cons]
          dsimp only
          rw [if_pos marked', if_pos none]
        · rename_i some
          cases read
          obtain ⟨takes, leaves⟩ := takeWhile_steady Text.isDigit_caseBlind same
          have resumed := raised_after (signOf rest) (raised_after
            ((rest.drop (signOf rest).length).takeWhile Char.isDigit) same)
          rw [List.takeWhile_append_dropWhile, signOf_append] at resumed
          rw [List.append_assoc, List.cons_append, exponent_cons, ← signOf_raised resumed]
          dsimp only
          rw [if_pos marked, List.drop_left, takes, leaves, if_neg some]
      · rename_i other
        cases read
        obtain ⟨e', rest', rfl, first, others⟩ := raised_cons same
        have other' := fun marked => other ((blind_eq mark first).trans marked)
        rw [List.nil_append, exponent_cons, if_neg other']

theorem isNamePart_caseBlind : CaseBlind isNamePart := by
  intro c
  have underscore : CaseBlind (· == '_') := Text.caseBlind_of_ascii (by decide)
  rw [isNamePart, isNamePart, Text.isLetterOrNumeral, Text.isLetterOrNumeral,
    Text.isLetter_caseBlind c, Text.isNumeral_caseBlind c]
  exact congrArg _ (underscore c)

theorem isWordStart_caseBlind : CaseBlind isWordStart := by
  intro c
  have underscore : CaseBlind (· == '_') := Text.caseBlind_of_ascii (by decide)
  rw [isWordStart, isWordStart, Text.isLetter_caseBlind c]
  exact congrArg _ (underscore c)

theorem isWordPart_caseBlind : CaseBlind isWordPart := by
  intro c
  have dollar : CaseBlind (· == '$') := Text.caseBlind_of_ascii (by decide)
  rw [isWordPart, isWordPart, isNamePart_caseBlind c]
  exact congrArg _ (dollar c)

/-- The number whose parts have been read; one that runs into a name is invalid. -/
def numberOf (source rest : List Char) : Scan :=
  if startsWith isWordStart rest then
    ⟨.invalid ("Invalid numeric literal: " ++ String.ofList (source ++ rest.takeWhile isNamePart)),
      source ++ rest.takeWhile isNamePart, rest.dropWhile isNamePart⟩
  else ⟨.number (String.ofList source), source, rest⟩

theorem number_eq {point power more : List Char}
    (fractional : fraction (chars.dropWhile Char.isDigit) = (point, more))
    (exponential : exponent more = (power, rest)) :
    number chars = numberOf (chars.takeWhile Char.isDigit ++ point ++ power) rest := by
  rw [number, fractional]
  dsimp only
  rw [exponential]
  rfl

theorem numberOf_steady (source rest : List Char) : Steady (numberOf source) source rest := by
  by_cases letter : startsWith isWordStart rest = true
  · refine steady_of_read (by rw [numberOf, if_pos letter]) fun left' same => ?_
    have resumed := raised_after (rest.takeWhile isNamePart) same
    rw [List.takeWhile_append_dropWhile] at resumed
    obtain ⟨takes, leaves⟩ := takeWhile_steady isNamePart_caseBlind same
    rw [numberOf, ← startsWith_raised isWordStart_caseBlind resumed, if_pos letter, takes, leaves]
  · have whole : source = source ++ [] := (List.append_nil source).symm
    refine steady_of_read (by rw [numberOf, if_neg letter, ← whole]) fun left' same => ?_
    rw [List.nil_append, numberOf, ← startsWith_raised isWordStart_caseBlind same, if_neg letter,
      ← whole]

theorem numberOf_covers (source rest : List Char) :
    (numberOf source rest).source ++ (numberOf source rest).rest = source ++ rest := by
  rw [numberOf]
  split
  · rw [List.append_assoc, List.takeWhile_append_dropWhile]
  · rfl

/-- Each part of a number ends before what follows it, so the parts are read again from the last one
to the first. -/
theorem number_steady (chars : List Char) : Steady number [] chars := by
  obtain ⟨point, more, fractional⟩ :
      ∃ point more, fraction (chars.dropWhile Char.isDigit) = (point, more) := ⟨_, _, rfl⟩
  obtain ⟨power, rest, exponential⟩ : ∃ power rest, exponent more = (power, rest) := ⟨_, _, rfl⟩
  have pointed := fraction_covers (chars.dropWhile Char.isDigit)
  have powered := exponent_covers more
  have covers := numberOf_covers (chars.takeWhile Char.isDigit ++ point ++ power) rest
  rw [fractional] at pointed
  rw [exponential] at powered
  obtain ⟨extra, source, again⟩ :=
    numberOf_steady (chars.takeWhile Char.isDigit ++ point ++ power) rest
  rw [source, List.append_assoc] at covers
  replace covers := List.append_cancel_left covers
  rw [Steady, number_eq fractional exponential]
  refine ⟨chars.takeWhile Char.isDigit ++ point ++ power ++ extra, source, fun left same => ?_⟩
  have last : raised rest = raised (extra ++ left) := by
    rw [← covers]
    exact raised_after extra same
  have middle : raised more = raised (power ++ (extra ++ left)) := by
    rw [← powered]
    exact raised_after power last
  have first : raised (chars.dropWhile Char.isDigit) =
      raised (point ++ (power ++ (extra ++ left))) := by
    rw [← pointed]
    exact raised_after point middle
  obtain ⟨takes, leaves⟩ := takeWhile_steady Text.isDigit_caseBlind first
  have fractional' := fraction_steady fractional middle
  rw [← leaves] at fractional'
  have whole := again left same
  simp only [List.append_assoc] at takes fractional' whole ⊢
  rw [number_eq fractional' (exponent_steady exponential last), takes]
  simpa only [List.append_assoc] using whole

theorem word_steady (chars : List Char) : Steady word [] chars := by
  refine steady_of_read rfl fun left same => ?_
  obtain ⟨takes, leaves⟩ := takeWhile_steady isWordPart_caseBlind same
  rw [word, takes, leaves]
  rfl

theorem namedParameter_steady (chars : List Char) : Steady namedParameter [':'] chars := by
  refine steady_of_read rfl fun left same => ?_
  obtain ⟨takes, leaves⟩ := takeWhile_steady isNamePart_caseBlind same
  rw [namedParameter, takes, leaves]
  rfl

theorem isPrefixOf_raised {key : List Char} (blind : ∀ k ∈ key, CaseBlind (k == ·))
    (same : raised left = raised left') : key.isPrefixOf left = key.isPrefixOf left' := by
  induction key generalizing left left' with
  | nil => simp
  | cons k key ih =>
      cases left with
      | nil => rw [raised_nil same]
      | cons c rest =>
          obtain ⟨c', rest', rfl, first, others⟩ := raised_cons same
          rw [List.isPrefixOf, List.isPrefixOf, blind_eq (blind k (.head _)) first,
            ih (fun k member => blind k (.tail _ member)) others]

/-- No spelling holds a letter. -/
theorem spellings_caseBlind : ∀ entry ∈ spellings, ∀ k ∈ entry.1, CaseBlind (k == ·) := by
  have ascii : spellings.all (fun entry => entry.1.all fun k => decide (∀ n : Nat, n < 128 →
      (k == (Char.ofNat n).toUpper) = (k == Char.ofNat n))) = true := by decide +kernel
  intro entry member k inside
  have one := List.all_eq_true.mp (List.all_eq_true.mp ascii entry member) k inside
  exact Text.caseBlind_of_ascii (of_decide_eq_true one)

theorem punctuation_steady (c : Char) (rest : List Char) : Steady (punctuation c) [c] rest := by
  have same_find : ∀ rest', raised rest = raised rest' →
      (spellings.find? fun entry => entry.1.isPrefixOf (c :: rest)) =
        spellings.find? fun entry => entry.1.isPrefixOf (c :: rest') := by
    intro rest' same
    rw [← List.head?_filter, ← List.head?_filter]
    refine congrArg List.head? (List.filter_congr fun entry member => ?_)
    exact isPrefixOf_raised (spellings_caseBlind entry member) (raised_after [c] same)
  cases found : spellings.find? fun entry => entry.1.isPrefixOf (c :: rest) with
  | none =>
      refine steady_of_read (by rw [punctuation, found]; rfl) fun left' same => ?_
      rw [List.nil_append, punctuation, ← same_find left' same, found]
      rfl
  | some entry =>
      obtain ⟨spelling, lexeme⟩ := entry
      have begins : spelling.isPrefixOf (c :: rest) := by simpa using List.find?_some found
      obtain ⟨left, whole⟩ := List.isPrefixOf_iff_prefix.mp begins
      obtain ⟨first, taken, rfl⟩ := List.exists_cons_of_ne_nil
        (spellings_tokens _ (List.mem_of_find?_eq_some found)).1
      rw [List.cons_append] at whole
      obtain ⟨rfl, rfl⟩ := List.cons.inj whole
      have scanned : punctuation first (taken ++ left) = ⟨lexeme, [first] ++ taken, left⟩ := by
        rw [punctuation, found]
        simp
      refine steady_of_read scanned fun left' same => ?_
      rw [punctuation, ← same_find _ (raised_after taken same), found]
      simp

theorem dollar_tagged {text : List Char} (plain : startsWith Char.isDigit chars = false)
    (tagged : chars.dropWhile isNamePart = '$' :: text) : dollar chars =
      match splitAt ('$' :: chars.takeWhile isNamePart ++ ['$']) text with
      | some (body, rest) => ⟨.string (String.ofList body),
          '$' :: chars.takeWhile isNamePart ++ ['$'] ++ body ++
            ('$' :: chars.takeWhile isNamePart ++ ['$']), rest⟩
      | none => ⟨.invalid "Unterminated dollar-quoted string", '$' :: chars, []⟩ := by
  rw [dollar, takeWhile_isEmpty, plain, tagged]
  rfl

theorem dollar_bare (plain : startsWith Char.isDigit chars = false)
    (untagged : startsWith (· == '$') (chars.dropWhile isNamePart) = false) :
    dollar chars = ⟨.invalid "Unexpected character: $", ['$'], chars⟩ := by
  rw [dollar, takeWhile_isEmpty, plain]
  simp only [Bool.not_false, Bool.not_true, Bool.false_eq_true, if_false]
  split
  · rename_i text tagged
    rw [tagged] at untagged
    cases untagged
  · rfl

theorem dollar_caseBlind : CaseBlind (· == '$') := Text.caseBlind_of_ascii (by decide)

/-- A tag and the dollar sign behind it end where the name does. -/
theorem takeWhile_tag (tag text : List Char) (name : ∀ c ∈ tag, isNamePart c = true) :
    (tag ++ '$' :: text).takeWhile isNamePart = tag ∧
      (tag ++ '$' :: text).dropWhile isNamePart = '$' :: text := by
  have sign : isNamePart '$' = false := by decide +kernel
  rw [List.takeWhile_append_of_pos name, List.dropWhile_append_of_pos name]
  simp [sign]

theorem dollar_steady (rest : List Char) : Steady dollar ['$'] rest := by
  by_cases digits : startsWith Char.isDigit rest = true
  · have parameter : ∀ rest, startsWith Char.isDigit rest = true → dollar rest =
        ⟨.parameter (String.ofList ('$' :: rest.takeWhile Char.isDigit)),
          ['$'] ++ rest.takeWhile Char.isDigit, rest.dropWhile Char.isDigit⟩ := by
      intro rest starts
      rw [dollar, takeWhile_isEmpty, starts]
      rfl
    refine steady_of_read (parameter rest digits) fun left same => ?_
    obtain ⟨takes, leaves⟩ := takeWhile_steady Text.isDigit_caseBlind same
    have resumed := raised_after (rest.takeWhile Char.isDigit) same
    rw [List.takeWhile_append_dropWhile] at resumed
    rw [parameter _ ((startsWith_raised Text.isDigit_caseBlind resumed).symm.trans digits), takes,
      leaves]
  · replace digits := Bool.eq_false_iff.mpr digits
    have plain : ∀ rest', raised rest = raised rest' → startsWith Char.isDigit rest' = false := by
      intro rest' same
      rw [← startsWith_raised Text.isDigit_caseBlind same, digits]
    by_cases tag : startsWith (· == '$') (rest.dropWhile isNamePart) = true
    · obtain ⟨text, tagged⟩ : ∃ text, rest.dropWhile isNamePart = '$' :: text := by
        cases split : rest.dropWhile isNamePart with
        | nil =>
            rw [split] at tag
            cases tag
        | cons c text =>
            rw [split] at tag
            exact ⟨text, by simpa [startsWith] using tag⟩
      have whole : rest.takeWhile isNamePart ++ '$' :: text = rest := by
        rw [← tagged, List.takeWhile_append_dropWhile]
      have name : ∀ c ∈ rest.takeWhile isNamePart, isNamePart c = true :=
        List.all_eq_true.mp List.all_takeWhile
      have scanned := dollar_tagged digits tagged
      generalize rest.takeWhile isNamePart = tag at whole name scanned
      cases found : splitAt ('$' :: tag ++ ['$']) text with
      | none =>
          rw [found] at scanned
          exact steady_whole scanned
      | some split =>
          obtain ⟨body, left⟩ := split
          rw [found] at scanned
          have covers := splitAt_covers found
          have here : dollar rest = ⟨.string (String.ofList body),
              ['$'] ++ (tag ++ '$' :: (body ++ ('$' :: tag ++ ['$']))), left⟩ := by
            rw [scanned]
            simp
          refine steady_of_read here fun left' same => ?_
          have again : tag ++ '$' :: (body ++ ('$' :: tag ++ ['$'])) ++ left' =
              tag ++ '$' :: (body ++ ('$' :: tag ++ ['$']) ++ left') := by simp
          have resumed : raised rest =
              raised (tag ++ '$' :: (body ++ ('$' :: tag ++ ['$']) ++ left')) := by
            rw [← whole, ← covers]
            exact raised_after tag (raised_after ['$'] (raised_after _ same))
          obtain ⟨takes, leaves⟩ := takeWhile_tag tag (body ++ ('$' :: tag ++ ['$']) ++ left') name
          rw [again, dollar_tagged (plain _ resumed) leaves, takes, splitAt_steady found]
          simp
    · replace tag := Bool.eq_false_iff.mpr tag
      have bare : dollar rest = ⟨.invalid "Unexpected character: $", ['$'] ++ [], rest⟩ :=
        dollar_bare digits tag
      refine steady_of_read bare fun left' same => ?_
      have dropped : raised (rest.dropWhile isNamePart) = raised (left'.dropWhile isNamePart) := by
        rw [← Text.dropWhile_raised isNamePart_caseBlind, same,
          Text.dropWhile_raised isNamePart_caseBlind]
      refine dollar_bare (plain left' same) ?_
      rw [List.nil_append, ← startsWith_raised dollar_caseBlind dropped, tag]

theorem quotes_caseBlind (d : Dialect) : CaseBlind d.quotes.contains := by
  apply Text.caseBlind_of_ascii
  cases d <;> decide

theorem isQuote_caseBlind (d : Dialect) : ∀ quote ∈ d.quotes, CaseBlind (· == quote) := by
  have ascii : d.quotes.all (fun quote => decide (∀ n : Nat, n < 128 →
      ((Char.ofNat n).toUpper == quote) = (Char.ofNat n == quote))) = true := by
    cases d <;> decide
  intro quote member
  exact Text.caseBlind_of_ascii (of_decide_eq_true (List.all_eq_true.mp ascii quote member))

/-- What a token is depends on no case of its letters, and on none of those behind it. -/
theorem scan_recased (d : Dialect) {c c' : Char} {rest rest' : List Char}
    (first : c.toUpper = c'.toUpper) (same : raised rest = raised rest') : scan d c' rest' =
      if c = '/' && startsWith (· == '*') rest then
        ⟨.invalid "Unterminated block comment", c' :: rest', []⟩
      else if c = '\x27' then string rest'
      else if (c = 'E' || c = 'e') && startsWith (· == '\x27') rest && d.hasEscapeStrings then
        escapedString c' rest'.tail
      else if (c = 'X' || c = 'x') && startsWith (· == '\x27') rest then
        bitsBody true ['\x27', c'] [] rest'.tail
      else if (c = 'B' || c = 'b') && startsWith (· == '\x27') rest then
        bitsBody false ['\x27', c'] [] rest'.tail
      else if c.isDigit || (c = '.' && startsWith Char.isDigit rest) then number (c' :: rest')
      else if isWordStart c then word (c' :: rest')
      else if d.quotes.contains c then quotedName c' rest'
      else if c = '$' && d.hasDollarQuotes then dollar rest'
      else if c = ':' && d.hasNamedParameters && startsWith isWordStart rest then
        namedParameter rest'
      else punctuation c' rest' := by
  have star := startsWith_raised (p := (· == '*')) (Text.caseBlind_of_ascii (by decide)) same
  have one (mark : Char) (blind : CaseBlind fun c => decide (c = mark)) :
      decide (c' = mark) = decide (c = mark) := (blind_eq blind first).symm
  have two (mark other : Char) (blind : CaseBlind fun c => (c = mark || c = other : Bool)) :
      (c' = mark || c' = other : Bool) = (c = mark || c = other : Bool) :=
    (blind_eq blind first).symm
  have quoted : (c' = '\x27') = (c = '\x27') :=
    (blind_eq (f := fun c => c = '\x27') (Text.caseBlind_of_ascii (by decide +kernel)) first).symm
  rw [scan, ← star, ← startsWith_raised quote_caseBlind same,
    ← startsWith_raised Text.isDigit_caseBlind same, ← startsWith_raised isWordStart_caseBlind same,
    one '/' (Text.caseBlind_of_ascii (by decide)),
    two 'E' 'e' (Text.caseBlind_of_ascii (by decide)),
    two 'X' 'x' (Text.caseBlind_of_ascii (by decide)),
    two 'B' 'b' (Text.caseBlind_of_ascii (by decide)),
    one '.' (Text.caseBlind_of_ascii (by decide)), one '$' (Text.caseBlind_of_ascii (by decide)),
    one ':' (Text.caseBlind_of_ascii (by decide)), ← blind_eq Text.isDigit_caseBlind first,
    ← blind_eq isWordStart_caseBlind first, ← blind_eq (quotes_caseBlind d) first]
  simp only [quoted]

theorem steady_scan {d : Dialect} {c : Char} {rest : List Char} {read : List Char → Scan}
    (inner : Steady read [c] rest)
    (reads : ∀ rest', raised rest = raised rest' → scan d c rest' = read rest') :
    Steady (scan d c) [c] rest := by
  obtain ⟨taken, source, again⟩ := inner
  have here := reads rest rfl
  refine ⟨taken, by rw [here, source], fun left same => ?_⟩
  have covers := (scan_covers d c rest).whole
  rw [here, source, List.singleton_append, List.cons_append] at covers
  rw [here] at same ⊢
  have resumed : raised rest = raised (taken ++ left) := by
    rw [← (List.cons.inj covers).2]
    exact raised_after taken same
  rw [reads _ resumed, again left same]

theorem Steady.tail {read : List Char → Scan} {c mark : Char}
    (inner : Steady read [c, mark] rest.tail) : Steady (fun rest => read rest.tail) [c] rest := by
  obtain ⟨taken, source, again⟩ := inner
  exact ⟨mark :: taken, source, again⟩

theorem Steady.cons {read : List Char → Scan} {c : Char} (inner : Steady read [] (c :: rest))
    (covers : (read (c :: rest)).Covers (c :: rest)) :
    Steady (fun rest => read (c :: rest)) [c] rest := by
  obtain ⟨taken, source, again⟩ := inner
  rw [List.nil_append] at source
  have nonempty := covers.nonempty
  have whole := covers.whole
  rw [source] at nonempty whole
  obtain ⟨first, taken, rfl⟩ := List.exists_cons_of_ne_nil nonempty
  obtain ⟨rfl, -⟩ := List.cons.inj whole
  exact ⟨taken, source, again⟩

/-- A token is read as it is when letters behind it change their case. -/
theorem scan_steady (d : Dialect) (c : Char) (rest : List Char) : Steady (scan d c) [c] rest := by
  have covers := scan_covers d c rest
  have reads {rest'} (same : raised rest = raised rest') := scan_recased d (Eq.refl c.toUpper) same
  revert covers
  fun_cases scan d c rest with
  | case1 h1 =>
      intro _
      let unterminated (rest : List Char) : Scan :=
        ⟨.invalid "Unterminated block comment", c :: rest, []⟩
      have inner : Steady unterminated [c] rest := steady_whole rfl
      refine steady_scan inner fun rest' same => ?_
      rw [reads same, if_pos h1]
  | case2 h1 mark =>
      intro _
      subst mark
      refine steady_scan (string_steady rest) fun rest' same => ?_
      rw [reads same, if_neg h1, if_pos rfl]
  | case3 h1 h2 mark =>
      intro _
      refine steady_scan (escapedString_steady c rest.tail).tail fun rest' same => ?_
      rw [reads same, if_neg h1, if_neg h2, if_pos mark]
  | case4 h1 h2 h3 mark =>
      intro _
      refine steady_scan (bitsBody_steady true ['\x27', c] [] rest.tail).tail fun rest' same => ?_
      rw [reads same, if_neg h1, if_neg h2, if_neg h3, if_pos mark]
  | case5 h1 h2 h3 h4 mark =>
      intro _
      refine steady_scan (bitsBody_steady false ['\x27', c] [] rest.tail).tail fun rest' same => ?_
      rw [reads same, if_neg h1, if_neg h2, if_neg h3, if_neg h4, if_pos mark]
  | case6 h1 h2 h3 h4 h5 starts =>
      intro covers
      refine steady_scan ((number_steady (c :: rest)).cons covers) fun rest' same => ?_
      rw [reads same, if_neg h1, if_neg h2, if_neg h3, if_neg h4, if_neg h5, if_pos starts]
  | case7 h1 h2 h3 h4 h5 h6 starts =>
      intro covers
      refine steady_scan ((word_steady (c :: rest)).cons covers) fun rest' same => ?_
      rw [reads same, if_neg h1, if_neg h2, if_neg h3, if_neg h4, if_neg h5, if_neg h6,
        if_pos starts]
  | case8 h1 h2 h3 h4 h5 h6 h7 quoting =>
      intro _
      have quote := isQuote_caseBlind d c (List.contains_iff_mem.mp quoting)
      refine steady_scan (quotedName_steady quote rest) fun rest' same => ?_
      rw [reads same, if_neg h1, if_neg h2, if_neg h3, if_neg h4, if_neg h5, if_neg h6, if_neg h7,
        if_pos quoting]
  | case9 h1 h2 h3 h4 h5 h6 h7 h8 mark =>
      intro _
      obtain rfl : c = '$' := by
        simp only [Bool.and_eq_true, decide_eq_true_eq] at mark
        exact mark.1
      refine steady_scan (dollar_steady rest) fun rest' same => ?_
      rw [reads same, if_neg h1, if_neg h2, if_neg h3, if_neg h4, if_neg h5, if_neg h6, if_neg h7,
        if_neg h8, if_pos mark]
  | case10 h1 h2 h3 h4 h5 h6 h7 h8 h9 mark =>
      intro _
      obtain rfl : c = ':' := by
        simp only [Bool.and_eq_true, decide_eq_true_eq] at mark
        exact mark.1.1
      refine steady_scan (namedParameter_steady rest) fun rest' same => ?_
      rw [reads same, if_neg h1, if_neg h2, if_neg h3, if_neg h4, if_neg h5, if_neg h6, if_neg h7,
        if_neg h8, if_neg h9, if_pos mark]
  | case11 h1 h2 h3 h4 h5 h6 h7 h8 h9 h10 =>
      intro _
      refine steady_scan (punctuation_steady c rest) fun rest' same => ?_
      rw [reads same, if_neg h1, if_neg h2, if_neg h3, if_neg h4, if_neg h5, if_neg h6, if_neg h7,
        if_neg h8, if_neg h9, if_neg h10]

end Lexer
end SqlAudit
