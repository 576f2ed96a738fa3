import SqlAudit.Proofs.Token.Locality
/-!
Texts between quotes. Whatever a text is, it can be written as a string, as a string with escapes and,
unless it is empty, as a name between quotes: what the scanners take from it is the text, and they
stop at the quote that closes it and at no other one.
-/
namespace SqlAudit

namespace Lexer

variable {d : Dialect} {quote c : Char} {rest : List Char}

/-- A text in which each quote is doubled. -/
def doubled (quote : Char) (chars : List Char) : List Char :=
  chars.flatMap fun c => if c = quote then [c, c] else [c]

/-- A text with a backslash in front of each backslash and of each quote. -/
def escaped (chars : List Char) : List Char :=
  chars.flatMap fun c => if c = '\\' ∨ c = '\x27' then ['\\', c] else [c]

theorem doubled_quote (chars : List Char) :
    doubled quote (quote :: chars) = quote :: quote :: doubled quote chars := by
  simp [doubled]

theorem doubled_other (other : c ≠ quote) (chars : List Char) :
    doubled quote (c :: chars) = c :: doubled quote chars := by
  simp [doubled, other]

theorem escaped_marked (marked : c = '\\' ∨ c = '\x27') (chars : List Char) :
    escaped (c :: chars) = '\\' :: c :: escaped chars := by
  simp [escaped, marked]

theorem escaped_plain (plain : ¬(c = '\\' ∨ c = '\x27')) (chars : List Char) :
    escaped (c :: chars) = c :: escaped chars := by
  simp [escaped, plain]

/-- The closing quote is the first one that is not doubled. -/
theorem quotedBody_doubled (ends : startsWith (· == quote) rest = false) (value : List Char) :
    quotedBody quote (doubled quote value ++ quote :: rest) =
      some (value, doubled quote value ++ [quote], rest) := by
  induction value with
  | nil =>
      cases rest with
      | nil => simp [doubled, quotedBody]
      | cons c rest =>
          have other : c ≠ quote := by simpa [startsWith] using ends
          simp [doubled, quotedBody, other]
  | cons c value ih =>
      by_cases same : c = quote
      · subst same
        simp [doubled_quote, quotedBody, ih]
      · rw [doubled_other same, List.cons_append, quotedBody.eq_def]
        simp [same, ih]

theorem unescape_marked (marked : c = '\\' ∨ c = '\x27') : unescape c = c := by
  rcases marked with rfl | rfl <;> rfl

/-- The closing quote is the first one that no backslash stands in front of. -/
theorem escapedBody_escaped (ends : startsWith (· == '\x27') rest = false) (value : List Char) :
    escapedBody (escaped value ++ '\x27' :: rest) =
      some (value, escaped value ++ ['\x27'], rest) := by
  induction value with
  | nil =>
      cases rest with
      | nil => rfl
      | cons c rest =>
          have other : c ≠ '\x27' := by simpa [startsWith] using ends
          simp [escaped, escapedBody, other]
  | cons c value ih =>
      by_cases marked : c = '\\' ∨ c = '\x27'
      · rw [escaped_marked marked, List.cons_append, List.cons_append, escapedBody,
          if_neg (by decide), if_pos rfl, ih, unescape_marked marked]
        rfl
      · obtain ⟨notBackslash, notQuote⟩ := not_or.mp marked
        rw [escaped_plain marked, List.cons_append]
        -- The scanner looks at two characters at once, and there is a second one in any case.
        obtain ⟨next, more, same⟩ : ∃ next more, escaped value ++ '\x27' :: rest = next :: more :=
          List.exists_cons_of_ne_nil (by simp)
        rw [same] at ih ⊢
        rw [escapedBody, if_neg notQuote, if_neg notBackslash, ih]
        rfl

/-- A text of one token, which takes all of it. -/
theorem tokenize_single {text : String} {lexeme : Lexeme} (chars : text.toList = c :: rest)
    (plain : layoutItem? (c :: rest) = none) (read : scan d c rest = ⟨lexeme, c :: rest, []⟩) :
    tokenize d text = [⟨lexeme, ⟨0, text.utf8ByteSize⟩⟩,
      ⟨.finish, ⟨text.utf8ByteSize, text.utf8ByteSize⟩⟩] := by
  have last : Lexes d (0 + size [] + size (scan d c rest).source) (scan d c rest).rest
      [⟨.finish, ⟨size (c :: rest), size (c :: rest)⟩⟩] := by
    rw [read]
    simpa [size] using @Lexes.finish d (size (c :: rest)) [] (.done rfl)
  have lexes := Lexes.token (.done plain) last
  rw [read, List.nil_append, ← chars] at lexes
  have same := (tokenize_lexes d text).unique lexes
  simpa [size, ← size_toList, chars] using same

theorem scan_string (value : List Char) : scan d '\x27' (doubled '\x27' value ++ ['\x27']) =
    ⟨.string (String.ofList value), '\x27' :: doubled '\x27' value ++ ['\x27'], []⟩ := by
  have body := @quotedBody_doubled '\x27' [] rfl value
  simp [scan, string, body]

theorem scan_escapedString (value : List Char) :
    scan .postgres 'E' ('\x27' :: (escaped value ++ ['\x27'])) =
      ⟨.string (String.ofList value), 'E' :: '\x27' :: (escaped value ++ ['\x27']), []⟩ := by
  have body := @escapedBody_escaped [] rfl value
  simp [scan, startsWith, Dialect.hasEscapeStrings, escapedString, body]

/-- A quote opens a name and is neither layout nor the start of another token. -/
theorem quote_opens (opens : quote ∈ d.quotes) (rest : List Char) :
    layoutItem? (quote :: rest) = none ∧ scan d quote rest = quotedName quote rest := by
  cases d with
  | postgres =>
      obtain rfl := List.mem_singleton.mp opens
      exact ⟨rfl, rfl⟩
  | generic =>
      have either : quote = '"' ∨ quote = '\x60' := by simpa [Dialect.quotes] using opens
      rcases either with rfl | rfl <;> exact ⟨rfl, rfl⟩

theorem scan_quotedName (opens : quote ∈ d.quotes) {value : List Char} (some : value ≠ []) :
    scan d quote (doubled quote value ++ [quote]) =
      ⟨.quoted (String.ofList value), quote :: doubled quote value ++ [quote], []⟩ := by
  rw [(quote_opens opens _).2, quotedName, quotedBody_doubled rfl]
  cases value with
  | nil => exact absurd rfl some
  | cons c value => rfl

end Lexer

/-- The text between two quotes, with each quote in it doubled. -/
def inQuotes (quote : Char) (text : String) : String :=
  String.ofList (quote :: Lexer.doubled quote text.toList ++ [quote])

/-- The text as a string with escapes. -/
def withEscapes (text : String) : String :=
  String.ofList ('E' :: '\x27' :: (Lexer.escaped text.toList ++ ['\x27']))

/-- The text is this one token from its start to its end. -/
def IsToken (d : Dialect) (text : String) (lexeme : Lexeme) : Prop :=
  tokenize d text = [⟨lexeme, ⟨0, text.utf8ByteSize⟩⟩,
    ⟨.finish, ⟨text.utf8ByteSize, text.utf8ByteSize⟩⟩]

/-- Every text is read back from its quotes: as a string, as a string with escapes where the dialect
has them, and, if it is not empty, as a name between quotes of any kind. -/
theorem quoting_read_back (text : String) :
    (∀ d, IsToken d (inQuotes '\x27' text) (.string text)) ∧
      IsToken .postgres (withEscapes text) (.string text) ∧
      (text ≠ "" → ∀ d, ∀ quote ∈ Dialect.quotes d,
        IsToken d (inQuotes quote text) (.quoted text)) := by
  refine ⟨fun d => ?_, ?_, fun some d quote opens => ?_⟩
  · have scanned := Lexer.scan_string (d := d) text.toList
    rw [String.ofList_toList] at scanned
    exact Lexer.tokenize_single String.toList_ofList rfl scanned
  · have scanned := Lexer.scan_escapedString text.toList
    rw [String.ofList_toList] at scanned
    exact Lexer.tokenize_single String.toList_ofList rfl scanned
  · have chars : text.toList ≠ [] := by simpa [String.toList_eq_nil_iff] using some
    have scanned := Lexer.scan_quotedName opens chars
    rw [String.ofList_toList] at scanned
    exact Lexer.tokenize_single String.toList_ofList (Lexer.quote_opens opens _).1 scanned

/-- A text of quotes and backslashes alone, as a name of either kind. -/
theorem quotes_read_back : "\"\x60\\\"" ≠ "" ∧
    IsToken .generic (inQuotes '"' "\"\x60\\\"") (.quoted "\"\x60\\\"") ∧
    IsToken .generic (inQuotes '\x60' "\"\x60\\\"") (.quoted "\"\x60\\\"") := by
  have some : "\"\x60\\\"" ≠ "" := by decide
  have named := (quoting_read_back "\"\x60\\\"").2.2 some .generic
  exact ⟨some, named '"' (by decide), named '\x60' (by decide)⟩

end SqlAudit
