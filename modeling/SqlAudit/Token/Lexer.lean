import SqlAudit.Dialect
import SqlAudit.Text.Blank
import SqlAudit.Token
/-!
From characters to tokens. `scan` reads one token off a text that starts with no layout, `layout`
the blanks and comments before it, and `tokenize` alternates the two up to the end of the text.
Each of them returns the characters it took and the characters that are left.
-/
namespace SqlAudit

/-- A lexeme, the characters it was written with and those after it. -/
structure Scan where
  lexeme : Lexeme
  source : List Char
  rest : List Char
  deriving DecidableEq, Repr

namespace Lexer

/-- The bytes of a text. -/
def size : List Char → Nat
  | [] => 0
  | c :: rest => c.utf8Size + size rest

/-- A block comment after its opening, `depth` levels deep: comments nest. -/
def comment : Nat → List Char → Option (List Char × List Char)
  | 0, chars => some ([], chars)
  | _ + 1, [] => none
  | depth + 1, '*' :: '/' :: rest =>
    (comment depth rest).map fun (taken, rest) => ('*' :: '/' :: taken, rest)
  | depth + 1, '/' :: '*' :: rest =>
    (comment (depth + 2) rest).map fun (taken, rest) => ('/' :: '*' :: taken, rest)
  | depth + 1, c :: rest =>
    (comment (depth + 1) rest).map fun (taken, rest) => (c :: taken, rest)

/-- One blank or one comment. A block comment that does not end is none. -/
def layoutItem? : List Char → Option (List Char × List Char)
  | '-' :: '-' :: rest =>
    some ('-' :: '-' :: rest.takeWhile (· != '\n'), rest.dropWhile (· != '\n'))
  | '/' :: '*' :: rest =>
    (comment 1 rest).map fun (taken, rest) => ('/' :: '*' :: taken, rest)
  | c :: rest => if Text.isBlank c then some ([c], rest) else none
  | [] => none

/-- Blanks and comments as far as they go, at most `fuel` of them. -/
def layout : Nat → List Char → List Char × List Char
  | 0, chars => ([], chars)
  | fuel + 1, chars =>
    match layoutItem? chars with
    | some (taken, rest) =>
      let (more, rest) := layout fuel rest
      (taken ++ more, rest)
    | none => ([], chars)

def isWordStart (c : Char) : Bool := Text.isLetter c || c == '_'

def isNamePart (c : Char) : Bool := Text.isLetterOrNumeral c || c == '_'

def isWordPart (c : Char) : Bool := isNamePart c || c == '$'

def word (chars : List Char) : Scan :=
  let source := chars.takeWhile isWordPart
  let text := String.ofList source
  ⟨match Keyword.ofText? text with
    | some k => .keyword k
    | none => .word text, source, chars.dropWhile isWordPart⟩

/-- The text up to a closing quote, in which a doubled quote stands for one: its value, its
characters with the closing quote, and the rest. -/
def quotedBody (quote : Char) : List Char → Option (List Char × List Char × List Char)
  | [] => none
  | c :: rest =>
    if c = quote then
      match rest with
      | [] => some ([], [c], [])
      | d :: more =>
        if d = quote then
          (quotedBody quote more).map fun (value, taken, rest) =>
            (quote :: value, c :: d :: taken, rest)
        else some ([], [c], d :: more)
    else (quotedBody quote rest).map fun (value, taken, rest) => (c :: value, c :: taken, rest)

/-- A name between quotes; the first character is the opening quote. -/
def quotedName (quote : Char) (rest : List Char) : Scan :=
  match quotedBody quote rest with
  | none => ⟨.invalid "Unterminated quoted identifier", quote :: rest, []⟩
  | some ([], taken, rest) => ⟨.invalid "Zero-length quoted identifier", quote :: taken, rest⟩
  | some (value, taken, rest) => ⟨.quoted (String.ofList value), quote :: taken, rest⟩

def unterminatedString (source : List Char) : Scan :=
  ⟨.invalid "Unterminated string literal", source, []⟩

def string (rest : List Char) : Scan :=
  match quotedBody '\x27' rest with
  | none => unterminatedString ('\x27' :: rest)
  | some (value, taken, rest) => ⟨.string (String.ofList value), '\x27' :: taken, rest⟩

/-- What a character stands for after a backslash. -/
def unescape (c : Char) : Char :=
  if c = 'n' then '\n'
  else if c = 't' then '\t'
  else if c = 'r' then '\r'
  else if c = 'b' then Char.ofNat 8
  else if c = 'f' then Char.ofNat 12
  else c

/-- As `quotedBody`, with backslash escapes. -/
def escapedBody : List Char → Option (List Char × List Char × List Char)
  | [] => none
  | [c] => if c = '\x27' then some ([], [c], []) else none
  | c :: d :: rest =>
    if c = '\x27' then
      if d = '\x27' then
        (escapedBody rest).map fun (value, taken, rest) => ('\x27' :: value, c :: d :: taken, rest)
      else some ([], [c], d :: rest)
    else if c = '\\' then
      (escapedBody rest).map fun (value, taken, rest) =>
        (unescape d :: value, c :: d :: taken, rest)
    else
      (escapedBody (d :: rest)).map fun (value, taken, rest) => (c :: value, c :: taken, rest)

/-- A string with escapes; `mark` is the E before its quote. -/
def escapedString (mark : Char) (rest : List Char) : Scan :=
  match escapedBody rest with
  | none => unterminatedString (mark :: '\x27' :: rest)
  | some (value, taken, rest) => ⟨.string (String.ofList value), mark :: '\x27' :: taken, rest⟩

def isBitDigit (hex : Bool) (c : Char) : Bool :=
  if hex then Text.isHexDigit c else c == '0' || c == '1'

/-- The digits of a bit string up to its closing quote; blanks between them do not count. A wrong
character makes the literal invalid up to its next quote. -/
def bitsBody (hex : Bool) (source digits : List Char) : List Char → Scan
  | [] => ⟨.invalid "Unterminated bit string literal", source.reverse, []⟩
  | c :: rest =>
    if c = '\x27' then ⟨.bits (String.ofList digits.reverse), (c :: source).reverse, rest⟩
    else if isBitDigit hex c then bitsBody hex (c :: source) (c :: digits) rest
    else if Text.isBlank c then bitsBody hex (c :: source) digits rest
    else
      let skipped := rest.takeWhile (· != '\x27')
      let left := rest.dropWhile (· != '\x27')
      ⟨.invalid ("Invalid character in bit string literal: " ++ String.singleton c),
        (c :: source).reverse ++ skipped ++ left.take 1, left.drop 1⟩

/-- Splits a text at the first occurrence of `mark`. -/
def splitAt (mark : List Char) : List Char → Option (List Char × List Char)
  | [] => if mark.isEmpty then some ([], []) else none
  | c :: rest =>
    if mark.isPrefixOf (c :: rest) then some ([], (c :: rest).drop mark.length)
    else (splitAt mark rest).map fun (body, rest) => (c :: body, rest)

/-- What follows a dollar sign: a numbered parameter, or a string between two equal tags. -/
def dollar (rest : List Char) : Scan :=
  let digits := rest.takeWhile Char.isDigit
  if !digits.isEmpty then
    ⟨.parameter (String.ofList ('$' :: digits)), '$' :: digits, rest.dropWhile Char.isDigit⟩
  else
    let tag := rest.takeWhile isNamePart
    match rest.dropWhile isNamePart with
    | '$' :: text =>
      let mark := '$' :: tag ++ ['$']
      match splitAt mark text with
      | some (body, rest) => ⟨.string (String.ofList body), mark ++ body ++ mark, rest⟩
      | none => ⟨.invalid "Unterminated dollar-quoted string", '$' :: rest, []⟩
    | _ => ⟨.invalid "Unexpected character: $", ['$'], rest⟩

/-- A point and digits; two points in a row are none. -/
def fraction (chars : List Char) : List Char × List Char :=
  match chars with
  | '.' :: rest =>
    if rest.head? == some '.' then ([], chars)
    else ('.' :: rest.takeWhile Char.isDigit, rest.dropWhile Char.isDigit)
  | _ => ([], chars)

/-- An E, a sign and at least one digit. -/
def exponent (chars : List Char) : List Char × List Char :=
  match chars with
  | e :: rest =>
    if e = 'e' || e = 'E' then
      let sign := rest.take 1 |>.filter fun c => c == '+' || c == '-'
      let digits := (rest.drop sign.length).takeWhile Char.isDigit
      if digits.isEmpty then ([], chars)
      else (e :: sign ++ digits, (rest.drop sign.length).dropWhile Char.isDigit)
    else ([], chars)
  | [] => ([], [])

/-- A number; one that runs into a name is invalid. -/
def number (chars : List Char) : Scan :=
  let whole := chars.takeWhile Char.isDigit
  let (point, rest) := fraction (chars.dropWhile Char.isDigit)
  let (power, rest) := exponent rest
  let source := whole ++ point ++ power
  if (rest.head?.map isWordStart).getD false then
    let source := source ++ rest.takeWhile isNamePart
    ⟨.invalid ("Invalid numeric literal: " ++ String.ofList source), source,
      rest.dropWhile isNamePart⟩
  else ⟨.number (String.ofList source), source, rest⟩

/-- Everything with a fixed spelling. Of two spellings that start alike the longer stands first. -/
def spellings : List (List Char × Lexeme) := [
  (['('], .symbol .openParen), ([')'], .symbol .closeParen),
  (['['], .symbol .openBracket), ([']'], .symbol .closeBracket),
  ([','], .symbol .comma), ([';'], .symbol .semicolon), (['.'], .symbol .dot),
  ([':', ':'], .symbol .doubleColon), ([':'], .symbol .colon),
  (['+'], .symbol .plus),
  (['-', '>', '>'], .operator "->>"), (['-', '>'], .operator "->"), (['-'], .symbol .minus),
  (['*'], .symbol .star), (['/'], .symbol .slash), (['%'], .symbol .percent),
  (['^'], .symbol .caret), (['='], .symbol .equal),
  (['<', '='], .symbol .lessEqual), (['<', '>'], .symbol .notEqual),
  (['<', '<'], .symbol .shiftLeft), (['<', '@'], .operator "<@"), (['<'], .symbol .less),
  (['>', '='], .symbol .greaterEqual), (['>', '>'], .symbol .shiftRight),
  (['>'], .symbol .greater),
  (['!', '='], .symbol .notEqual), (['!', '~', '*'], .operator "!~*"),
  (['!', '~'], .operator "!~"),
  (['~', '*'], .operator "~*"), (['~', '~'], .operator "~~"), (['~'], .symbol .bitNot),
  (['@', '>'], .operator "@>"), (['@'], .operator "@"),
  (['#', '>', '>'], .operator "#>>"), (['#', '>'], .operator "#>"), (['#'], .operator "#"),
  (['|', '|'], .symbol .concat), (['|'], .symbol .bitOr),
  (['&', '&'], .operator "&&"), (['&'], .symbol .bitAnd),
  (['?'], .parameter "?")]

/-- The token with the longest fixed spelling, else an unexpected character. -/
def punctuation (c : Char) (rest : List Char) : Scan :=
  match spellings.find? fun entry => entry.1.isPrefixOf (c :: rest) with
  | some (spelling, lexeme) => ⟨lexeme, spelling, (c :: rest).drop spelling.length⟩
  | none => ⟨.invalid ("Unexpected character: " ++ String.singleton c), [c], rest⟩

def namedParameter (rest : List Char) : Scan :=
  let source := ':' :: rest.takeWhile isNamePart
  ⟨.parameter (String.ofList source), source, rest.dropWhile isNamePart⟩

/-- Some character follows, and `p` holds of it. -/
def startsWith (p : Char → Bool) (chars : List Char) : Bool := (chars.head?.map p).getD false

/-- The token that starts with `c`. Layout has been read; a comment that is left does not end. -/
def scan (d : Dialect) (c : Char) (rest : List Char) : Scan :=
  if c = '/' && startsWith (· == '*') rest then
    ⟨.invalid "Unterminated block comment", c :: rest, []⟩
  else if c = '\x27' then string rest
  else if (c = 'E' || c = 'e') && startsWith (· == '\x27') rest && d.hasEscapeStrings then
    escapedString c rest.tail
  else if (c = 'X' || c = 'x') && startsWith (· == '\x27') rest then
    bitsBody true ['\x27', c] [] rest.tail
  else if (c = 'B' || c = 'b') && startsWith (· == '\x27') rest then
    bitsBody false ['\x27', c] [] rest.tail
  else if c.isDigit || (c = '.' && startsWith Char.isDigit rest) then number (c :: rest)
  else if isWordStart c then word (c :: rest)
  else if d.quotes.contains c then quotedName c rest
  else if c = '$' && d.hasDollarQuotes then dollar rest
  else if c = ':' && d.hasNamedParameters && startsWith isWordStart rest then namedParameter rest
  else punctuation c rest

/-- The tokens of `chars`, which stand `offset` bytes into the text, with the end of the text as
the last one. -/
def tokens (d : Dialect) : Nat → Nat → List Char → List Token
  | 0, offset, _ => [⟨.finish, ⟨offset, offset⟩⟩]
  | fuel + 1, offset, chars =>
    let (gap, rest) := layout fuel chars
    let start := offset + size gap
    match rest with
    | [] => [⟨.finish, ⟨start, start⟩⟩]
    | c :: rest =>
      let read := scan d c rest
      let stop := start + size read.source
      ⟨read.lexeme, ⟨start, stop⟩⟩ :: tokens d fuel stop read.rest

end Lexer

/-- The tokens of a text, each taking at least one of its characters. -/
def tokenize (d : Dialect) (text : String) : List Token :=
  Lexer.tokens d (text.toList.length + 1) 0 text.toList

end SqlAudit
