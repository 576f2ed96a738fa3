import SqlAudit.Proofs.Grammar.Names
/-!
Types that are spelled out. The parts of a type follow one another in a fixed order, each may be
missing, and a lexeme tells the part that it starts; so a part ends where a later one starts, or
something else that no part starts with.
-/
namespace SqlAudit

/-- The lexemes that the parts of a type start with: more of its name, its lengths, a time zone, the
fields of an interval, and array dimensions. -/
def typeParts : List (List TokenClass) := [
  [.symbols [.dot], .words ["VARYING"]],
  [.symbols [.openParen]],
  [.keywords [.WITH], .words ["WITHOUT"]],
  [.words ["YEAR", "MONTH", "DAY", "HOUR", "MINUTE", "SECOND"], .keywords [.TO]],
  [.symbols [.openBracket], .words ["ARRAY"]]]

/-- The first part of a type that the lexeme can start. -/
def Lexeme.typePart (lexeme : Lexeme) : Nat :=
  typeParts.findIdx fun classes => classes.any (·.holds lexeme)

theorem not_typePart {lexeme : Lexeme} {part : Nat} (later : part < lexeme.typePart)
    {classes : List TokenClass} (found : typeParts[part]? = some classes) :
    ∀ tokens ∈ classes, tokens.holds lexeme = false := by
  obtain ⟨within, rfl⟩ := List.getElem?_eq_some_iff.mp found
  have none := List.not_of_lt_findIdx later
  simpa using none

/-- VARYING, which may be missing. -/
inductive IsVarying : List Lexeme → Prop
  | nil : IsVarying []
  | word {word : Lexeme} (varying : word.Means "VARYING") : IsVarying [word]

/-- The name of a type that is neither a time nor an interval with fields. -/
inductive IsTypeName : List Lexeme → Prop
  | path {name : Lexeme} {tail : List Lexeme} (named : name.IsName)
      (common : Spelling.lowered.of name ∉
        ["double", "national", "character", "char", "bit", "timestamp", "time"])
      (rest : IsTail tail) : IsTypeName (name :: tail)
  | double {name precision : Lexeme} (named : name.IsName)
      (double : Spelling.lowered.of name = "double") (precise : precision.Means "PRECISION") :
      IsTypeName [name, precision]
  | national {name other : Lexeme} {varying : List Lexeme} (named : name.IsName)
      (national : Spelling.lowered.of name = "national") (further : other.IsName)
      (rest : IsVarying varying) : IsTypeName (name :: other :: varying)
  | characters {name : Lexeme} {varying : List Lexeme} (named : name.IsName)
      (characters : Spelling.lowered.of name ∈ ["character", "char", "bit"])
      (rest : IsVarying varying) : IsTypeName (name :: varying)

/-- Lengths in parentheses, which may be missing. -/
inductive IsLengths : List Lexeme → Prop
  | nil : IsLengths []
  | group {inner : List Lexeme} (balanced : IsBalanced inner) :
      IsLengths (.symbol .openParen :: inner ++ [.symbol .closeParen])

/-- Whether times have a zone, which may be missing. -/
inductive IsZone : List Lexeme → Prop
  | nil : IsZone []
  | zone {time zone : Lexeme} (second : time.Means "TIME") (third : zone.Means "ZONE") :
      IsZone [.keyword .WITH, time, zone]
  | noZone {without time zone : Lexeme} (first : without.Means "WITHOUT")
      (second : time.Means "TIME") (third : zone.Means "ZONE") : IsZone [without, time, zone]

/-- A field of an interval, or the word between two of them. -/
def Lexeme.IsField (lexeme : Lexeme) : Prop :=
  ((TokenClass.words ["YEAR", "MONTH", "DAY", "HOUR", "MINUTE", "SECOND"]).holds lexeme ||
    (TokenClass.keywords [.TO]).holds lexeme) = true

/-- One array dimension, with or without its length. -/
inductive IsBrackets : List Lexeme → Prop
  | empty : IsBrackets [.symbol .openBracket, .symbol .closeBracket]
  | sized (text : String) : IsBrackets [.symbol .openBracket, .number text, .symbol .closeBracket]

/-- Array dimensions. The word alone stands for one of no length. -/
inductive IsDimensions : List Lexeme → Prop
  | nil : IsDimensions []
  | brackets {brackets lexemes : List Lexeme} (one : IsBrackets brackets)
      (rest : IsDimensions lexemes) : IsDimensions (brackets ++ lexemes)
  | sized {array : Lexeme} {brackets lexemes : List Lexeme} (word : array.Means "ARRAY")
      (one : IsBrackets brackets) (rest : IsDimensions lexemes) :
      IsDimensions (array :: brackets ++ lexemes)
  | array {array : Lexeme} {lexemes : List Lexeme} (word : array.Means "ARRAY")
      (alone : lexemes.head? ≠ some (.symbol .openBracket)) (rest : IsDimensions lexemes) :
      IsDimensions (array :: lexemes)

/-- A type. -/
inductive IsType : List Lexeme → Prop
  | common {name lengths dimensions : List Lexeme} (named : IsTypeName name)
      (sized : IsLengths lengths) (array : IsDimensions dimensions) :
      IsType (name ++ lengths ++ dimensions)
  | time {name : Lexeme} {lengths zone dimensions : List Lexeme} (named : name.IsName)
      (time : Spelling.lowered.of name ∈ ["timestamp", "time"]) (sized : IsLengths lengths)
      (zoned : IsZone zone) (array : IsDimensions dimensions) :
      IsType (name :: lengths ++ zone ++ dimensions)
  | interval {name : Lexeme} {lengths fields dimensions : List Lexeme} (named : name.IsName)
      (interval : Spelling.lowered.of name = "interval") (sized : IsLengths lengths)
      (fielded : ∀ lexeme ∈ fields, lexeme.IsField) (array : IsDimensions dimensions) :
      IsType (name :: lengths ++ fields ++ dimensions)

variable {lexemes : List Lexeme}

theorem typePart_without {lexeme : Lexeme} (means : lexeme.Means "WITHOUT") :
    lexeme.typePart = 2 := by
  obtain ⟨text, rfl, capitals⟩ := means.exists
  simp [Lexeme.typePart, typeParts, List.findIdx_cons, TokenClass.holds, capitals]

theorem typePart_array {lexeme : Lexeme} (means : lexeme.Means "ARRAY") :
    lexeme.typePart = 4 := by
  obtain ⟨text, rfl, capitals⟩ := means.exists
  simp [Lexeme.typePart, typeParts, List.findIdx_cons, TokenClass.holds, capitals]

theorem typePart_field {lexeme : Lexeme} (field : lexeme.IsField) : lexeme.typePart = 3 := by
  unfold Lexeme.IsField at field
  cases lexeme with
  | word text =>
      have listed : Text.capitals text ∈ ["YEAR", "MONTH", "DAY", "HOUR", "MINUTE", "SECOND"] := by
        simpa [TokenClass.holds] using field
      simp only [List.mem_cons, List.not_mem_nil, or_false] at listed
      rcases listed with capitals | capitals | capitals | capitals | capitals | capitals <;>
        simp [Lexeme.typePart, typeParts, List.findIdx_cons, TokenClass.holds, capitals]
  | keyword k =>
      have between : k = .TO := by simpa [TokenClass.holds] using field
      rw [between]
      rfl
  | _ => cases field

theorem IsDimensions.starts (array : IsDimensions lexemes) :
    ∀ first ∈ lexemes.head?, 4 ≤ first.typePart := by
  intro first member
  cases array with
  | nil => cases member
  | brackets one rest => cases one <;> cases member <;> decide
  | sized word one rest =>
      cases member
      rw [typePart_array word]
  | array word alone rest =>
      cases member
      rw [typePart_array word]

theorem IsZone.starts (zoned : IsZone lexemes) : ∀ first ∈ lexemes.head?, 2 ≤ first.typePart := by
  intro first member
  cases zoned with
  | nil => cases member
  | zone second third =>
      cases member
      decide
  | noZone word second third =>
      cases member
      rw [typePart_without word]

theorem IsLengths.starts (sized : IsLengths lexemes) :
    ∀ first ∈ lexemes.head?, 1 ≤ first.typePart := by
  intro first member
  cases sized with
  | nil => cases member
  | group balanced =>
      cases member
      decide

namespace Grammar

variable {call : Nonterminal → Frame → Cursor → Reading} {f : Frame} {c d : Cursor}

/-- Where a part of a type can be missing, what comes next is told by its own first lexeme or by
what follows it. -/
theorem typePart_passes (part : Nat) (passes : c.Passes lexemes d)
    (ends : part ≤ d.current.lexeme.typePart)
    (starts : ∀ first ∈ lexemes.head?, part ≤ first.typePart) :
    part ≤ c.current.lexeme.typePart := by
  cases lexemes with
  | nil => rwa [← show d = c from passes]
  | cons first lexemes =>
      rw [passes.1]
      exact starts first rfl

variable (call) in
theorem read_varying (varying : IsVarying lexemes) (passes : c.Passes lexemes d)
    (later : 0 < d.current.lexeme.typePart) (f : Frame) :
    ∃ value, read call (whenever (word "VARYING") (.take ++ .write " varying")) f c =
      .ok ({ f with value := value }, d) := by
  cases varying with
  | nil =>
      cases passes
      have other : (word "VARYING").holds f c = false :=
        not_typePart later rfl (.words ["VARYING"]) (by decide)
      exact ⟨f.value, by rw [whenever, read_no other, read]⟩
  | word varying =>
      obtain ⟨here, -, rfl⟩ := passes
      rw [← here] at varying
      have goes : (word "VARYING").holds f c = true := varying
      exact ⟨_, by rw [whenever, read_yes goes]; rfl⟩

theorem valueIn_write {values : List String} {text : String} (unnamed : f.value = none) :
    (Test.valueIn values).holds (f.write text) c = values.contains text := by
  simp [Test.holds, Frame.write, unnamed]

/-- A name that no words belong to can go on after a dot. -/
theorem read_typeWords {text : String} (unnamed : f.value = none) (common : text ∉
    ["double", "national", "character", "char", "bit", "timestamp", "time"]) :
    read call typeWords (f.write text) c =
      read call (.loop (symbol .dot) (.take ++ .write "." ++ name)) (f.write text) c := by
  simp only [List.mem_cons, List.not_mem_nil, or_false, not_or] at common
  rw [typeWords]
  simp only [choose]
  rw [read_no (by simp [valueIn_write unnamed, common]),
    read_no (by simp [valueIn_write unnamed, common]),
    read_no (by simp [valueIn_write unnamed, common]),
    read_no (by simp [valueIn_write unnamed, common])]

variable (call) in
/-- Times are told by their names alone. -/
theorem read_timeName (named : c.current.lexeme.IsName)
    (time : Spelling.lowered.of c.current.lexeme ∈ ["timestamp", "time"])
    (unnamed : f.value = none) :
    read call (.branch anyName (takeAs .lowered) (.fail "data type") ++ typeWords) f c =
      .ok (f.write (Spelling.lowered.of c.current.lexeme), c.advance) := by
  rw [read_append (read_lowered named), typeWords]
  simp only [choose]
  simp only [List.mem_cons, List.not_mem_nil, or_false] at time
  rcases time with same | same <;>
    rw [same, read_no (by simp [valueIn_write unnamed]), read_no (by simp [valueIn_write unnamed]),
      read_no (by simp [valueIn_write unnamed]), read_yes (by simp [valueIn_write unnamed]), read]

variable (call) in
/-- The words of a type's name are told by its first one. -/
theorem read_typeName (named : IsTypeName lexemes) (passes : c.Passes lexemes d)
    (later : 0 < d.current.lexeme.typePart) (unnamed : f.value = none) :
    ∃ value, read call (.branch anyName (takeAs .lowered) (.fail "data type") ++ typeWords) f c =
      .ok ({ f with value := value }, d) := by
  have dot := not_typePart later rfl (.symbols [.dot]) (by decide)
  cases named with
  | @path name tail named common rest =>
      obtain ⟨here, -, passes⟩ := passes
      rw [← here] at named common
      have rounds := tail_rounds call rest passes dot f (Spelling.lowered.of c.current.lexeme)
      refine ⟨(f.write (Spelling.lowered.of c.current.lexeme ++ dotted tail)).value, ?_⟩
      rw [read_append (read_lowered named), read_typeWords unnamed common, read_rounds rounds]
      rfl
  | double named double precise =>
      obtain ⟨here, -, next, -, rfl⟩ := passes
      rw [← here] at named double
      rw [← next] at precise
      have goes : (word "PRECISION").holds (f.write "double") c.advance = true := precise
      refine ⟨some "double precision", ?_⟩
      rw [read_append (read_lowered named), typeWords, choose,
        read_yes (by simp [valueIn_write unnamed, double]), double]
      rw [read_append (g := f.write "double") (d := c.advance.advance)
        (by rw [expectWord, expect, read_yes goes, read]), read]
      simp [Frame.write, unnamed]
  | national named national further rest =>
      obtain ⟨here, -, next, -, passes⟩ := passes
      rw [← here] at named national
      rw [← next] at further
      obtain ⟨value, varying⟩ := read_varying call rest passes later
        (((f.write "national").write " ").write (Spelling.lowered.of c.advance.current.lexeme))
      refine ⟨value, ?_⟩
      rw [read_append (read_lowered named), typeWords, choose,
        read_no (by simp [valueIn_write unnamed, national]), choose,
        read_yes (by simp [valueIn_write unnamed, national]), national]
      rw [read_append (g := ((f.write "national").write " ").write
        (Spelling.lowered.of c.advance.current.lexeme)) (d := c.advance.advance)
        (by rw [read_append (by rw [read]), read_name further]), varying]
      rfl
  | characters named characters rest =>
      obtain ⟨here, -, passes⟩ := passes
      rw [← here] at named characters
      obtain ⟨value, varying⟩ := read_varying call rest passes later
        (f.write (Spelling.lowered.of c.current.lexeme))
      have other : Spelling.lowered.of c.current.lexeme ∉ ["double", "national"] := by
        intro member
        simp only [List.mem_cons, List.not_mem_nil, or_false] at member characters
        rcases member with same | same <;> simp [same] at characters
      refine ⟨value, ?_⟩
      rw [read_append (read_lowered named), typeWords]
      simp only [choose]
      rw [read_no (by simp_all [valueIn_write]), read_no (by simp_all [valueIn_write]),
        read_yes (by simpa [valueIn_write unnamed] using characters), varying]
      rfl

theorem read_lengths (sized : IsLengths lexemes) {left : List Token} (passes : c.Passes lexemes d)
    (later : 1 < d.current.lexeme.typePart) (enough : c.rest.length < left.length) :
    read (callRule rules left) (whenever (symbol .openParen) group) f c = .ok (f, d) := by
  cases sized with
  | nil =>
      cases passes
      have other : (symbol .openParen).holds f c = false :=
        not_typePart later rfl (.symbols [.openParen]) (by decide)
      rw [read_absent other]
  | group balanced =>
      have here : c.current.lexeme = .symbol .openParen := passes.1
      rw [whenever, read_yes (by simp [symbol, Test.holds, here, TokenClass.holds]),
        read_balanced balanced passes enough]

theorem read_noZone (later : 2 < c.current.lexeme.typePart) :
    read call timeZone f c = .ok (f, c) := by
  have other := not_typePart later rfl
  have notWith := other (.keywords [.WITH]) (by decide)
  have notWithout := other (.words ["WITHOUT"]) (by decide)
  simp [timeZone, choose, read, keyword, word, Test.holds, notWith, notWithout]

variable (call) in
theorem read_zone (zoned : IsZone lexemes) (passes : c.Passes lexemes d)
    (later : 2 < d.current.lexeme.typePart) (f : Frame) :
    ∃ value, read call timeZone f c = .ok ({ f with value := value }, d) := by
  cases zoned with
  | nil =>
      cases passes
      exact ⟨f.value, read_noZone later⟩
  | zone second third =>
      obtain ⟨here, -, next, -, last, -, rfl⟩ := passes
      rw [← next] at second
      rw [← last] at third
      have time : TokenClass.holds (.words ["TIME"]) c.peek.lexeme = true := by
        rwa [← Cursor.advance_current]
      refine ⟨some (f.value.getD "" ++ " with time zone"), ?_⟩
      simp only [Lexeme.Means] at second third
      simp [timeZone, choose, append_eq_seq, read, keyword, word, nextWord, expectWord, expect,
        Test.holds, here, time, second, third]
      rfl
  | noZone first second third =>
      obtain ⟨here, -, next, -, last, -, rfl⟩ := passes
      obtain ⟨text, rfl, capitals⟩ := first.exists
      rw [← next] at second
      rw [← last] at third
      refine ⟨some (f.value.getD "" ++ " without time zone"), ?_⟩
      simp only [Lexeme.Means] at second third
      simp [timeZone, choose, append_eq_seq, read, keyword, word, nextWord, expectWord, expect,
        Test.holds, here, capitals, second, third]
      rfl

theorem read_intervalFields (fielded : ∀ lexeme ∈ lexemes, lexeme.IsField)
    (passes : c.Passes lexemes d) (later : 3 < d.current.lexeme.typePart) :
    read call intervalFields f c = .ok (f, d) := by
  apply read_rounds
  induction lexemes generalizing c with
  | nil =>
      cases passes
      have other := not_typePart later rfl
      have notField := other (.words ["YEAR", "MONTH", "DAY", "HOUR", "MINUTE", "SECOND"])
        (by decide)
      have notTo := other (.keywords [.TO]) (by decide)
      exact .done (by simp [words, keyword, Test.holds, notField, notTo])
  | cons field lexemes ih =>
      obtain ⟨here, more, passes⟩ := passes
      have goes : field.IsField := fielded field (.head _)
      rw [← here] at goes
      exact .round goes rfl (Cursor.advance_shorter more)
        (ih (fun lexeme member => fielded lexeme (.tail _ member)) passes)

theorem read_noFields (later : 3 < c.current.lexeme.typePart) :
    read call (whenever (.valueIn ["interval"]) intervalFields) f c = .ok (f, c) :=
  have nothing : c.Passes [] c := rfl
  read_whenever_nothing _ (read_intervalFields (List.forall_mem_nil _) nothing later)

variable (call f) in
/-- A dimension without the word for it, or after that word. -/
theorem read_brackets (one : IsBrackets lexemes) (passes : c.Passes lexemes d) :
    c.current.lexeme = .symbol .openBracket ∧ d.rest.length < c.rest.length ∧
      read call (.take ++ dimension) f c = .ok (f, d) := by
  have onward := passes.length
  cases one with
  | empty =>
      obtain ⟨opens, -, closes, -, rfl⟩ := passes
      refine ⟨opens, by simp at onward; omega, ?_⟩
      simp [dimension, accept, whenever, expectSymbol, expect, append_eq_seq, read, symbol,
        Test.holds, closes, TokenClass.holds]
  | sized text =>
      obtain ⟨opens, -, number, -, closes, -, rfl⟩ := passes
      refine ⟨opens, by simp at onward; omega, ?_⟩
      simp [dimension, accept, whenever, expectSymbol, expect, append_eq_seq, read, symbol,
        Test.holds, number, closes, TokenClass.holds]

theorem not_bracket (passes : c.Passes lexemes d)
    (alone : lexemes.head? ≠ some (.symbol .openBracket))
    (ends : (TokenClass.symbols [.openBracket]).holds d.current.lexeme = false) :
    (TokenClass.symbols [.openBracket]).holds c.current.lexeme = false := by
  cases lexemes with
  | nil => rwa [← show d = c from passes]
  | cons first lexemes =>
      rw [passes.1]
      cases first with
      | symbol s => simpa [TokenClass.holds] using alone
      | _ => rfl

variable (call) in
theorem read_dimensions (array : IsDimensions lexemes) (passes : c.Passes lexemes d)
    (later : 4 < d.current.lexeme.typePart) (f : Frame) :
    ∃ value, read call dimensions f c = .ok ({ f with value := value }, d) := by
  have other := not_typePart later rfl
  have notBracket := other (.symbols [.openBracket]) (by decide)
  have notArray := other (.words ["ARRAY"]) (by decide)
  suffices rounds : ∃ value, Rounds call (symbol .openBracket ||| word "ARRAY")
      (.branch (symbol .openBracket) (.take ++ dimension)
        (.take ++ whenever (symbol .openBracket) (.take ++ dimension)) ++ .write "[]") f c
      { f with value := value } d by
    obtain ⟨value, rounds⟩ := rounds
    exact ⟨value, read_rounds rounds⟩
  induction array generalizing c f with
  | nil =>
      cases passes
      exact ⟨f.value, .done (by simp [symbol, word, Test.holds, notBracket, notArray])⟩
  | brackets one rest ih =>
      obtain ⟨e, first, second⟩ := Cursor.passes_append.mp passes
      obtain ⟨opens, onward, reads⟩ := read_brackets call f one first
      obtain ⟨value, rounds⟩ := ih second (f.write "[]")
      have bracket : ∀ g, (symbol .openBracket).holds g c = true := by
        simp [symbol, Test.holds, opens, TokenClass.holds]
      refine ⟨value, .round (by simp [bracket]) ?_ onward rounds⟩
      rw [read_append ((read_yes (bracket f)).trans reads), read]
  | sized word one rest ih =>
      obtain ⟨e, ⟨here, more, first⟩, second⟩ := Cursor.passes_append.mp passes
      obtain ⟨text, rfl, capitals⟩ := word.exists
      obtain ⟨opens, onward, reads⟩ := read_brackets call f one first
      obtain ⟨value, rounds⟩ := ih second (f.write "[]")
      have bracket : ∀ g, (symbol .openBracket).holds g c.advance = true := by
        simp [symbol, Test.holds, opens, TokenClass.holds]
      have shorter := Cursor.advance_shorter more
      refine ⟨value, .round ?_ ?_ (by omega) rounds⟩
      · simp [Grammar.word, Test.holds, here, capitals]
      · have body : read call (.branch (symbol .openBracket) (.take ++ dimension)
            (.take ++ whenever (symbol .openBracket) (.take ++ dimension))) f c = .ok (f, e) := by
          rw [read_no (by simp [symbol, Test.holds, here, TokenClass.holds]),
            read_append (by rw [read]), whenever, read_yes (bracket f), reads]
        rw [read_append body, read]
  | array word alone rest ih =>
      obtain ⟨here, more, second⟩ := passes
      obtain ⟨text, rfl, capitals⟩ := word.exists
      obtain ⟨value, rounds⟩ := ih second (f.write "[]")
      refine ⟨value, .round ?_ ?_ (Cursor.advance_shorter more) rounds⟩
      · simp [Grammar.word, Test.holds, here, capitals]
      · have lone : (symbol .openBracket).holds f c.advance = false :=
          not_bracket second alone notBracket
        have body : read call (.branch (symbol .openBracket) (.take ++ dimension)
            (.take ++ whenever (symbol .openBracket) (.take ++ dimension))) f c =
              .ok (f, c.advance) := by
          rw [read_no (by simp [symbol, Test.holds, here, TokenClass.holds]),
            read_append (by rw [read]), whenever, read_no lone, read]
        rw [read_append body, read]

/-- A type is read part by part. -/
theorem reads_typeParts {g h : Frame} {i j k e : Cursor} {value : Option String}
    (name : read call (.branch anyName (takeAs .lowered) (.fail "data type") ++ typeWords)
      (.opened (some .dataType) c) c = .ok (g, i))
    (lengths : read call (whenever (symbol .openParen) group) g i = .ok (g, j))
    (zone : read call (whenever (.valueIn ["timestamp", "time"]) timeZone) g j = .ok (h, k))
    (fields : read call (whenever (.valueIn ["interval"]) intervalFields) h k = .ok (h, e))
    (array : read call dimensions h e =
      .ok ({ Frame.opened (some .dataType) c with value := value }, d)) :
    ReadsNode call dataType (IsLeaf .dataType) c d :=
  readsNode_leaf value
    (read_then (read_then (read_then (read_then name lengths) zone) fields) array)

/-- A type that is followed by nothing that a type can go on with is read whole. -/
theorem reads_dataType (type : IsType lexemes) (passes : c.Passes lexemes d)
    (ends : 4 < d.current.lexeme.typePart) {left : List Token}
    (enough : c.rest.length < left.length) :
    ReadsNode (callRule rules left) dataType (IsLeaf .dataType) c d := by
  cases type with
  | common named sized array =>
      obtain ⟨i, before, third⟩ := Cursor.passes_append.mp passes
      obtain ⟨e, first, second⟩ := Cursor.passes_append.mp before
      have later := typePart_passes 4 third (Nat.le_of_lt ends) array.starts
      have early := typePart_passes 1 second (by omega) sized.starts
      have onward := first.length
      obtain ⟨name, readName⟩ := read_typeName (callRule rules left)
        (f := .opened (some .dataType) c) named first early rfl
      obtain ⟨value, readArray⟩ := read_dimensions (callRule rules left) array third ends
        { Frame.opened (some .dataType) c with value := name }
      have noZone : read (callRule rules left) timeZone
          { Frame.opened (some .dataType) c with value := name } i = _ := read_noZone (by omega)
      exact reads_typeParts readName (read_lengths sized second (by omega) (by omega))
        (read_whenever_nothing _ noZone) (read_noFields later) readArray
  | time named time sized zoned array =>
      obtain ⟨i, before, third⟩ := Cursor.passes_append.mp passes
      obtain ⟨e, ⟨here, more, first⟩, second⟩ := Cursor.passes_append.mp before
      rw [← here] at named time
      have later := typePart_passes 4 third (Nat.le_of_lt ends) array.starts
      have early := typePart_passes 2 second (by omega) zoned.starts
      have onward := Cursor.advance_shorter more
      have readName := read_timeName (callRule rules left)
        (f := .opened (some .dataType) c) named time rfl
      obtain ⟨zone, readZone⟩ := read_zone (callRule rules left) zoned second (by omega)
        ((Frame.opened (some .dataType) c).write (Spelling.lowered.of c.current.lexeme))
      obtain ⟨value, readArray⟩ := read_dimensions (callRule rules left) array third ends
        { Frame.opened (some .dataType) c with value := zone }
      have goes : (Test.valueIn ["timestamp", "time"]).holds
          ((Frame.opened (some .dataType) c).write (Spelling.lowered.of c.current.lexeme)) e =
            true := by
        rw [valueIn_write rfl]
        simpa using time
      exact reads_typeParts readName (read_lengths sized first (by omega) (by omega))
        ((read_yes goes).trans readZone) (read_noFields later) readArray
  | interval named interval sized fielded array =>
      obtain ⟨i, before, third⟩ := Cursor.passes_append.mp passes
      obtain ⟨e, ⟨here, more, first⟩, second⟩ := Cursor.passes_append.mp before
      rw [← here] at named interval
      have later := typePart_passes 4 third (Nat.le_of_lt ends) array.starts
      have early := typePart_passes 3 second (by omega) (fun lexeme member =>
        (typePart_field (fielded lexeme (List.mem_of_mem_head? member))).ge)
      have outset := typePart_passes 1 first (by omega) sized.starts
      have dot := not_typePart outset rfl (.symbols [.dot]) (by decide)
      have onward := Cursor.advance_shorter more
      have readName : read (callRule rules left)
          (.branch anyName (takeAs .lowered) (.fail "data type") ++ typeWords)
          (.opened (some .dataType) c) c =
            .ok ((Frame.opened (some .dataType) c).write "interval", c.advance) := by
        have notDot : (symbol .dot).holds ((Frame.opened (some .dataType) c).write "interval")
            c.advance = false := dot
        rw [read_append (read_lowered named), interval, read_typeWords rfl (by decide),
          read_loop_none notDot]
      obtain ⟨value, readArray⟩ := read_dimensions (callRule rules left) array third ends
        ((Frame.opened (some .dataType) c).write "interval")
      have noZone : read (callRule rules left) (whenever (.valueIn ["timestamp", "time"]) timeZone)
          ((Frame.opened (some .dataType) c).write "interval") e =
            .ok ((Frame.opened (some .dataType) c).write "interval", e) := by
        rw [whenever, read_no (by rw [valueIn_write rfl]; decide), read]
      have goes : (Test.valueIn ["interval"]).holds
          ((Frame.opened (some .dataType) c).write "interval") e = true := by
        rw [valueIn_write rfl]
        decide
      exact reads_typeParts readName (read_lengths sized first (by omega) (by omega)) noZone
        ((read_yes goes).trans (read_intervalFields fielded second (by omega))) readArray

end Grammar
end SqlAudit
